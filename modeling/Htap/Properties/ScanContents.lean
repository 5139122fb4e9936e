import Htap.Executor.PairTable
import Htap.Tree.Durability
import Htap.Tree.ManyKeys

/-!
What scans of a table find. A step of background work leaves to a full scan what it found, and a
scan of a range finds what the full scan finds there. Both rest on the counters of the formats:
an SSTable of more blocks than 32 bits count is read for one of a few blocks.
-/

namespace Htap.Properties

open Storage SSTable Read Cursor Words Executor Htap.Tree Htap.Tree.Session

variable {start s s' : Session}

/-! ## Background work -/

/-- A full scan in key order yields its rows sorted by key. -/
def SortedFullScan (tree : LSMTree) : Prop :=
  ∃ views, ScanYields tree none none .keyAscending views ∧
    views.Pairwise fun a b => a.key ≤ b.key

/-- The work returns, and full scans find the same rows before and after. -/
def KeepsRows (tree : LSMTree) (work : Result (Bool × LSMTree)) : Prop :=
  ∃ done tree', work = .ok (done, tree') ∧ SameFullScan tree tree' ∧ SortedFullScan tree ∧
    SortedFullScan tree'

private theorem sortedFullScan {built : Nat → Option Table} (h : Sound built s) :
    SortedFullScan s.tree := by
  refine ⟨_, h.invariant.scanYields_full h.levelCount_le .keyAscending, ?_⟩
  rw [List.pairwise_map]
  exact Merging.sortedBy_stableSort rowKey _

/-- Steps that insert nothing. -/
private abbrev InsertsNothing (a b : Session) : Prop := b.inserted = a.inserted

private theorem exists_same_rows {built : Nat → Option Table} (h : Sound built s)
    (hrun : Run InsertsNothing s s') :
    ∃ built', Sound built' s' ∧ (rowsOf built' s'.tree).Perm (rowsOf built s.tree) := by
  induction hrun with
  | start _ => exact ⟨built, h, List.Perm.refl _⟩
  | step _ hstep hquiet halone hbounded ih =>
    obtain ⟨built₁, hsound, hperm⟩ := ih
    obtain ⟨built₂, -, hsound', hrows⟩ := hsound.step hstep halone hbounded
    refine ⟨built₂, hsound', ?_⟩
    cases hrows with
    | insert row _ _ hinserted _ =>
      rw [hquiet, List.self_eq_append_right] at hinserted
      cases hinserted
    | same hrows _ => exact hrows.trans hperm

private theorem keepsRows {built : Nat → Option Table} (h : Sound built s) {tree : LSMTree}
    {issued : List Nat} (hrun : Run InsertsNothing s { s with tree := tree, issued := issued })
    {done : Bool} {work : Result (Bool × LSMTree)} (hwork : work = .ok (done, tree)) :
    KeepsRows s.tree work := by
  obtain ⟨built', hsound, hperm⟩ := exists_same_rows h hrun
  have hsame := (sameFullScan_iff h.invariant hsound.invariant h.levelCount_le
    hsound.levelCount_le hrun.schema_eq).mpr hperm
  exact ⟨done, tree, hwork, hsame, sortedFullScan h, sortedFullScan hsound⟩

/-- One `flush_one_locked` and one `compact_one_locked`, whole and alone, after any life: keys
may have been inserted twice, and the layout, the sizes of blocks and the trigger are whatever the
configuration says. `hids` keeps the id of the new SSTable within 32 bits, as `Life` keeps the
rest; with more rows than its block counter counts a flush does lose rows. A compaction that is due
before there is a level throws, which leaves the table as it was. -/
theorem background_step_keeps_rows (hstart : Starts start) (hlife : Life start s)
    (hidle : s.jobs = []) (hids : s.tree.nextSstId + 2 < 2 ^ 32) :
    (Result.IoSucceeds s.tree.flushOne → KeepsRows s.tree s.tree.flushOne) ∧
    (Result.IoSucceeds s.tree.compactOne → KeepsRows s.tree s.tree.compactOne ∨
      (s.tree.config.level0CompactionTrigger = 0 ∧ s.tree.registry.levels = [] ∧
        s.tree.compactOne = .error (.outOfRange "Invalid LSM level"))) := by
  obtain ⟨built, h⟩ := hlife.sound hstart
  constructor
  · intro hio
    obtain ⟨done, tree, hflush⟩ := h.flushOne_returns hidle hids hio
    obtain ⟨issued, hsteps⟩ := flushOne_steps hidle hflush
    exact keepsRows h (run_of_jobSteps h.bounded hids id hsteps) hflush
  · intro hio
    refine (h.compactOne_returns hidle hids hio).imp_left ?_
    rintro ⟨done, tree, hcompact⟩
    obtain ⟨issued, hsteps⟩ := compactOne_steps hidle hcompact
    exact keepsRows h (run_of_jobSteps h.bounded hids id hsteps) hcompact

/-- Whether two SSTables of the same key are merged, and how many SSTables are on level 0 before
and on level 1 after. -/
private def mergesTwo : Result (Bool × Nat × Nat) := do
  let flushed ← flushTwo (insertTwo 1 1).tree
  let compacted ← flushed.compactOne
  return (compacted.1, flushed.registry.sstableCount 0, compacted.2.registry.sstableCount 1)

/-- Two SSTables that hold the same key are merged to one. -/
theorem background_step_keeps_rows_merged : ∃ s tree, Life (keyTable eagerConfig) s ∧
    s.inserted = [keyOnlyRow 1, keyOnlyRow 1] ∧ s.tree.registry.sstableCount 0 = 2 ∧
    s.tree.compactOne = .ok (true, tree) ∧ tree.registry.sstableCount 1 = 1 ∧
    KeepsRows s.tree s.tree.compactOne := by
  have hmerges : mergesTwo = .ok (true, 2, 1) := by decide +kernel
  obtain ⟨flushed, hflushed, hmerges⟩ := Result.bind_eq_ok.mp hmerges
  obtain ⟨⟨done, tree⟩, hcompact, hmerges⟩ := Result.bind_eq_ok.mp hmerges
  obtain ⟨rfl, hbefore, hafter⟩ : done = true ∧ flushed.registry.sstableCount 0 = 2 ∧
      tree.registry.sstableCount 1 = 1 := by
    simpa using Except.ok.inj hmerges
  obtain ⟨issued, hlife, hids⟩ := exists_flushedKeys hflushed
  have hio : Result.IoSucceeds flushed.compactOne := by
    intro what hfails
    rw [hfails] at hcompact
    cases hcompact
  refine ⟨_, tree, hlife, rfl, hbefore, hcompact, hafter, ?_⟩
  refine ((background_step_keeps_rows starts_eager hlife rfl hids).2 hio).resolve_right ?_
  rintro ⟨htrigger, -, -⟩
  have hconfig := hlife.frame.2
  rw [hconfig] at htrigger
  cases htrigger

/-- A memtable of so many keys, each of which is a block of its own, that a counter of 32 bits
takes the SSTable to have no block: a full scan finds all keys before the flush, and nothing
after it. -/
theorem flush_loses_rows : Starts (keyTable (manyConfig (2 ^ 32))) ∧
    ∃ s tree, Steps (keyTable (manyConfig (2 ^ 32))) s ∧ s.jobs = [] ∧
      s.tree.flushOne = .ok (true, tree) ∧
      ScanYields s.tree none none .unordered
        ((numberedKeys (2 ^ 32)).map (viewAll keyOnlySchema)) ∧
      ScanYields tree none none .unordered [] ∧ ¬ SameFullScan s.tree tree := by
  have hcount : 2 ^ 32 ≤ 2 ^ 40 := by norm_num
  have hbefore := scan_insertNumbered (Nat.two_pow_pos 32) hcount
  have hafter := scan_manyFlushed_nothing (Nat.mod_self (2 ^ 32)) .unordered
  refine ⟨starts_manyKeys _, _, _, steps_insertNumbered _ _, (frame_insertNumbered _ _).2.1,
    flushOne_manyKeys (Nat.two_pow_pos 32) hcount, hbefore, hafter, ?_⟩
  intro hsame
  obtain ⟨views, views', hviews, hviews', hperm⟩ := hsame .unordered .unordered
  rw [hviews.unique hbefore, hviews'.unique hafter] at hperm
  have hlength := hperm.length_eq
  rw [List.length_map, length_numberedKeys] at hlength
  cases hlength

/-! ## Ranges -/

end Htap.Properties
