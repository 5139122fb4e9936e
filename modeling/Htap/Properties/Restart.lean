import Htap.Tree.Recovery
import Htap.Tree.WholeSteps

/-!
A normal shutdown and a new start on the same directory. The destructor waits for the
queue of immutable memtables to be written, but nothing writes the active memtable.
-/

namespace Htap.Properties

open Storage SSTable Read Cursor Htap.Tree Htap.Tree.Session

/-- A step that inserts nothing. -/
def Quiet (s s' : Session) : Prop := s'.inserted = s.inserted

/-- The destructor has run to completion. -/
structure Stopped (s stopped : Session) : Prop where
  run : Run Quiet s stopped
  idle : stopped.jobs = []
  drained : stopped.tree.memoryLayer.immutables = []

section

variable {built : Nat → Option Table} {s s' : Session}

private theorem active_of_quiet (h : Sound built s) (hstep : Step s s') (hquiet : Quiet s s') :
    s'.tree.memoryLayer.active = s.tree.memoryLayer.active ∧
      s'.tree.schema = s.tree.schema := by
  obtain ⟨hschema, ⟨row, -, hinserted⟩ | ⟨-, hmemory⟩⟩ := h.memory_step hstep
  · have hlength := congrArg List.length (hinserted.symm.trans hquiet)
    simp at hlength
  · exact ⟨hmemory.2, hschema⟩

/-- The shutdown moves rows between memory and SSTables only. -/
private theorem run_quiet (h : Sound built s) (hrun : Run Quiet s s') :
    ∃ built', Sound built' s' ∧ (rowsOf built' s'.tree).Perm (rowsOf built s.tree) ∧
      s'.tree.memoryLayer.active = s.tree.memoryLayer.active ∧
      s'.tree.schema = s.tree.schema := by
  induction hrun with
  | start _ => exact ⟨built, h, List.Perm.refl _, rfl, rfl⟩
  | step _ hstep hquiet halone hbounded ih =>
    obtain ⟨built', hsound, hperm, hactive, hschema⟩ := ih
    obtain ⟨hactive', hschema'⟩ := active_of_quiet hsound hstep hquiet
    obtain ⟨built'', -, hsound', hrows⟩ := hsound.step hstep halone hbounded
    refine ⟨built'', hsound', ?_, hactive'.trans hactive, hschema'.trans hschema⟩
    cases hrows with
    | insert row _ _ hinserted _ =>
      have hlength := congrArg List.length (hinserted.symm.trans hquiet)
      simp at hlength
    | same hrows _ => exact hrows.trans hperm

private theorem sameFullScan_restart_iff {stopped restarted : Session} (h : Sound built s)
    (hstopped : Stopped s stopped) (hrestart : Restart stopped restarted)
    (hfits : stopped.FitsManifest) :
    SameFullScan s.tree restarted.tree ↔ s.tree.memoryLayer.active.rows = [] := by
  obtain ⟨built', hsound, hperm, hactive, hschema⟩ := run_quiet h hstopped.run
  obtain ⟨hsound', hschema', -, hrows⟩ := hsound.restart hfits hrestart
  rw [sameFullScan_iff h.invariant hsound'.invariant h.levelCount_le hsound'.levelCount_le
    (hschema'.trans hschema), hrows]
  have hsplit : rowsOf built' stopped.tree = s.tree.memoryLayer.active.rows ++
      stopped.tree.registry.entries.flatMap (builtRows built') := by
    rw [rowsOf, MemoryLayer.rows, hactive, hstopped.drained, List.flatMap_nil, List.append_nil]
  rw [hsplit] at hperm
  constructor
  · intro hsame
    have hlength := (hsame.trans hperm.symm).length_eq
    rw [List.length_append] at hlength
    exact List.length_eq_zero_iff.mp (by omega)
  · intro hempty
    rw [hempty, List.nil_append] at hperm
    exact hperm

end

/-- What a table holds survives a restart exactly when its active memtable is empty. The
life before may have any restarts of its own; `Stopped` is the destructor, which ends what
is on its way, and `hfits` is that the manifest can hold what is registered. -/
theorem restart_keeps_rows_iff {start s stopped restarted : Session} (hstart : Starts start)
    (hlife : Life start s) (hstopped : Stopped s stopped) (hrestart : Restart stopped restarted)
    (hfits : stopped.FitsManifest) :
    SameFullScan s.tree restarted.tree ↔ s.tree.memoryLayer.active.rows = [] := by
  obtain ⟨built, hsound⟩ := hlife.sound hstart
  exact sameFullScan_restart_iff hsound hstopped hrestart hfits

/-! ## Two rows that were frozen -/

/-- Two memtables are flushed, and a new process opens the directory. -/
private def reopensTwo : Result (Bool × Nat) := do
  let stopped ← flushTwo twoKeys.tree
  let tree ← LSMTree.create stopped.schema stopped.config stopped.disk
  return (sizesFit stopped && stopped.memoryLayer.immutables.isEmpty, tree.registry.entries.length)

theorem restart_keeps_rows_iff_two_rows : ∃ stopped restarted, Stopped twoKeys stopped ∧
    Restart stopped restarted ∧ restarted.tree.registry.entries.length = 2 ∧
    (SameFullScan twoKeys.tree restarted.tree ↔ twoKeys.tree.memoryLayer.active.rows = []) := by
  have hreopens : reopensTwo = .ok (true, 2) := by decide +kernel
  obtain ⟨tree, hflush, hreopens⟩ := Result.bind_eq_ok.mp hreopens
  obtain ⟨opened, hopen, hreopens⟩ := Result.bind_eq_ok.mp hreopens
  obtain ⟨hchecks, hlength⟩ := Prod.mk.inj (Except.ok.inj hreopens)
  obtain ⟨hsizes, hempty⟩ := Bool.and_eq_true_iff.mp hchecks
  obtain ⟨issued, hrun, -⟩ := @worked_flushTwo twoKeys Quiet (life_twoKeys.bounded starts_eager)
    rfl (by decide) id tree hflush
  have hstopped : Stopped twoKeys { twoKeys with tree := tree, issued := issued } :=
    ⟨hrun, rfl, List.isEmpty_iff.mp hempty⟩
  have hconfig := (life_twoKeys.trans hrun.life).frame.2
  have hfits := fits_of_sizesFit (s := { twoKeys with tree := tree, issued := issued })
    (by rw [hconfig]; decide) hsizes
  have hrestart := @Restart.reopen { twoKeys with tree := tree, issued := issued } opened rfl hopen
  exact ⟨_, _, hstopped, hrestart, hlength,
    restart_keeps_rows_iff starts_eager life_twoKeys hstopped hrestart hfits⟩

/-! ## One row -/

/-- The default configuration. -/
private def plainConfig : StorageConfig := { rootPath := [47, 100] }

/-- A process that inserts one row. -/
def oneRowInserted : Session := (keyTable plainConfig).insertKey 7

/-- What a process finds that starts after it. -/
def oneRowRestarted : Session where
  tree := (keyTable plainConfig).tree
  inserted := [keyOnlyRow 7]

private theorem oneRow_starts : Starts (keyTable plainConfig) := starts_keyTable rfl

private theorem oneRow_bounded : Bounded oneRowInserted :=
  bounded_insertKey (bounded_keyTable _) 7 (by norm_num [keyTable])

private theorem oneRow_life : Life (keyTable plainConfig) oneRowInserted :=
  .step (.start (bounded_keyTable _)) (step_insertKey rfl 7) (Nat.zero_le 1) oneRow_bounded

private theorem oneRow_stopped : Stopped oneRowInserted oneRowInserted :=
  ⟨.start oneRow_bounded, rfl, rfl⟩

private theorem oneRow_restart : Restart oneRowInserted oneRowRestarted := .reopen rfl rfl

private theorem oneRow_fits : FitsManifest oneRowInserted :=
  ⟨by decide, fun _ hinfo => absurd hinfo List.not_mem_nil⟩

/-- One row inserted, a normal shutdown and a new start: the row is not there. -/
theorem one_row_lost_by_restart : Starts (keyTable plainConfig) ∧
    Life (keyTable plainConfig) oneRowInserted ∧ Stopped oneRowInserted oneRowInserted ∧
    Restart oneRowInserted oneRowRestarted ∧
    ¬ SameFullScan oneRowInserted.tree oneRowRestarted.tree := by
  refine ⟨oneRow_starts, oneRow_life, oneRow_stopped, oneRow_restart, ?_⟩
  obtain ⟨built, hsound⟩ := oneRow_life.sound oneRow_starts
  rw [sameFullScan_restart_iff hsound oneRow_stopped oneRow_restart oneRow_fits]
  exact List.cons_ne_nil _ _

end Htap.Properties
