import Htap.Tree.WholeSteps

/-!
Repeated keys. An insertion overwrites what the active memtable holds under its key;
nothing looks for the key anywhere else, and neither a scan nor a compaction drops a row.
-/

namespace Htap.Properties

open Storage SSTable Read Cursor Htap.Tree Htap.Tree.Session

/-- The row was inserted, and none of its key after it. -/
def LastWrite (inserted : List Row) (row : Row) : Prop :=
  ∃ before after, inserted = before ++ row :: after ∧ ∀ later ∈ after, rowKey later ≠ rowKey row

/-- Scans and lookups see the last row of every key, and no other row. -/
def LastWriteWins (s : Session) : Prop :=
  ∃ rows : List Row, (rows.map rowKey).Nodup ∧ (∀ row, row ∈ rows ↔ LastWrite s.inserted row) ∧
    (∀ order, ∃ scanned : List Row, scanned.Perm rows ∧
      ScanYields s.tree none none order (scanned.map (viewAll s.tree.schema))) ∧
    ∀ key, GetYields s.tree key
      ((rows.filter fun row => decide (rowKey row = key)).map (viewAll s.tree.schema))

/-- An inserted row has a new key, or one whose row is still in the active memtable. -/
def NoLateRepeat (s s' : Session) : Prop :=
  ∀ row, s'.inserted = s.inserted ++ [row] → (∃ old ∈ s.inserted, rowKey old = rowKey row) →
    ∃ old ∈ s.tree.memoryLayer.active.rows, rowKey old = rowKey row

/-! ## Last writes -/

theorem lastWrite_concat {inserted : List Row} {row other : Row} :
    LastWrite (inserted ++ [row]) other ↔
      other = row ∨ LastWrite inserted other ∧ rowKey other ≠ rowKey row := by
  constructor
  · rintro ⟨before, after, heq, hlast⟩
    rcases List.eq_nil_or_concat after with rfl | ⟨after, last, rfl⟩
    · obtain ⟨-, hrow⟩ := List.append_inj' heq rfl
      exact Or.inl (List.singleton_injective hrow).symm
    · rw [List.concat_eq_append, ← List.cons_append, ← List.append_assoc] at heq
      rw [List.concat_eq_append] at hlast
      obtain ⟨hinserted, hrow⟩ := List.append_inj' heq rfl
      obtain rfl := List.singleton_injective hrow
      refine Or.inr ⟨⟨before, after, hinserted, ?_⟩, ?_⟩
      · exact fun later hlater => hlast later (List.mem_append_left _ hlater)
      · exact (hlast row (List.mem_append_right _ (List.mem_singleton_self row))).symm
  · rintro (rfl | ⟨⟨before, after, rfl, hlast⟩, hne⟩)
    · refine ⟨inserted, [], rfl, fun later hlater => ?_⟩
      cases hlater
    · refine ⟨before, after ++ [row], by simp, ?_⟩
      intro later hlater
      rcases List.mem_append.mp hlater with hold | hnew
      · exact hlast later hold
      · rw [List.mem_singleton.mp hnew]
        exact hne.symm

theorem LastWrite.mem {inserted : List Row} {row : Row} (h : LastWrite inserted row) :
    row ∈ inserted := by
  obtain ⟨before, after, rfl, -⟩ := h
  exact List.mem_append_right before List.mem_cons_self

/-! ## What the tree holds -/

section

variable {built : Nat → Option Table} {s s' : Session}

/-- The rows of the tree are the last writes, one for each key. -/
structure HoldsLast (built : Nat → Option Table) (s : Session) : Prop where
  distinct : ((rowsOf built s.tree).map rowKey).Nodup
  last : ∀ row, row ∈ rowsOf built s.tree ↔ LastWrite s.inserted row

private theorem HoldsLast.perm {built' : Nat → Option Table} (h : HoldsLast built s)
    (hrows : (rowsOf built' s'.tree).Perm (rowsOf built s.tree))
    (hinserted : s'.inserted = s.inserted) : HoldsLast built' s' := by
  constructor
  · exact (hrows.map rowKey).nodup_iff.mpr h.distinct
  · intro row
    rw [hrows.mem_iff, hinserted]
    exact h.last row

/-- If the key is stored at all, then in the active memtable and nowhere else. -/
private theorem rowsOf_insertRow (h : HoldsLast built s) {row : Row}
    (hactive : (∃ old ∈ s.inserted, rowKey old = rowKey row) →
      ∃ old ∈ s.tree.memoryLayer.active.rows, rowKey old = rowKey row) :
    (rowsOf built (s.tree.insertRow row)).Perm
      (row :: (rowsOf built s.tree).filter fun r => rowKey r ≠ rowKey row) := by
  have hrest : ∀ r ∈ s.tree.memoryLayer.immutables.flatMap ImmutableMemTable.data ++
      s.tree.registry.entries.flatMap (builtRows built), rowKey r ≠ rowKey row := by
    intro r hr heq
    have hsplit : rowsOf built s.tree = s.tree.memoryLayer.active.rows ++
        (s.tree.memoryLayer.immutables.flatMap ImmutableMemTable.data ++
          s.tree.registry.entries.flatMap (builtRows built)) := by
      rw [rowsOf, MemoryLayer.rows, List.append_assoc]
    have hmem : r ∈ rowsOf built s.tree := hsplit ▸ List.mem_append_right _ hr
    obtain ⟨old, hold, hkey⟩ := hactive ⟨r, ((h.last r).mp hmem).mem, heq⟩
    have hdistinct := h.distinct
    rw [hsplit, List.map_append] at hdistinct
    exact (List.nodup_append.mp hdistinct).2.2 (rowKey old) (List.mem_map_of_mem hold) (rowKey r)
      (List.mem_map_of_mem hr) (hkey.trans heq.symm)
  have hkept := List.filter_eq_self.mpr fun r hr => decide_eq_true (hrest r hr)
  have hmemory := (s.tree.memoryLayer.rows_insert_perm row).append_right
    (s.tree.registry.entries.flatMap (builtRows built))
  rw [rowsOf, LSMTree.insertRow]
  refine hmemory.trans (List.Perm.of_eq ?_)
  rw [rowsOf, MemoryLayer.rows, List.append_assoc, List.append_assoc, List.filter_append, hkept]
  rfl

private theorem HoldsLast.insert (h : HoldsLast built s) {row : Row}
    (hactive : (∃ old ∈ s.inserted, rowKey old = rowKey row) →
      ∃ old ∈ s.tree.memoryLayer.active.rows, rowKey old = rowKey row)
    (htree : s'.tree = s.tree.insertRow row) (hinserted : s'.inserted = s.inserted ++ [row]) :
    HoldsLast built s' := by
  have hperm := rowsOf_insertRow h hactive
  rw [← htree] at hperm
  constructor
  · rw [(hperm.map rowKey).nodup_iff, List.map_cons, List.nodup_cons]
    constructor
    · rintro hmem
      obtain ⟨r, hr, hkey⟩ := List.mem_map.mp hmem
      rw [List.mem_filter, decide_eq_true_eq] at hr
      exact hr.2 hkey
    · exact h.distinct.sublist (List.filter_sublist.map rowKey)
  · intro other
    rw [hperm.mem_iff, List.mem_cons, List.mem_filter, decide_eq_true_eq, h.last, hinserted,
      lastWrite_concat]

private theorem holdsLast_run {start : Session} (hsound : Sound built start)
    (hlast : HoldsLast built start) (hrun : Run NoLateRepeat start s) :
    ∃ built', Sound built' s ∧ HoldsLast built' s := by
  induction hrun with
  | start _ => exact ⟨built, hsound, hlast⟩
  | step _ hstep hallowed halone hbounded ih =>
    obtain ⟨built', hsound, hlast⟩ := ih
    obtain ⟨built'', -, hsound', hrows⟩ := hsound.step hstep halone hbounded
    refine ⟨built'', hsound', ?_⟩
    cases hrows with
    | insert row _ htree hinserted hbuilt =>
      rw [hbuilt]
      exact hlast.insert (hallowed row hinserted) htree hinserted
    | same hrows hinserted => exact hlast.perm hrows hinserted

/-- Distinct keys in key order. -/
private theorem strict_of_holdsLast (hsound : Sound built s) (h : HoldsLast built s) :
    ∀ info ∈ s.tree.registry.entries, StrictRows (builtRows built info) := by
  intro info hinfo
  obtain ⟨t, -, hstored, hrows⟩ := hsound.invariant.exists_built hinfo
  have hsorted : SortedRows (builtRows built info) := hrows ▸ hstored.wellFormed.sorted
  have hsub : (builtRows built info).Sublist (rowsOf built s.tree) := by
    rw [rowsOf, List.flatMap_def]
    exact (List.sublist_flatten_of_mem (List.mem_map_of_mem hinfo)).trans
      (List.sublist_append_right _ _)
  have hdistinct := List.pairwise_map.mp (h.distinct.sublist (hsub.map rowKey))
  exact hsorted.imp₂ (fun a b hle hne => lt_of_le_of_ne hle hne) hdistinct

/-- Nothing was inserted yet. -/
private theorem HoldsLast.of_nil (hsound : Sound built s) (hnil : s.inserted = []) :
    HoldsLast built s := by
  have hrows : rowsOf built s.tree = [] := by
    have hle := hsound.rows
    rw [hnil] at hle
    exact List.length_eq_zero_iff.mp (Nat.le_zero.mp hle)
  constructor
  · rw [hrows]
    exact List.nodup_nil
  · intro row
    rw [hrows, hnil]
    constructor
    · intro hrow
      cases hrow
    · intro hlast
      exact hlast.mem

private theorem lastWriteWins_of_holdsLast (hsound : Sound built s) (h : HoldsLast built s) :
    LastWriteWins s := by
  refine ⟨rowsOf built s.tree, h.distinct, h.last, ?_, ?_⟩
  · intro order
    exact ⟨_, arrange_perm order _, hsound.invariant.scanYields_full hsound.levelCount_le order⟩
  · intro key
    exact hsound.invariant.getYields hsound.levelCount_le (strict_of_holdsLast hsound h) key

end

/-- In a process that never inserts a key again once its row has left the active memtable,
the last write of every key wins, whatever the flushes and compactions between. The
condition is on insertions alone; within the active memtable a key may be written any number
of times. -/
theorem last_write_wins {start s : Session} (hstart : Starts start)
    (hrun : Run NoLateRepeat start s) : LastWriteWins s := by
  have hsound := sound_of_starts hstart hrun.life.bounded_start
  have hnil : start.inserted = [] := by
    obtain ⟨hschema, hcreate⟩ := hstart
    rfl
  obtain ⟨built, hsound, hlast⟩ := holdsLast_run hsound (HoldsLast.of_nil hsound hnil) hrun
  exact lastWriteWins_of_holdsLast hsound hlast

/-! ## A key that comes back in time -/

/-- A memtable of two rows is frozen. -/
private def pairsConfig : StorageConfig := { rootPath := [47, 100], memtableThreshold := 2 }

private def writtenTwice : Session := ((keyTable pairsConfig).insertKey 5).insertKey 5

/-- Key 5 is written twice, then key 6; the memtable of the two is frozen. -/
private def rewrittenKey : Session := writtenTwice.insertKey 6

private theorem run_rewrittenKey : Run NoLateRepeat (keyTable pairsConfig) rewrittenKey := by
  have hone := bounded_insertKey (bounded_keyTable pairsConfig) 5 (by norm_num [keyTable])
  have htwo : writtenTwice.Bounded := bounded_insertKey hone 5 (by norm_num [keyTable, insertKey])
  have hthree : rewrittenKey.Bounded :=
    bounded_insertKey htwo 6 (by norm_num [writtenTwice, keyTable, insertKey])
  have hfirst : Run NoLateRepeat (keyTable pairsConfig) ((keyTable pairsConfig).insertKey 5) := by
    refine .step (.start (bounded_keyTable _)) (step_insertKey rfl 5) ?_ (Nat.zero_le 1) hone
    rintro row - ⟨old, hold, -⟩
    cases hold
  have hsecond : Run NoLateRepeat (keyTable pairsConfig) writtenTwice := by
    refine .step hfirst (step_insertKey rfl 5) ?_ (Nat.zero_le 1) htwo
    intro row hrow _
    obtain rfl := List.singleton_injective (List.append_cancel_left hrow)
    exact ⟨keyOnlyRow 5, List.mem_singleton_self _, rfl⟩
  refine .step hsecond (step_insertKey rfl 6) ?_ (Nat.zero_le 1) hthree
  rintro row hrow ⟨old, hold, hkey⟩
  obtain rfl := List.singleton_injective (List.append_cancel_left hrow)
  obtain rfl : old = keyOnlyRow 5 := by
    have hpair : old ∈ [keyOnlyRow 5, keyOnlyRow 5] := hold
    simpa using hpair
  exact absurd hkey (by decide)

/-- Whether the memtable becomes an SSTable. -/
private def flushesRewritten : Result Nat := do
  let (_, tree) ← rewrittenKey.tree.flushOne
  return tree.registry.entries.length

theorem last_write_wins_rewritten : ∃ s, Run NoLateRepeat (keyTable pairsConfig) s ∧
    s.inserted.length = 3 ∧ s.tree.registry.entries.length = 1 ∧ LastWriteWins s := by
  have hflushes : flushesRewritten = .ok 1 := by decide +kernel
  obtain ⟨⟨done, tree⟩, hflush, hflushes⟩ := Result.bind_eq_ok.mp hflushes
  have hstart : Starts (keyTable pairsConfig) := starts_keyTable rfl
  have hquiet : ∀ {a b : Session}, b.inserted = a.inserted → NoLateRepeat a b := by
    intro a b hsame row hrow
    rw [hsame, List.self_eq_append_right] at hrow
    cases hrow
  obtain ⟨issued, hworked⟩ := worked_flushOne (run_rewrittenKey.life.bounded hstart) rfl
    (by decide) hquiet hflush
  have hrun := run_rewrittenKey.trans hworked.run
  exact ⟨_, hrun, rfl, Except.ok.inj hflushes, last_write_wins hstart hrun⟩

/-! ## A key that comes back late -/

private def freezingConfig : StorageConfig := { rootPath := [47, 100], memtableThreshold := 1 }

/-- The memtable is frozen after each of the two insertions. -/
def sameKeyTwice : Session := ((keyTable freezingConfig).insertKey 5).insertKey 5

/-- One key inserted twice with a frozen memtable between: a full scan yields two rows. -/
theorem repeated_key_read_twice : Starts (keyTable freezingConfig) ∧
    Life (keyTable freezingConfig) sameKeyTwice ∧ ¬ LastWriteWins sameKeyTwice := by
  have hstart : Starts (keyTable freezingConfig) := starts_keyTable rfl
  have hone := bounded_insertKey (bounded_keyTable freezingConfig) 5 (by norm_num [keyTable])
  have htwo : sameKeyTwice.Bounded :=
    bounded_insertKey hone 5 (by norm_num [keyTable, insertKey])
  have hfirst := Life.step (.start (bounded_keyTable freezingConfig)) (step_insertKey rfl 5)
    (Nat.zero_le 1) hone
  have hlife : Life (keyTable freezingConfig) sameKeyTwice :=
    .step hfirst (step_insertKey rfl 5) (Nat.zero_le 1) htwo
  refine ⟨hstart, hlife, ?_⟩
  rintro ⟨rows, hdistinct, -, hscan, -⟩
  obtain ⟨built, hsound⟩ := hlife.sound hstart
  obtain ⟨scanned, hperm, hyields⟩ := hscan .unordered
  have hviews := hyields.unique
    (hsound.invariant.scanYields_full hsound.levelCount_le .unordered)
  have hkeys : scanned.map rowKey = [5, 5] := by
    have hmap := congrArg (List.map RowView.key) hviews
    rw [List.map_map, List.map_map] at hmap
    exact hmap
  rw [← (hperm.map rowKey).nodup_iff, hkeys] at hdistinct
  exact absurd hdistinct (by decide)

end Htap.Properties
