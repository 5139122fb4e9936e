import Htap.Executor.PairTable
import Htap.Tree.Durability

/-!
What becomes of the rows of a table over its history: insertions, flushes, compactions and
reads in any order, and processes that die at any time. No key is inserted twice.
-/

namespace Htap.Properties

open Storage SSTable Read Cursor Words Executor Htap.Tree Htap.Tree.Session

variable {start s s' : Session} {Allowed : Session → Session → Prop}

/-- The table is read as the store: every scan and every lookup reads all that the store
holds, and what is volatile is in memory. -/
structure ReadsAs (s : Session) (t : CrashStore Row) : Prop where
  volatile : t.volatile = ↑s.tree.memoryLayer.rows
  rows : ∃ rows : List Row, Stores s.tree rows ∧ t.all = ↑rows

/-- Over any number of processes, each of which may die at any time, a table refines a store
that can crash. What its steps are to the store is told by the steps: an insertion adds its row,
the end of a flush saves the rows of its memtable, the death of the process is a crash, and
everything else (scans, lookups, beginnings and writes of flushes, whole compactions) is nothing.
The store that comes of the events is what every scan and every lookup reads. -/
theorem table_refines_crashStore (hstart : Starts start) (hhistory : History start s)
    (hkeys : (s.inserted.map rowKey).Nodup) :
    (∃ events, Chronicle start events s) ∧ ∀ events, Chronicle start events s →
      CrashStore.added events = s.inserted ∧ ∃ t, CrashStore.empty.Run events t ∧ ReadsAs s t := by
  refine ⟨hhistory.exists_chronicle hstart hkeys, ?_⟩
  intro events hchronicle
  obtain ⟨built, next, hsound, -, hrun, hadded, hsub⟩ :=
    hchronicle.exists_store hhistory.bounded_start hstart hkeys
  refine ⟨hadded, storeOf built s.tree, hrun, rfl, rowsOf built s.tree, ?_,
    all_storeOf built s.tree⟩
  exact (hsound.stores hsub hkeys).1

theorem table_refines_crashStore_pairs : ∃ s, TwoTables s [] ∧
    (∃ events, Chronicle (newPairs freezingPairs) events s) ∧
      ∀ events, Chronicle (newPairs freezingPairs) events s →
        CrashStore.added events = s.inserted ∧
          ∃ t, CrashStore.empty.Run events t ∧ ReadsAs s t := by
  obtain ⟨s, s', hrun, hflushed, hdies, hreopened⟩ := exists_reopenedPairs
  have hhistory := (run_threePairs.trans hrun).life.history.trans hdies
  have hkeys : (s'.inserted.map rowKey).Nodup := by
    rw [hreopened.inserted]
    decide
  exact ⟨s', hreopened, table_refines_crashStore starts_freezingPairs hhistory hkeys⟩

/-- In one process no row is lost and none comes twice: every scan and every lookup reads
the rows that were inserted. `Allowed` keeps the run within one job at a time and the
counters of the formats; with a key inserted twice it is false, as flushed rows stay. -/
theorem every_row_is_read (hstart : Starts start) (hrun : Run Allowed start s)
    (hkeys : (s.inserted.map rowKey).Nodup) :
    ∃ rows, Stores s.tree rows ∧ rows.Perm s.inserted := by
  obtain ⟨built, -, hstores, hperm⟩ := hrun.exists_stores hstart hkeys
  exact ⟨rowsOf built s.tree, hstores, hperm⟩

theorem every_row_is_read_pairs : ∃ s, TwoTables s [pairRow (3, 30)] ∧
    ∃ rows, Stores s.tree rows ∧ rows.Perm s.inserted := by
  obtain ⟨s, -, hrun, hflushed, -, -⟩ := exists_reopenedPairs
  have hkeys : (s.inserted.map rowKey).Nodup := by
    rw [hflushed.inserted]
    decide
  exact ⟨s, hflushed, every_row_is_read starts_freezingPairs (run_threePairs.trans hrun) hkeys⟩

/-- A row that has left memory is read after any further insertions, flushes and
compactions, and whenever a process dies. That the row was flushed is what matters: a row of
the memory dies with its process. -/
theorem durable_rows_survive (hstart : Starts start) (hhistory : History start s)
    (hmore : History s s') (hkeys : (s'.inserted.map rowKey).Nodup) :
    ∃ rows rows', Stores s.tree rows ∧ Stores s'.tree rows' ∧
      ∀ row ∈ rows, row ∉ s.tree.memoryLayer.rows → row ∈ rows' := by
  have hkeys₀ := hmore.keys_before hkeys
  obtain ⟨built, next, events, hsound, hrecorded, -, -, hsub⟩ :=
    hhistory.exists_store hstart hkeys₀
  obtain ⟨built', -, events', hsound', -, hsim⟩ := hsound.simulates hrecorded hsub hmore hkeys
  refine ⟨rowsOf built s.tree, rowsOf built' s'.tree, (hsound.stores hsub hkeys₀).1,
    (hsound'.stores (hsim.subperm hsub) hkeys).1, ?_⟩
  intro row hrow hmemory
  have hdurable : row ∈ (storeOf built s.tree).durable :=
    (List.mem_append.mp hrow).resolve_left hmemory
  have hlast : row ∈ (storeOf built' s'.tree).durable :=
    Multiset.mem_of_le hsim.run.durable_le hdurable
  exact List.mem_append_right _ hlast

theorem durable_rows_survive_pairs : ∃ s s', TwoTables s [pairRow (3, 30)] ∧ TwoTables s' [] ∧
    ∃ rows rows', Stores s.tree rows ∧ Stores s'.tree rows' ∧
      ∀ row ∈ rows, row ∉ s.tree.memoryLayer.rows → row ∈ rows' := by
  obtain ⟨s, s', hrun, hflushed, hdies, hreopened⟩ := exists_reopenedPairs
  have hkeys : (s'.inserted.map rowKey).Nodup := by
    rw [hreopened.inserted]
    decide
  exact ⟨s, s', hflushed, hreopened, durable_rows_survive starts_freezingPairs
    (run_threePairs.trans hrun).life.history hdies hkeys⟩

/-- Reads of the two trees find the same rows, in the same order where keys come ascending. -/
structure SameReads (tree tree' : LSMTree) : Prop where
  scan : ∀ (range : KeyRange) (projection : List Nat), range.Ordered →
    validateProjection tree.schema projection = .ok () → ∀ order, ∃ rows rows',
      ScanReads tree range projection order {} rows ∧
      ScanReads tree' range projection order {} rows' ∧ rows.Perm rows' ∧
      (order = .keyAscending → rows = rows')
  get : ∀ key projection, validateProjection tree.schema projection = .ok () →
    ∃ rows, GetReads tree key projection rows ∧ GetReads tree' key projection rows

/-- Whatever goes on in a process between two insertions, jobs on their way included, no
read of the table can tell. Reads are lookups and unfiltered scans: a scan with a filter
skips blocks, and which rows share a block does change. -/
theorem background_work_is_invisible (hstart : Starts start) (hhistory : History start s)
    (hrun : Run Allowed s s') (hquiet : s'.inserted = s.inserted)
    (hkeys : (s.inserted.map rowKey).Nodup) : SameReads s.tree s'.tree := by
  obtain ⟨built, next, events, hsound, -, -, -, hsub⟩ := hhistory.exists_store hstart hkeys
  have hkeys' : (s'.inserted.map rowKey).Nodup := hquiet ▸ hkeys
  obtain ⟨built', events', hsound', hevents, hsim'⟩ := hsound.simulates_run hsub hrun hkeys'
  have hperm : (rowsOf built s.tree).Perm (rowsOf built' s'.tree) := by
    have hadded := hsim'.added
    rw [hquiet, List.self_eq_append_right] at hadded
    have hall := hsim'.run.all_eq hevents
    rw [hadded, Multiset.coe_nil, add_zero, all_storeOf, all_storeOf] at hall
    exact (Multiset.coe_eq_coe.mp hall).symm
  obtain ⟨hstores, hdistinct⟩ := hsound.stores hsub hkeys
  have hstores' := (hsound'.stores (hsim'.subperm hsub) hkeys').1
  have hschema := hrun.schema_eq
  constructor
  · intro range projection hrange hprojection order
    have hinRange := hperm.filter fun row => range.contains (rowKey row)
    refine ⟨_, _, hstores.scan range projection order hrange hprojection,
      hstores'.scan range projection order hrange (hschema ▸ hprojection), ?_, ?_⟩
    · exact (arrange_perm order _).trans (hinRange.trans (arrange_perm order _).symm)
    · rintro rfl
      have hkeysIn : ((arrange .keyAscending (inRange range (rowsOf built s.tree))).map
          rowKey).Nodup := by
        rw [((arrange_perm .keyAscending _).map rowKey).nodup_iff]
        exact hdistinct.sublist (List.filter_sublist.map rowKey)
      apply Merging.SortedBy.eq_of_perm rowKey (Merging.sortedBy_stableSort rowKey _)
        (Merging.sortedBy_stableSort rowKey _) hkeysIn
      exact (arrange_perm .keyAscending _).trans
        (hinRange.trans (arrange_perm .keyAscending _).symm)
  · intro key projection hprojection
    refine ⟨_, hstores.get key projection hprojection, ?_⟩
    have hget := hstores'.get key projection (hschema ▸ hprojection)
    have hsorted : ∀ rows : List Row,
        Merging.SortedBy rowKey (rows.filter fun row => rowKey row == key) := by
      intro rows
      apply List.pairwise_of_forall_mem_list
      intro a ha b hb
      have hak : rowKey a = key := by simpa using (List.mem_filter.mp ha).2
      have hbk : rowKey b = key := by simpa using (List.mem_filter.mp hb).2
      rw [hak, hbk]
    rw [Merging.SortedBy.eq_of_perm rowKey (hsorted _) (hsorted _)
      (hdistinct.sublist (List.filter_sublist.map rowKey)) (hperm.filter _)]
    exact hget

theorem background_work_is_invisible_pairs : ∃ s, TwoTables s [pairRow (3, 30)] ∧
    SameReads threePairs.tree s.tree := by
  obtain ⟨s, -, hrun, hflushed, -, -⟩ := exists_reopenedPairs
  exact ⟨s, hflushed, background_work_is_invisible starts_freezingPairs
    run_threePairs.life.history hrun (hflushed.inserted.trans inserted_threePairs.symm)
    keys_threePairs⟩

end Htap.Properties
