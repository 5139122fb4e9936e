import Htap.Executor.PairTable
import Htap.Properties.SameAnswers

/-!
The answer of a SELECT does not depend on where the rows are. Tables with other memtable
thresholds, block sizes and levels, with other histories of insertions, flushes, compactions
and crashes, answer alike as long as they hold the same rows.
-/

namespace Htap.Properties

open Storage SSTable Read Cursor Words Executor Htap.Tree Htap.Tree.Session Htap.Parser

variable {tables tables' : Bytes → Option LSMTree} {start s start' s' : Session}
  {source : SelectStatement} {statement : BoundSelectStatement} {fuel : Nat} {rows rows' : List Row}

/-- Both tables fail for the same reason or return the same. The schemas and the rows are all
that has to agree; `Determined` asks that no expression fails on a row and that the rows
determine the result, whatever order they come in. -/
theorem answers_do_not_see_layout (std : StdSort Exception)
    (h : Reached tables source.tableName start s) (h' : Reached tables' source.tableName start' s')
    (hschema : s'.tree.schema = s.tree.schema) (hrows : RowsOf s rows) (hrows' : RowsOf s' rows')
    (hperm : rows.Perm rows') (hbind : bindSelect (lsmStorageEngine tables) source = .ok statement)
    (hliterals : (buildDataSkippingFilter statement).Ordered)
    (hdetermined : Determined s.tree.schema statement rows) (hfuel : rows.length ≤ fuel) :
    bindSelect (lsmStorageEngine tables') source = .ok statement ∧
      SameOutcome statement (executeSelect std (lsmStorageEngine tables) fuel statement)
        (executeSelect std (lsmStorageEngine tables') fuel statement) := by
  obtain ⟨hbound, hname⟩ := h.bound hbind
  have hnumbers : Numbers rows := h.numbers.sub hrows.inserted.subset
  have hserves := h.skipsRows hbind hrows
  have hserves' := skipsRows_lsm hrows'.stores (h'.numbers.sub hrows'.inserted.subset) h'.table
  rw [← hname] at hserves'
  rw [hschema] at hserves'
  obtain ⟨hkeyed, -⟩ := h.exists_rows
  constructor
  · rw [h'.bindSelect_eq, hschema, ← h.bindSelect_eq]
    exact hbind
  · exact sameOutcome_of_skipsRows std hserves hserves' hbound hkeyed hliterals hrows.stores.valid
      hnumbers hrows.keys hperm hdetermined hfuel

/-! ## A table of two pairs, frozen and not -/

private def restingPairs : StorageConfig := { rootPath := [47, 100], memtableThreshold := 8 }

/-- The two pairs the other way round, in the active memtable. -/
private def swappedPairs : Session := pairSession restingPairs [(1, 10), (2, 20)]

private theorem reached_swappedPairs : Reached (onlyTable pairTable swappedPairs) pairTable
    (newPairs restingPairs) swappedPairs :=
  reached_pairs rfl (by decide) (by norm_num)

private theorem determined_selectGroups (pairs : List (Int64 × Int64)) :
    Determined pairSchema boundSelectGroups (pairs.map pairRow) := by
  apply Determined.grouped (List.cons_ne_nil _ _)
  · intro row hrow
    obtain ⟨pair, -, rfl⟩ := List.mem_map.mp hrow
    apply goodRow_pairRow
    simp [BoundSelectStatement.expressions, boundSelectGroups, BoundSelectItem.argument]
  · intro kind e resultType hitem hkind
    rcases hkind with rfl | rfl <;> simp [boundSelectGroups] at hitem
  · constructor
    · intro r _ s _ item hitem
      cases hitem
    · intro e resultType hitem
      simp [boundSelectGroups] at hitem

theorem answers_do_not_see_layout_pairs : ∃ rows rows', RowsOf twoPairs rows ∧
    RowsOf swappedPairs rows' ∧
    SameOutcome boundSelectGroups
      (executeSelect (.insertion Exception) (lsmStorageEngine (onlyTable pairTable twoPairs)) 2
        boundSelectGroups)
      (executeSelect (.insertion Exception) (lsmStorageEngine (onlyTable pairTable swappedPairs)) 2
        boundSelectGroups) := by
  obtain ⟨rows, hrows, hpairs⟩ := @exists_rowsOf_pairs freezingPairs [(2, 20), (1, 10)] rfl
    (by decide) (by norm_num)
  obtain ⟨rows', hrows', hpairs'⟩ := @exists_rowsOf_pairs restingPairs [(1, 10), (2, 20)] rfl
    (by decide) (by norm_num)
  have hswapped : ([(2, 20), (1, 10)].map pairRow).Perm ([(1, 10), (2, 20)].map pairRow) :=
    List.Perm.swap _ _ _
  have hreached : Reached _ selectGroups.tableName _ twoPairs := reached_twoPairs
  have hbind : bindSelect (lsmStorageEngine (onlyTable pairTable twoPairs)) selectGroups =
      .ok boundSelectGroups := by
    rw [hreached.bindSelect_eq]
    rfl
  have hliterals : (buildDataSkippingFilter boundSelectGroups).Ordered := by
    intro predicate hpredicate
    cases hpredicate
  have hschema : swappedPairs.tree.schema = twoPairs.tree.schema := rfl
  refine ⟨rows, rows', hrows, hrows', ?_⟩
  exact (answers_do_not_see_layout (.insertion Exception) hreached reached_swappedPairs hschema
    hrows hrows' (hpairs.trans (hswapped.trans hpairs'.symm)) hbind hliterals
    ((determined_selectGroups _).perm hpairs.symm) hpairs.length_eq.le).2

end Htap.Properties
