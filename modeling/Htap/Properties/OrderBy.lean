import Htap.Executor.MockEngine
import Htap.Executor.PlainSelect
import Htap.Properties.Limit

/-!
ORDER BY returns the rows of the same SELECT without it, sorted. Rows are
collected and sorted by the comparator, or, when the first item is the key
column ascending, taken in the order of the cursor: keys are unique, so no
later item has a say.
-/

namespace Htap.Properties

open Storage Htap.Parser SSTable Read Cursor Executor

variable {α : Type} [ICursor α] {std : StdSort Exception} {engine : IStorageEngine α}
  {fuel : Nat} {schema : Schema} {statement : BoundSelectStatement} {rows : List Row}

theorem Bound.withoutOrder (h : Bound schema statement) :
    Bound schema { statement with orderByItems := [] } where
  schema_eq := h.schema_eq
  items := h.items
  whereTyped := h.whereTyped
  groupBy := h.groupBy
  orderBy := by
    intro item hitem
    cases hitem
  validated := h.validated

/-- On rows with increasing keys, an order that starts with the key ascending has
nothing left to decide. -/
private theorem rowOrder_of_key (hasc : isRequiredKeyAsc statement = true) {r s : Row}
    (hr : ValidRow schema r) (hs : ValidRow schema s) (hro : Orderable statement r)
    (hso : Orderable statement s) (hlt : rowKey r < rowKey s) :
    rowOrder statement r ≤ rowOrder statement s := by
  unfold isRequiredKeyAsc at hasc
  split at hasc
  · rename_i i valueType items heq
    obtain rfl : i = 0 := beq_iff_eq.mp hasc
    have hfirst : ∀ {row : Row}, ValidRow schema row → Orderable statement row →
        ∃ rest, sortValues statement row = some (.int64 (rowKey row)) :: rest := by
      intro row hrow horder
      have hall := horder.forall₂
      rw [heq] at hall
      cases hvalues : sortValues statement row with
      | nil =>
        rw [hvalues] at hall
        cases hall
      | cons v rest =>
        rw [hvalues] at hall
        have hv := (List.forall₂_cons.mp hall).1
        obtain ⟨tail, htail⟩ := hrow.head
        have hcell : cell row 0 = some (.int64 (rowKey row)) := by
          rw [htail]
          rfl
        simp only [evaluateExpression, rowValue, Result.ok_bind, hcell, Result.pure_eq,
          Except.ok.injEq] at hv
        exact ⟨rest, by rw [← hv]; rfl⟩
    obtain ⟨xs, hx⟩ := hfirst hr hro
    obtain ⟨ys, hy⟩ := hfirst hs hso
    apply le_of_lt
    rw [rowOrder, rowOrder, directions, heq, hx, hy]
    simp only [List.map_cons, orderKey, List.zipWith_cons_cons, directed]
    apply List.cons_lt_cons_iff.mpr
    refine Or.inl (Sum.Lex.inl_lt_inl_iff.mpr ?_)
    simp only [rank, Prod.Lex.toLex_lt_toLex, lt_irrefl, true_and, false_or, and_false, or_false]
    exact Int64.lt_iff_toInt_lt.mp hlt
  · cases hasc

private theorem rowKey_pairwise {found reached : List Row} (hkeys : rows.Pairwise fun r s =>
    rowKey r ≠ rowKey s) (hreached : reached.Sublist rows) (hperm : found.Perm reached)
    (hsorted : SortedRows found) : found.Pairwise fun r s => rowKey r < rowKey s := by
  have hdistinct : found.Pairwise fun r s => rowKey r ≠ rowKey s :=
    (hperm.pairwise_iff fun h => Ne.symm h).mpr (hkeys.sublist hreached)
  exact (hsorted.and hdistinct).imp fun h => lt_of_le_of_ne h.1 h.2

/-- The result of a plain SELECT with ORDER BY: the rows that pass WHERE, in the
order of the items, NULL last when ascending and first when descending. The items have
to evaluate on those rows alone, and the same SELECT without ORDER BY has to return;
unique keys matter only where the cursor's order stands in for the sort. -/
theorem order_by_sorts {source : SelectStatement} {unordered : SelectResult}
    (hschema : schema.FromBuilder) (hbind : bindSelectOver schema source = .ok statement)
    (hplain : hasAggregateSelectItems statement = false ∧ statement.groupByItems = [])
    (hitems : statement.orderByItems ≠ []) (hlimit : statement.limit = none)
    (hserves : ServesTable engine statement.tableName schema rows)
    (hrows : ∀ row ∈ rows, ValidRow schema row) (hnan : ∀ row ∈ rows, NoNaN row)
    (hkeys : rows.Pairwise fun r s => rowKey r ≠ rowKey s)
    (hunordered : executeSelect std engine fuel { statement with orderByItems := [] } =
      .ok unordered)
    (hevaluates : ∀ row ∈ passing statement rows, Orderable statement row) :
    ∃ (result : SelectResult) (ordered : List Row),
      executeSelect std engine fuel statement = .ok result ∧
      result.columnNames = unordered.columnNames ∧ result.rows.Perm unordered.rows ∧
      ordered.Perm (passing statement rows) ∧ result.rows = ordered.map (output statement) ∧
      ordered.Pairwise fun r s => rowOrder statement r ≤ rowOrder statement s := by
  have hbound := bound_bindSelectOver hbind
  obtain ⟨hagg, hgroup⟩ := hplain
  have hwell : statement.schema.WellFormed := hbound.schema_eq ▸ hschema.wellFormed
  have hvalid : ∀ row ∈ rows, ValidRow statement.schema row := hbound.schema_eq ▸ hrows
  -- The run without ORDER BY shows which rows are read and that each has an output.
  rw [@executeSelect_plain _ _ _ _ _ { statement with orderByItems := [] } hagg hgroup]
    at hunordered
  obtain ⟨names, hnames, hrun⟩ := Result.bind_eq_ok.mp hunordered
  obtain ⟨found, hfound, hcolumns, hfuel, hresult⟩ :=
    of_executePlainSelect (Bound.withoutOrder hbound) hserves hlimit hrun
  have hunorderedRows : unordered.rows = (passing statement found).map (output statement) :=
    hresult rfl
  obtain ⟨plan, hplan, hperm⟩ := hfound.reached
  have hpassing : (passing statement found).Perm (passing statement rows) :=
    hfound.passing_perm hwell hvalid
  have houtputs : ∀ row ∈ rows, plan.access.reaches (rowKey row) = true →
      Outputs statement row := by
    intro row hrow hreach
    have hout := hfound.outputs row (hperm.mem_iff.mpr (List.mem_filter.mpr ⟨hrow, hreach⟩))
    exact ⟨hout.passes, hout.items⟩
  have hlength : (rows.filter fun r => plan.access.reaches (rowKey r)).length ≤ fuel :=
    hperm.length_eq ▸ hfuel
  have hnames' : buildSelectColumnNames statement = .ok names := hnames
  rw [executeSelect_plain hagg hgroup]
  simp only [hnames', Result.ok_bind]
  cases hdirect : statement.orderByItems.isEmpty || isRequiredKeyAsc statement with
  | true =>
    -- The cursor is in key order, and no two rows share a key.
    have hasc : isRequiredKeyAsc statement = true := by
      have hne : statement.orderByItems.isEmpty = false := by
        rw [List.isEmpty_eq_false_iff]
        exact hitems
      rwa [hne, Bool.false_or] at hdirect
    obtain ⟨read, hread, hexecute⟩ := @executePlainSelect_direct _ _ std _ _ _ _ _ names hbound
      hserves hlimit _ hplan houtputs hlength hdirect (canApplyEarlyLimit statement)
    have hreadPerm : (passing statement read).Perm (passing statement rows) :=
      hread.passing_perm hwell hvalid
    refine ⟨_, passing statement read, hexecute, hcolumns.symm, ?_, hreadPerm, rfl, ?_⟩
    · rw [hunorderedRows]
      exact (hreadPerm.trans hpassing.symm).map (output statement)
    · obtain ⟨plan', -, hreached⟩ := hread.reached
      have hstrict := rowKey_pairwise hkeys List.filter_sublist hreached (hread.sorted hasc)
      have hpassed : (passing statement read).Pairwise fun r s => rowKey r < rowKey s :=
        hstrict.sublist List.filter_sublist
      have hmem : ∀ row ∈ passing statement read, row ∈ passing statement rows :=
        fun row hrow => hreadPerm.mem_iff.mp hrow
      have hrow : ∀ row ∈ passing statement rows, ValidRow schema row :=
        fun row h => hrows row (List.mem_filter.mp h).1
      apply hpassed.imp_of_mem
      intro r s hr hs hlt
      exact rowOrder_of_key hasc (hrow r (hmem r hr)) (hrow s (hmem s hs))
        (hevaluates r (hmem r hr)) (hevaluates s (hmem s hs)) hlt
  | false =>
    have hearly : canApplyEarlyLimit statement = false := by
      simp [canApplyEarlyLimit, hlimit]
    rw [hearly]
    obtain ⟨read, ordered, hread, hordered, hsorted, hexecute⟩ :=
      @executePlainSelect_sorting _ _ std _ _ _ _ _ names hbound hserves hrows hnan hlimit
        _ hplan houtputs hlength hdirect hevaluates
    have hreadPerm : (passing statement read).Perm (passing statement rows) :=
      hread.passing_perm hwell hvalid
    have horderedPerm := hordered.trans hreadPerm
    refine ⟨_, ordered, hexecute, hcolumns.symm, ?_, horderedPerm, rfl, hsorted⟩
    rw [hunorderedRows]
    exact (horderedPerm.trans hpassing.symm).map (output statement)

/-- `SELECT id FROM t ORDER BY v DESC`. -/
def selectIdByValue : SelectStatement :=
  { selectId with orderByItems := [⟨.column [118], .desc⟩] }

def boundSelectIdByValue : BoundSelectStatement :=
  { boundSelectId with orderByItems := [⟨.column 1 .int64, .desc⟩] }

theorem noNaN_pairRow (pair : Int64 × Int64) : NoNaN (pairRow pair) := by
  intro v hv
  rcases List.mem_cons.mp hv with h | h
  · cases h
  · cases List.mem_singleton.mp h

theorem orderable_pairRow (pair : Int64 × Int64) :
    Orderable boundSelectIdByValue (pairRow pair) := by
  rintro item hitem
  obtain rfl := List.mem_singleton.mp hitem
  exact ⟨some (.int64 pair.2), rfl⟩

theorem order_by_sorts_two_rows :
    ∃ (result : SelectResult) (ordered : List Row),
      executeSelect (StdSort.insertion Exception) (pairEngine [(1, 10), (2, 20)]) 2
        boundSelectIdByValue = .ok result ∧
      result.columnNames = [[105, 100]] ∧
      result.rows.Perm [[some (.int64 1)], [some (.int64 2)]] ∧
      ordered.Perm (passing boundSelectIdByValue ([(1, 10), (2, 20)].map pairRow)) ∧
      result.rows = ordered.map (output boundSelectIdByValue) ∧
      ordered.Pairwise fun r s =>
        rowOrder boundSelectIdByValue r ≤ rowOrder boundSelectIdByValue s := by
  have hrun : executeSelect (StdSort.insertion Exception) (pairEngine [(1, 10), (2, 20)]) 2
      { boundSelectIdByValue with orderByItems := [] } =
      .ok ⟨[[105, 100]], [[some (.int64 1)], [some (.int64 2)]]⟩ := by decide +kernel
  have hbind : bindSelectOver pairSchema selectIdByValue = .ok boundSelectIdByValue := rfl
  have hserves : ServesTable (pairEngine [(1, 10), (2, 20)]) boundSelectIdByValue.tableName
      pairSchema ([(1, 10), (2, 20)].map pairRow) :=
    servesTable_pairEngine (by decide +kernel) (by decide +kernel)
  have hkeys : ([(1, 10), (2, 20)].map pairRow).Pairwise fun r s => rowKey r ≠ rowKey s := by
    decide +kernel
  apply order_by_sorts pairSchema_fromBuilder hbind ⟨rfl, rfl⟩ (List.cons_ne_nil _ _) rfl hserves
    validRow_of_mem_pairs _ hkeys hrun
  · rintro row hrow
    obtain ⟨pair, -, rfl⟩ := List.mem_map.mp (List.mem_filter.mp hrow).1
    exact orderable_pairRow pair
  · rintro row hrow
    obtain ⟨pair, -, rfl⟩ := List.mem_map.mp hrow
    exact noNaN_pairRow pair

end Htap.Properties
