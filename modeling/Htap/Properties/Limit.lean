import Htap.Executor.MockEngine
import Htap.Executor.PlainSelect

/-!
LIMIT keeps the first rows. The scan of a plain SELECT without ORDER BY, or in
key order, ends at the limit, and that test comes after a row was pushed: under
LIMIT 0 such a SELECT still returns its first row.
-/

namespace Htap.Properties

open Storage Htap.Parser SSTable Read Cursor Executor

variable {α : Type} [ICursor α]

/-- The SELECT whose scan loop tests the limit. -/
def stopsEarly (statement : BoundSelectStatement) : Bool :=
  !hasAggregateSelectItems statement && statement.groupByItems.isEmpty &&
    (statement.orderByItems.isEmpty || isRequiredKeyAsc statement)

theorem truncateRows_none (rows : List ResultRow) : truncateRows none rows = rows := rfl

theorem truncateRows_some (n : Nat) (rows : List ResultRow) :
    truncateRows (some n) rows = rows.take n := by
  rw [truncateRows]
  split
  · rfl
  · rename_i h
    exact (List.take_of_length_le (not_lt.mp h)).symm

/-! ## Stopping at the limit -/

section Loop

variable {statement : BoundSelectStatement} {requiresKeyAsc : Bool}

/-- One row at most is pushed in a round, and without a limit no round breaks. -/
private theorem plainBody_pushes
    (hdirect : (statement.orderByItems.isEmpty || requiresKeyAsc) = true) (early : Bool)
    {value : Nat → Result NullableValue} {s s' : PlainState} {stop : Bool}
    (h : plainBody { statement with limit := none } requiresKeyAsc early value s =
      .ok (s', stop)) :
    stop = false ∧
      ((s' = s ∧ ∀ limit early', plainBody { statement with limit := limit } requiresKeyAsc early'
          value s = .ok (s, false)) ∨
        ∃ row, s' = { s with rows := s.rows ++ [row] } ∧ ∀ n,
          plainBody { statement with limit := some n } requiresKeyAsc true value s =
            .ok (s', decide (n ≤ s.rows.length + 1))) := by
  obtain ⟨passes, hpasses, h⟩ := Result.bind_eq_ok.mp h
  have hpasses' : ∀ limit, passesWhere { statement with limit := limit } value = .ok passes :=
    fun _ => hpasses
  cases passes with
  | false =>
    cases h
    refine ⟨rfl, Or.inl ⟨rfl, fun limit early' => ?_⟩⟩
    simp [plainBody, hpasses']
  | true =>
    simp only [Bool.not_true, Bool.false_eq_true, if_false, hdirect, if_true] at h
    obtain ⟨row, hrow, h⟩ := Result.bind_eq_ok.mp h
    simp only [Result.pure_eq, Option.any_none, Bool.and_false, Except.ok.injEq,
      Prod.mk.injEq] at h
    obtain ⟨rfl, rfl⟩ := h
    refine ⟨rfl, Or.inr ⟨row, rfl, fun n => ?_⟩⟩
    simp [plainBody, hpasses', hrow, hdirect]

/-- The loop under LIMIT `n` ends with the first rows of the loop without a limit:
`n` of them, or one if `n` is 0. -/
private theorem whileValid_limit
    (hdirect : (statement.orderByItems.isEmpty || requiresKeyAsc) = true) (early : Bool)
    {fuel : Nat} {c : α} {w : World} {final : PlainState}
    (h : whileValid (plainBody { statement with limit := none } requiresKeyAsc early) fuel c w {} =
      .ok final) (n : Nat) :
    ∃ t, whileValid (plainBody { statement with limit := some n } requiresKeyAsc true) fuel c w {} =
      .ok t ∧ t.rows = final.rows.take (max n 1) := by
  have hlater : ∀ (t : PlainState) value s s' stop, t.rows <+: s.rows →
      plainBody { statement with limit := none } requiresKeyAsc early value s = .ok (s', stop) →
      t.rows <+: s'.rows := by
    intro t value s s' stop hprefix hs'
    obtain ⟨-, ⟨rfl, -⟩ | ⟨row, rfl, -⟩⟩ := plainBody_pushes hdirect early hs'
    · exact hprefix
    · exact hprefix.trans (List.prefix_append s.rows [row])
  have hstep : ∀ value (s s' : PlainState) stop, s.rows.length < max n 1 →
      plainBody { statement with limit := none } requiresKeyAsc early value s = .ok (s', stop) →
      stop = false ∧
        ((plainBody { statement with limit := some n } requiresKeyAsc true value s =
            .ok (s', false) ∧ s'.rows.length < max n 1) ∨
          (plainBody { statement with limit := some n } requiresKeyAsc true value s =
            .ok (s', true) ∧ s'.rows.length = max n 1)) := by
    intro value s s' stop hgoing hs'
    obtain ⟨hstop, ⟨rfl, hsame⟩ | ⟨row, rfl, hpush⟩⟩ := plainBody_pushes hdirect early hs'
    · exact ⟨hstop, Or.inl ⟨hsame (some n) true, hgoing⟩⟩
    · refine ⟨hstop, ?_⟩
      simp only [List.length_append, List.length_singleton]
      by_cases hn : n ≤ s.rows.length + 1
      · exact Or.inr ⟨by rw [hpush n, decide_eq_true hn], by omega⟩
      · exact Or.inl ⟨by rw [hpush n, decide_eq_false hn], by omega⟩
  have hfresh : ({} : PlainState).rows.length < max n 1 := by simp
  have hrun := whileValid_break (fun s => List.prefix_refl (PlainState.rows s)) hlater hstep
    hfresh h
  obtain ⟨t, ht, ⟨rfl, hgoing⟩ | ⟨hdone, hlater⟩⟩ := hrun
  · exact ⟨t, ht, (List.take_of_length_le hgoing.le).symm⟩
  · refine ⟨t, ht, ?_⟩
    rw [← hdone]
    exact List.prefix_iff_eq_take.mp hlater

end Loop

/-! ## The three kinds of SELECT -/

section Kinds

variable {std : StdSort Exception} {engine : IStorageEngine α} {fuel : Nat}
  {statement : BoundSelectStatement} {names : List Bytes} {projection : List Nat}
  {result : SelectResult}

theorem finishPlain_direct {requiresKeyAsc : Bool}
    (hdirect : (statement.orderByItems.isEmpty || requiresKeyAsc) = true) (early : Bool)
    (state : PlainState) :
    finishPlain std statement requiresKeyAsc early state =
      .ok (if early then state.rows else truncateRows statement.limit state.rows) := by
  have hunsorted : (!statement.orderByItems.isEmpty && !requiresKeyAsc) = false := by
    rw [← Bool.not_or, hdirect]
    rfl
  simp only [finishPlain, plainRows, hunsorted, Bool.false_eq_true, if_false, Result.pure_eq,
    Result.ok_bind]

private theorem finishPlain_limit {requiresKeyAsc : Bool}
    (hsort : (statement.orderByItems.isEmpty || requiresKeyAsc) = false) {state : PlainState}
    {rows : List ResultRow}
    (h : finishPlain std { statement with limit := none } requiresKeyAsc false state = .ok rows)
    (n : Nat) :
    finishPlain std { statement with limit := some n } requiresKeyAsc false state =
      .ok (rows.take n) := by
  have hsorted : (!statement.orderByItems.isEmpty && !requiresKeyAsc) = true := by
    rw [← Bool.not_or, hsort]
    rfl
  have hsame : sortRows std { statement with limit := some n } =
      sortRows std { statement with limit := none } := rfl
  unfold finishPlain plainRows at h ⊢
  simp only [hsorted, if_true, hsame] at h ⊢
  obtain ⟨unsorted, hunsorted, h⟩ := Result.bind_eq_ok.mp h
  cases h
  rw [hunsorted, Result.ok_bind]
  simp only [Bool.false_eq_true, if_false, truncateRows_some, truncateRows_none,
    Result.pure_eq]

theorem executePlainSelect_limit
    (h : executePlainSelect std engine fuel { statement with limit := none } names projection
      false = .ok result) (n : Nat) :
    executePlainSelect std engine fuel { statement with limit := some n } names projection
        statement.orderByItems.isEmpty =
      .ok ⟨result.columnNames, result.rows.take
        (if statement.orderByItems.isEmpty || isRequiredKeyAsc statement then max n 1 else n)⟩ := by
  obtain ⟨built, hbuilt, hafter⟩ := Result.bind_eq_ok.mp h
  have hkey : ∀ limit, isRequiredKeyAsc { statement with limit := limit } =
    isRequiredKeyAsc statement := fun _ => rfl
  have hbuilt' : buildCursorForSelect engine { statement with limit := some n } projection
      (isRequiredKeyAsc { statement with limit := some n }) = .ok built := hbuilt
  unfold executePlainSelect
  simp only [hbuilt', Result.ok_bind]
  cases built with
  | none =>
    cases hafter
    simp
  | some cursor =>
    obtain ⟨c, w⟩ := cursor
    obtain ⟨final, hfinal, hafter⟩ := Result.bind_eq_ok.mp hafter
    obtain ⟨rows, hrows, hafter⟩ := Result.bind_eq_ok.mp hafter
    cases hafter
    simp only [hkey] at hfinal hrows ⊢
    cases hdirect : (statement.orderByItems.isEmpty || isRequiredKeyAsc statement) with
    | true =>
      -- the scan loop itself stops at the limit
      have hearly : (if isRequiredKeyAsc statement = true then isRequiredKeyAsc statement
          else statement.orderByItems.isEmpty) = true := by
        cases hasc : isRequiredKeyAsc statement with
        | true => rfl
        | false => simpa [hasc] using hdirect
      rw [@finishPlain_direct _ { statement with limit := none } _ hdirect] at hrows
      have hall : rows = final.rows := by
        rw [Except.ok.injEq] at hrows
        rw [← hrows]
        split <;> rfl
      obtain ⟨t, ht, htake⟩ := whileValid_limit hdirect _ hfinal n
      simp only [hearly, ht, Result.ok_bind, htake, hall, if_true,
        @finishPlain_direct _ { statement with limit := some n } _ hdirect,
        Result.pure_eq]
    | false =>
      -- rows are collected, sorted and cut afterwards
      obtain ⟨hempty, hasc⟩ := Bool.or_eq_false_iff.mp hdirect
      simp only [hasc, Bool.false_eq_true, if_false] at hfinal hrows ⊢
      have hloop : whileValid (plainBody { statement with limit := some n } false false) fuel c w
          {} = .ok final := hfinal
      have hrows' := finishPlain_limit (by rw [hempty]; rfl) hrows n
      simp only [hempty, hloop, Result.ok_bind, hrows', Result.pure_eq]

theorem executeGlobalAggregateSelect_limit
    (h : executeGlobalAggregateSelect engine fuel { statement with limit := none } names
      projection = .ok result) (n : Nat) :
    executeGlobalAggregateSelect engine fuel { statement with limit := some n } names projection =
      .ok ⟨result.columnNames, result.rows.take n⟩ := by
  obtain ⟨aggregates, haggregates, h⟩ := Result.bind_eq_ok.mp h
  obtain ⟨built, hbuilt, h⟩ := Result.bind_eq_ok.mp h
  obtain ⟨states, hstates, h⟩ := Result.bind_eq_ok.mp h
  obtain ⟨row, hrow, h⟩ := Result.bind_eq_ok.mp h
  cases h
  have hbuilt' : buildCursorForSelect engine { statement with limit := some n } projection false =
      .ok built := hbuilt
  have hstates' : overCursor (globalBody { statement with limit := some n } aggregates) fuel
      (aggregates.map fun _ => {}) built = .ok states := hstates
  unfold executeGlobalAggregateSelect
  simp only [haggregates, hbuilt', Result.ok_bind, hstates', hrow, Result.pure_eq]
  cases n with
  | zero => simp
  | succ n => simp

theorem executeGroupedAggregateSelect_limit
    (h : executeGroupedAggregateSelect std engine fuel { statement with limit := none } names
      projection = .ok result) (n : Nat) :
    executeGroupedAggregateSelect std engine fuel { statement with limit := some n } names
      projection = .ok ⟨result.columnNames, result.rows.take n⟩ := by
  obtain ⟨built, hbuilt, h⟩ := Result.bind_eq_ok.mp h
  obtain ⟨groups, hgroups, h⟩ := Result.bind_eq_ok.mp h
  obtain ⟨rows, hrows, h⟩ := Result.bind_eq_ok.mp h
  obtain ⟨sorted, hsorted, h⟩ := Result.bind_eq_ok.mp h
  cases h
  have hbuilt' : buildCursorForSelect engine { statement with limit := some n } projection false =
      .ok built := hbuilt
  have hgroups' : overCursor (groupBody { statement with limit := some n }) fuel [] built =
      .ok groups := hgroups
  have hrows' : (groups.mapM fun entry => groupRow { statement with limit := some n } entry.2) =
      .ok rows := hrows
  have hsorted' : orderGroups std { statement with limit := some n } rows = .ok sorted := hsorted
  unfold executeGroupedAggregateSelect
  simp only [hbuilt', Result.ok_bind, hgroups', hrows', hsorted', truncateRows_some,
    truncateRows_none, Result.pure_eq]

/-- Whatever the kind of SELECT, LIMIT `n` keeps the first `n` rows, or the first
row when `n` is 0 and the scan tests the limit. -/
theorem executeSelect_limit
    (h : executeSelect std engine fuel { statement with limit := none } = .ok result) (n : Nat) :
    executeSelect std engine fuel { statement with limit := some n } =
      .ok ⟨result.columnNames,
        result.rows.take (if stopsEarly statement then max n 1 else n)⟩ := by
  obtain ⟨names, hnames, h⟩ := Result.bind_eq_ok.mp h
  have hnames' : buildSelectColumnNames { statement with limit := some n } = .ok names := hnames
  have haggregates : ∀ limit, hasAggregateSelectItems { statement with limit := limit } =
    hasAggregateSelectItems statement := fun _ => rfl
  unfold executeSelect
  simp only [hnames', Result.ok_bind, haggregates, canApplyEarlyLimit, Option.isSome_none,
    Option.isSome_some, Bool.false_and, Bool.true_and] at h ⊢
  rcases Bool.eq_false_or_eq_true (hasAggregateSelectItems statement) with hagg | hagg <;>
    rcases Bool.eq_false_or_eq_true statement.groupByItems.isEmpty with hgroup | hgroup <;>
      simp only [stopsEarly, hagg, hgroup, Bool.not_true, Bool.not_false, Bool.and_true,
        Bool.and_false, Bool.true_and, Bool.false_and, Bool.false_eq_true, if_true, if_false]
        at h ⊢
  · exact executeGlobalAggregateSelect_limit h n
  · exact executeGroupedAggregateSelect_limit h n
  · exact executePlainSelect_limit h n
  · exact executeGroupedAggregateSelect_limit h n

end Kinds

/-! ## When the limit keeps the first rows -/

/-- A SELECT that stops early and returns no row has no row that passes WHERE. -/
private theorem rows_eq_nil_iff {std : StdSort Exception} {engine : IStorageEngine α} {fuel : Nat}
    {schema : Schema} {statement : BoundSelectStatement} {rows : List Row} {result : SelectResult}
    (hschema : schema.WellFormed) (hbound : Bound schema statement)
    (hserves : ServesTable engine statement.tableName schema rows)
    (hrows : ∀ row ∈ rows, ValidRow schema row) (hearly : stopsEarly statement = true)
    (hlimit : statement.limit = none)
    (h : executeSelect std engine fuel statement = .ok result) :
    result.rows = [] ↔ ∀ row ∈ rows, holds statement row = false := by
  obtain ⟨hkind, hdirect⟩ := Bool.and_eq_true_iff.mp hearly
  obtain ⟨hagg, hgroup⟩ := Bool.and_eq_true_iff.mp hkind
  obtain ⟨names, -, h⟩ := Result.bind_eq_ok.mp h
  simp only [hagg, hgroup, Bool.not_true, Bool.not_false, Bool.and_true, if_true] at h
  obtain ⟨found, hrun, -, -, hresult⟩ := of_executePlainSelect hbound hserves hlimit h
  rw [hresult hdirect, List.map_eq_nil_iff]
  have hperm := hrun.passing_perm (hbound.schema_eq ▸ hschema) (hbound.schema_eq ▸ hrows)
  constructor
  · intro hnil
    rw [hnil] at hperm
    simpa [passing] using List.nil_perm.mp hperm
  · intro hnone
    have hnil : passing statement rows = [] := by simpa [passing] using hnone
    rw [hnil] at hperm
    exact List.perm_nil.mp hperm

/-- `LIMIT n` returns the first `n` rows, except that a SELECT whose scan loop tests the
limit returns one row under `LIMIT 0` when there is one. It is compared with the same SELECT
without LIMIT, which has to return: with a limit fewer rows are read, so fewer can fail. -/
theorem limit_keeps_first_rows_iff {std : StdSort Exception} {engine : IStorageEngine α}
    {fuel : Nat} {schema : Schema} {source : SelectStatement} {statement : BoundSelectStatement}
    {rows : List Row} {result : SelectResult} (hschema : schema.FromBuilder)
    (hbind : bindSelectOver schema source = .ok statement)
    (hserves : ServesTable engine statement.tableName schema rows)
    (hrows : ∀ row ∈ rows, ValidRow schema row)
    (h : executeSelect std engine fuel { statement with limit := none } = .ok result) (n : Nat) :
    executeSelect std engine fuel { statement with limit := some n } =
        .ok ⟨result.columnNames, result.rows.take n⟩ ↔
      n ≠ 0 ∨ stopsEarly statement = false ∨ ∀ row ∈ rows, holds statement row = false := by
  rw [executeSelect_limit h n, Except.ok.injEq, SelectResult.mk.injEq]
  have hbound := (bound_bindSelectOver hbind).withLimit none
  cases hearly : stopsEarly statement with
  | false => simp
  | true =>
    cases n with
    | succ n => simp
    | zero =>
      have hnil := rows_eq_nil_iff hschema.wellFormed hbound hserves hrows
        (show stopsEarly { statement with limit := none } = true from hearly) rfl h
      have htake : result.rows.take 1 = [] ↔ result.rows = [] := by
        rw [List.take_eq_nil_iff]
        simp
      have hlimit : ∀ row, holds { statement with limit := none } row = holds statement row :=
        fun _ => rfl
      simp only [hlimit] at hnil
      simpa [htake] using hnil

/-- `SELECT id FROM t`. -/
def selectId : SelectStatement where
  tableName := pairTable
  selectItems := [.expression (.column [105, 100])]

def boundSelectId : BoundSelectStatement where
  tableName := pairTable
  schema := pairSchema
  selectItems := [.expression (.column 0 .int64)]

theorem bindSelectOver_selectId : bindSelectOver pairSchema selectId = .ok boundSelectId := rfl

theorem validRow_of_mem_pairs {pairs : List (Int64 × Int64)} :
    ∀ row ∈ pairs.map pairRow, ValidRow pairSchema row := by
  intro row hrow
  obtain ⟨pair, -, rfl⟩ := List.mem_map.mp hrow
  exact validRow_pairRow pair

theorem limit_keeps_first_rows_of_two :
    executeSelect (StdSort.insertion Exception) (pairEngine [(1, 10), (2, 20)]) 2
        { boundSelectId with limit := some 1 } =
      .ok ⟨[[105, 100]], [[some (.int64 1)], [some (.int64 2)]].take 1⟩ := by
  have hrun : executeSelect (StdSort.insertion Exception) (pairEngine [(1, 10), (2, 20)]) 2
      { boundSelectId with limit := none } =
      .ok ⟨[[105, 100]], [[some (.int64 1)], [some (.int64 2)]]⟩ := by decide +kernel
  have hserves : ServesTable (pairEngine [(1, 10), (2, 20)]) boundSelectId.tableName pairSchema
      ([(1, 10), (2, 20)].map pairRow) :=
    servesTable_pairEngine (by decide +kernel) (by decide +kernel)
  have hiff := limit_keeps_first_rows_iff pairSchema_fromBuilder bindSelectOver_selectId hserves
    validRow_of_mem_pairs hrun 1
  exact hiff.mpr (Or.inl Nat.one_ne_zero)

/-- `SELECT id FROM t LIMIT 0` returns the row of a table that has one. -/
theorem limit_zero_returns_a_row :
    bindSelectOver pairSchema selectId = .ok boundSelectId ∧
      executeSelect (StdSort.insertion Exception) (pairEngine [(1, 10)]) 1
        { boundSelectId with limit := none } = .ok ⟨[[105, 100]], [[some (.int64 1)]]⟩ ∧
      executeSelect (StdSort.insertion Exception) (pairEngine [(1, 10)]) 1
          { boundSelectId with limit := some 0 } ≠
        .ok ⟨[[105, 100]], [[some (.int64 1)]].take 0⟩ := by
  decide +kernel

end Htap.Properties
