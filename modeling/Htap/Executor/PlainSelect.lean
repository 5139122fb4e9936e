import Htap.Executor.RowSemantics

/-!
A plain SELECT over a table: it filters and maps the rows in reach of its plan,
and those that pass WHERE are all in reach.
-/

namespace Htap.Executor

open Storage Htap.Parser SSTable Read Cursor

variable {α : Type} [ICursor α] {std : StdSort Exception} {engine : IStorageEngine α}
  {fuel : Nat} {statement : BoundSelectStatement} {schema : Schema} {rows : List Row}
  {names : List Bytes}

theorem holdsOn_of_holds {row : Row} (h : holds statement row = true) :
    ∀ e ∈ statement.whereExpression, HoldsOn row e := by
  intro e he
  unfold holds passesWhere at h
  rw [Option.mem_def.mp he] at h
  dsimp only [evaluatePredicate] at h
  cases hvalue : evaluateExpression (rowValue row) e with
  | error err =>
    rw [hvalue] at h
    cases h
  | ok value =>
    rw [hvalue] at h
    match value, hvalue, h with
    | some (.bool true), hvalue, _ => exact hvalue

/-- The rows that pass WHERE are the same among the rows in reach of the plan. -/
theorem passing_reached (hschema : statement.schema.WellFormed)
    (hrows : ∀ row ∈ rows, ValidRow statement.schema row) {plan : KeyPlan}
    (hplan : planConjuncts statement.schema {} (conjuncts statement) = .ok plan) :
    passing statement (rows.filter fun r => plan.access.reaches (rowKey r)) =
      passing statement rows := by
  unfold passing
  rw [List.filter_filter]
  apply List.filter_congr
  intro row hrow
  cases hholds : holds statement row with
  | false => rfl
  | true =>
    rw [Bool.true_and]
    exact reaches_of_holdsOn hschema (hrows row hrow) hplan (holdsOn_of_holds hholds)

theorem plainBody_continues (hlimit : statement.limit = none) (requiresKeyAsc early : Bool)
    (value : Nat → Result NullableValue) (s s' : PlainState) (stop : Bool)
    (h : plainBody statement requiresKeyAsc early value s = .ok (s', stop)) : stop = false := by
  obtain ⟨passes, -, h⟩ := Result.bind_eq_ok.mp h
  cases passes with
  | false =>
    cases h
    rfl
  | true =>
    simp only [Bool.not_true, Bool.false_eq_true, if_false] at h
    obtain ⟨row, -, h⟩ := Result.bind_eq_ok.mp h
    split at h
    · simp only [hlimit, Option.any_none, Bool.and_false, Result.pure_eq, Except.ok.injEq,
        Prod.mk.injEq] at h
      exact h.2.symm
    · obtain ⟨keys, -, h⟩ := Result.bind_eq_ok.mp h
      cases h
      rfl

/-- What a plain SELECT without LIMIT needs of the rows it reads to return. -/
structure PlainRun (statement : BoundSelectStatement) (rows : List Row) (found : List Row) :
    Prop where
  reached : ∃ plan, planConjuncts statement.schema {} (conjuncts statement) = .ok plan ∧
    found.Perm (rows.filter fun r => plan.access.reaches (rowKey r))
  sorted : isRequiredKeyAsc statement = true → SortedRows found
  outputs : ∀ row ∈ found, Outputs statement row

theorem PlainRun.passing_perm {found : List Row} (h : PlainRun statement rows found)
    (hschema : statement.schema.WellFormed)
    (hrows : ∀ row ∈ rows, ValidRow statement.schema row) :
    (passing statement found).Perm (passing statement rows) := by
  obtain ⟨plan, hplan, hperm⟩ := h.reached
  rw [← passing_reached hschema hrows hplan]
  exact hperm.filter (holds statement)

omit [ICursor α] in
private theorem plan_of_build {projection : List Nat} {requiresKeyAsc : Bool}
    {built : Option (α × World)}
    (h : buildCursorForSelect engine statement projection requiresKeyAsc = .ok built) :
    ∃ plan, planConjuncts statement.schema {} (conjuncts statement) = .ok plan := by
  obtain ⟨plan, hplan, -⟩ := Result.bind_eq_ok.mp h
  exact ⟨plan, hplan⟩

/-- A plain SELECT without LIMIT that returns has read rows with an output each,
and without sorting its result is their outputs where WHERE is true. -/
theorem of_executePlainSelect (hbound : Bound schema statement)
    (hserves : ServesTable engine statement.tableName schema rows)
    (hlimit : statement.limit = none) {early : Bool} {result : SelectResult}
    (h : executePlainSelect std engine fuel statement names (collectRequiredProjection statement)
      early = .ok result) :
    ∃ found, PlainRun statement rows found ∧ result.columnNames = names ∧ found.length ≤ fuel ∧
      ((statement.orderByItems.isEmpty || isRequiredKeyAsc statement) = true →
        result.rows = (passing statement found).map (output statement)) := by
  have hnever : ∀ b : Bool, (b && statement.limit.isSome) = false := by
    intro b
    rw [hlimit, Option.isSome_none, Bool.and_false]
  obtain ⟨built, hbuilt, hafter⟩ := Result.bind_eq_ok.mp h
  obtain ⟨plan, hplan⟩ := plan_of_build hbuilt
  obtain ⟨built', found, hbuilt', hreads, hperm, hsorted⟩ := hserves.build
    hbound.validateProjection_ok hplan (isRequiredKeyAsc statement)
  rw [hbuilt', Except.ok.injEq] at hbuilt
  subst hbuilt
  cases built' with
  | none =>
    cases hafter
    rw [show found = [] from hreads] at hperm hsorted
    refine ⟨[], ⟨⟨plan, hplan, hperm⟩, hsorted, ?_⟩, rfl, Nat.zero_le _, fun _ => rfl⟩
    intro row hrow
    cases hrow
  | some cursor =>
    obtain ⟨c, w⟩ := cursor
    obtain ⟨final, hfinal, hafter⟩ := Result.bind_eq_ok.mp hafter
    obtain ⟨out, hout, hafter⟩ := Result.bind_eq_ok.mp hafter
    cases hafter
    have hfuel := length_le_fuel (plainBody_continues hlimit _ _) hreads hfinal
    rw [whileValid_eq (readsOnly_plainBody statement _ _) hreads hfuel] at hfinal
    have houtputs := outputs_of_foldRows (hnever _) hfinal
    refine ⟨found, ⟨⟨plan, hplan, hperm⟩, hsorted, houtputs⟩, rfl, hfuel, fun hdirect => ?_⟩
    rw [foldRows_plain hdirect houtputs _ (hnever _), Except.ok.injEq] at hfinal
    subst hfinal
    have hunsorted : (!statement.orderByItems.isEmpty && !isRequiredKeyAsc statement) = false := by
      rw [← Bool.not_or, hdirect]
      rfl
    simp only [finishPlain, plainRows, hunsorted, Bool.false_eq_true, if_false, Result.ok_bind,
      Result.pure_eq, truncateRows, hlimit, List.nil_append, ite_self, Except.ok.injEq] at hout
    exact hout.symm

/-- A plain SELECT is its column names and `ExecutePlainSelect`. -/
theorem executeSelect_plain (hagg : hasAggregateSelectItems statement = false)
    (hgroup : statement.groupByItems = []) :
    executeSelect std engine fuel statement = (do
      let names ← buildSelectColumnNames statement
      executePlainSelect std engine fuel statement names (collectRequiredProjection statement)
        (canApplyEarlyLimit statement)) := by
  simp [executeSelect, hagg, hgroup]

/-- What the scan of a plan reads, when every row in its reach has an output. -/
private theorem plainRun_of_build (hbound : Bound schema statement)
    (hserves : ServesTable engine statement.tableName schema rows) {plan : KeyPlan}
    (hplan : planConjuncts statement.schema {} (conjuncts statement) = .ok plan)
    (houtputs : ∀ row ∈ rows, plan.access.reaches (rowKey row) = true → Outputs statement row) :
    ∃ built found, buildCursorForSelect engine statement (collectRequiredProjection statement)
        (isRequiredKeyAsc statement) = .ok built ∧
      ReadsBuilt (collectRequiredProjection statement) built found ∧
      PlainRun statement rows found := by
  obtain ⟨built, found, hbuilt, hreads, hperm, hsorted⟩ := hserves.build
    hbound.validateProjection_ok hplan (isRequiredKeyAsc statement)
  refine ⟨built, found, hbuilt, hreads, ⟨plan, hplan, hperm⟩, hsorted, ?_⟩
  intro row hrow
  obtain ⟨hmem, hreach⟩ := List.mem_filter.mp (hperm.mem_iff.mp hrow)
  exact houtputs row hmem hreach

/-- A plain SELECT that does not sort, without LIMIT. -/
theorem executePlainSelect_direct (hbound : Bound schema statement)
    (hserves : ServesTable engine statement.tableName schema rows)
    (hlimit : statement.limit = none) {plan : KeyPlan}
    (hplan : planConjuncts statement.schema {} (conjuncts statement) = .ok plan)
    (houtputs : ∀ row ∈ rows, plan.access.reaches (rowKey row) = true → Outputs statement row)
    (hfuel : (rows.filter fun r => plan.access.reaches (rowKey r)).length ≤ fuel)
    (hdirect : (statement.orderByItems.isEmpty || isRequiredKeyAsc statement) = true)
    (early : Bool) :
    ∃ found, PlainRun statement rows found ∧
      executePlainSelect std engine fuel statement names (collectRequiredProjection statement)
        early = .ok ⟨names, (passing statement found).map (output statement)⟩ := by
  obtain ⟨built, found, hbuilt, hreads, hrun⟩ :=
    plainRun_of_build hbound hserves hplan houtputs
  refine ⟨found, hrun, ?_⟩
  have hlength : found.length ≤ fuel := by
    obtain ⟨plan', hplan', hperm⟩ := hrun.reached
    rw [hplan, Except.ok.injEq] at hplan'
    subst hplan'
    rwa [hperm.length_eq]
  have hunsorted : (!statement.orderByItems.isEmpty && !isRequiredKeyAsc statement) = false := by
    rw [← Bool.not_or, hdirect]
    rfl
  unfold executePlainSelect
  simp only [hbuilt, Result.ok_bind]
  cases built with
  | none =>
    rw [show found = [] from hreads]
    rfl
  | some cursor =>
    obtain ⟨c, w⟩ := cursor
    have hnever : ∀ b : Bool, (b && statement.limit.isSome) = false := by
      intro b
      rw [hlimit, Option.isSome_none, Bool.and_false]
    simp only [whileValid_eq (readsOnly_plainBody statement _ _) hreads hlength,
      foldRows_plain hdirect hrun.outputs _ (hnever _), Result.ok_bind, finishPlain, plainRows,
      hunsorted, Bool.false_eq_true, if_false, Result.pure_eq, truncateRows, hlimit,
      List.nil_append, ite_self]

/-! ## Sorting -/

/-- The directions of the ORDER BY items. -/
def directions (statement : BoundSelectStatement) : List OrderDirection :=
  statement.orderByItems.map BoundOrderByItem.direction

/-- The place of a row in the order of the ORDER BY items. -/
def rowOrder (statement : BoundSelectStatement) (row : Row) : List (Rank ⊕ₗ Rankᵒᵈ) :=
  orderKey (directions statement) (sortValues statement row)

/-- Every ORDER BY item evaluates on the row. -/
def Orderable (statement : BoundSelectStatement) (row : Row) : Prop :=
  ∀ item ∈ statement.orderByItems, ∃ v, evaluateExpression (rowValue row) item.expression = .ok v

theorem Orderable.orderByValues {row : Row} (h : Orderable statement row) :
    orderByValues statement (rowValue row) = .ok (sortValues statement row) := by
  have hall : ∀ item ∈ statement.orderByItems, evaluateExpression (rowValue row) item.expression =
      .ok (valueOr none (evaluateExpression (rowValue row) item.expression)) := by
    intro item hitem
    obtain ⟨v, hv⟩ := h item hitem
    exact valueOr_of_ok hv
  exact valueOr_of_ok (Result.mapM_eq_map statement.orderByItems hall)

theorem Orderable.forall₂ {row : Row} (h : Orderable statement row) :
    List.Forall₂ (fun item v => evaluateExpression (rowValue row) item.expression = .ok v)
      statement.orderByItems (sortValues statement row) :=
  Result.mapM_eq_ok.mp h.orderByValues

/-- The sort keys of two rows without NaN compare by rank. -/
theorem comparable_sortValues (hbound : Bound schema statement) {r s : Row}
    (hr : ValidRow schema r) (hs : ValidRow schema s) (hrn : NoNaN r) (hsn : NoNaN s)
    (hro : Orderable statement r) (hso : Orderable statement s) :
    List.Forall₂ Comparable (sortValues statement r) (sortValues statement s) := by
  have hrv := hro.forall₂
  have hsv := hso.forall₂
  have htyped := hbound.orderBy
  generalize sortValues statement r = xs at hrv ⊢
  generalize sortValues statement s = ys at hsv ⊢
  generalize statement.orderByItems = items at hrv hsv htyped
  induction hrv generalizing ys with
  | nil =>
    cases hsv
    exact List.Forall₂.nil
  | @cons item x items xs hx _ ih =>
    cases hsv with
    | @cons _ y _ ys hy hrest =>
      have hitem := htyped item List.mem_cons_self
      exact List.Forall₂.cons (comparable_evaluateExpression hr hs hrn hsn hitem hx hy)
        (ih ys hrest fun i hi => htyped i (List.mem_cons_of_mem item hi))

/-- The comparator on the sort keys of two rows is their order. -/
theorem sortKeysLess_rows (hbound : Bound schema statement) {r s : Row}
    (hr : ValidRow schema r) (hs : ValidRow schema s) (hrn : NoNaN r) (hsn : NoNaN s)
    (hro : Orderable statement r) (hso : Orderable statement s) :
    sortKeysLess (directions statement) (sortValues statement r) (sortValues statement s) =
      .ok (@decide (rowOrder statement r < rowOrder statement s)
        (LinearOrder.toDecidableLT _ _)) := by
  have hlength : (directions statement).length = (sortValues statement r).length := by
    rw [directions, List.length_map, hro.forall₂.length_eq]
  rw [sortKeysLess_eq hlength (comparable_sortValues hbound hr hs hrn hsn hro hso)]
  congr

/-- Sorting rows together with their sort keys is sorting the rows. -/
theorem sortRows_outputs (hbound : Bound schema statement) {found : List Row}
    (hvalid : ∀ row ∈ found, ValidRow schema row) (hnan : ∀ row ∈ found, NoNaN row)
    (horder : ∀ row ∈ found, Orderable statement row) :
    ∃ ordered : List Row, ordered.Perm found ∧
      (ordered.Pairwise fun r s => rowOrder statement r ≤ rowOrder statement s) ∧
      sortRows std statement (found.map fun r => ⟨sortValues statement r, output statement r⟩) =
        .ok (ordered.map fun r => ⟨sortValues statement r, output statement r⟩) := by
  let less (r s : Row) : Result Bool :=
    sortKeysLess (directions statement) (sortValues statement r) (sortValues statement s)
  have hdecides : Decides less (fun r s =>
      @decide (rowOrder statement r < rowOrder statement s) (LinearOrder.toDecidableLT _ _))
      found := by
    intro r hr s hs
    exact sortKeysLess_rows hbound (hvalid r hr) (hvalid s hs) (hnan r hr) (hnan s hs)
      (horder r hr) (horder s hs)
  obtain ⟨ordered, hsort, hperm, hsorted⟩ := std.sorts_key (rowOrder statement) hdecides
  have hrelated : List.Forall₂
      (fun r (x : SortRow) => x = ⟨sortValues statement r, output statement r⟩) found
      (found.map fun r => ⟨sortValues statement r, output statement r⟩) := by
    rw [List.forall₂_map_right_iff, List.forall₂_same]
    exact fun _ _ => rfl
  have hsame : RelatedResults _ (std.sort less found) (sortRows std statement _) :=
    std.parametric (by rintro x _ y _ rfl rfl; rfl) hrelated
  rw [hsort] at hsame
  refine ⟨ordered, hperm, hsorted, ?_⟩
  cases hout : sortRows std statement
      (found.map fun r => ⟨sortValues statement r, output statement r⟩) with
  | error e =>
    rw [hout] at hsame
    exact hsame.elim
  | ok out =>
    rw [hout] at hsame
    have heq : out = ordered.map fun r => ⟨sortValues statement r, output statement r⟩ := by
      have hforall : List.Forall₂ (fun r (x : SortRow) =>
        x = ⟨sortValues statement r, output statement r⟩) ordered out := hsame
      clear hsame hout hsort hperm hsorted
      induction hforall with
      | nil => rfl
      | cons hx _ ih => rw [hx, ih, List.map_cons]
    rw [heq]

/-- A plain SELECT that sorts, without LIMIT. -/
theorem executePlainSelect_sorting (hbound : Bound schema statement)
    (hserves : ServesTable engine statement.tableName schema rows)
    (hrows : ∀ row ∈ rows, ValidRow schema row) (hnan : ∀ row ∈ rows, NoNaN row)
    (hlimit : statement.limit = none) {plan : KeyPlan}
    (hplan : planConjuncts statement.schema {} (conjuncts statement) = .ok plan)
    (houtputs : ∀ row ∈ rows, plan.access.reaches (rowKey row) = true → Outputs statement row)
    (hfuel : (rows.filter fun r => plan.access.reaches (rowKey r)).length ≤ fuel)
    (hsort : (statement.orderByItems.isEmpty || isRequiredKeyAsc statement) = false)
    (horder : ∀ row ∈ passing statement rows, Orderable statement row) :
    ∃ (found ordered : List Row), PlainRun statement rows found ∧
      ordered.Perm (passing statement found) ∧
      (ordered.Pairwise fun r s => rowOrder statement r ≤ rowOrder statement s) ∧
      executePlainSelect std engine fuel statement names (collectRequiredProjection statement)
        false = .ok ⟨names, ordered.map (output statement)⟩ := by
  obtain ⟨built, found, hbuilt, hreads, hrun⟩ :=
    plainRun_of_build hbound hserves hplan houtputs
  have hsub : ∀ row ∈ found, row ∈ rows := by
    obtain ⟨plan', -, hperm⟩ := hrun.reached
    intro row hrow
    exact (List.mem_filter.mp (hperm.mem_iff.mp hrow)).1
  have hlength : found.length ≤ fuel := by
    obtain ⟨plan', hplan', hperm⟩ := hrun.reached
    rw [hplan, Except.ok.injEq] at hplan'
    subst hplan'
    rwa [hperm.length_eq]
  have hpassing : ∀ row ∈ found, holds statement row = true → row ∈ passing statement rows :=
    fun row hrow hholds => List.mem_filter.mpr ⟨hsub row hrow, hholds⟩
  have hpassed : ∀ row ∈ passing statement found, row ∈ rows :=
    fun row hrow => hsub row (List.mem_filter.mp hrow).1
  obtain ⟨ordered, hperm, hsorted, hsortRows⟩ := @sortRows_outputs std _ _ hbound _
    (fun row hrow => hrows row (hpassed row hrow)) (fun row hrow => hnan row (hpassed row hrow))
    fun row hrow => by
      obtain ⟨hfound, hholds⟩ := List.mem_filter.mp hrow
      exact horder row (hpassing row hfound hholds)
  refine ⟨found, ordered, hrun, hperm, hsorted, ?_⟩
  obtain ⟨hempty, hasc⟩ := Bool.or_eq_false_iff.mp hsort
  have hloop : ∀ early, foldRows (plainBody statement (isRequiredKeyAsc statement) early) found {} =
      .ok { sortedRows := (passing statement found).map fun r =>
        ⟨sortValues statement r, output statement r⟩ } := by
    intro early
    exact foldRows_sorting hsort hrun.outputs
      (fun row hrow hholds => ⟨_, (horder row (hpassing row hrow hholds)).orderByValues⟩) early {}
  unfold executePlainSelect
  simp only [hbuilt, Result.ok_bind]
  cases built with
  | none =>
    rw [show found = [] from hreads] at hperm
    rw [List.perm_nil.mp hperm]
    rfl
  | some cursor =>
    obtain ⟨c, w⟩ := cursor
    simp only [whileValid_eq (readsOnly_plainBody statement _ _) hreads hlength, hloop,
      Result.ok_bind]
    simp only [finishPlain, plainRows, hempty, hasc, Bool.not_false, Bool.and_self, if_true,
      hsortRows, Result.ok_bind, Bool.false_eq_true, if_false, Result.pure_eq, truncateRows,
      hlimit, List.map_map, Function.comp_def]

end Htap.Executor
