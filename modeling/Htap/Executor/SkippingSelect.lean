import Htap.Executor.Skipping

/-!
What a plain SELECT without LIMIT returns over an engine that skips: the outputs of the
rows on which WHERE is true, of all of them and of no others, in the order asked for.
-/

namespace Htap.Executor

open Storage Htap.Parser SSTable Read Cursor Words

variable {statement : BoundSelectStatement} {schema : Schema} {rows found : List Row}

/-! ## Answers -/

/-- The rows come in the order that ORDER BY asks for: that of the cursor when it starts
with the key ascending, that of the sort keys otherwise. -/
def InOrder (statement : BoundSelectStatement) (ordered : List Row) : Prop :=
  if isRequiredKeyAsc statement then SortedRows ordered
  else ordered.Pairwise fun r s => rowOrder statement r ≤ rowOrder statement s

/-- The result is that of the statement on `rows`. -/
structure Answers (statement : BoundSelectStatement) (rows : List Row) (result : SelectResult) :
    Prop where
  names : buildSelectColumnNames statement = .ok result.columnNames
  rows : ∃ ordered : List Row, ordered.Perm (passing statement rows) ∧
    result.rows = ordered.map (output statement) ∧ InOrder statement ordered

/-- The statement raises no error on the row. -/
structure Evaluates (statement : BoundSelectStatement) (row : Row) : Prop extends
    Outputs statement row where
  orders : holds statement row = true → Orderable statement row

theorem Answers.perm {result : SelectResult} (h : Answers statement rows result) :
    result.rows.Perm ((passing statement rows).map (output statement)) := by
  obtain ⟨ordered, hperm, heq, -⟩ := h.rows
  rw [heq]
  exact hperm.map (output statement)

/-- A row on which no expression raises an error raises none in a plain SELECT. -/
theorem evaluates_of_goodRow (hbound : Bound schema statement)
    (hplain : hasAggregateSelectItems statement = false) {row : Row}
    (h : GoodRow schema statement row) : Evaluates statement row := by
  refine ⟨⟨⟨_, h.passesWhere_eq hbound⟩, fun _ => ?_⟩, fun _ => ?_⟩
  · refine ⟨_, Result.mapM_eq_map (g := fun item => valueOn row item.argument) _ ?_⟩
    intro item hitem
    have hnot := List.any_eq_false.mp hplain item hitem
    cases item with
    | expression e => exact h.valueOn_eq (GoodRow.item_mem hitem)
    | aggregate kind e resultType => exact absurd rfl hnot
  · intro item hitem
    apply h.evaluates
    unfold BoundSelectStatement.expressions
    exact List.mem_append_right _ (List.mem_map_of_mem hitem)

/-! ## The loop -/

theorem orderable_of_orderByValues {row : Row} {keys : List NullableResultValue}
    (h : orderByValues statement (rowValue row) = .ok keys) : Orderable statement row := by
  intro item hitem
  cases hv : evaluateExpression (rowValue row) item.expression with
  | ok v => exact ⟨v, rfl⟩
  | error e =>
    refine absurd h (Result.mapM_ne_ok hitem ?_ keys)
    intro v hok
    rw [hv] at hok
    cases hok

/-- A loop that collects rows for sorting and returns has evaluated their sort keys. -/
private theorem orderable_of_foldRows {requiresKeyAsc earlyLimit : Bool}
    (hsort : (statement.orderByItems.isEmpty || requiresKeyAsc) = false) {s s' : PlainState}
    (h : foldRows (plainBody statement requiresKeyAsc earlyLimit) found s = .ok s') :
    ∀ row ∈ found, holds statement row = true → Orderable statement row := by
  induction found generalizing s with
  | nil =>
    intro row hrow
    cases hrow
  | cons row rest ih =>
    obtain ⟨⟨next, stop⟩, hbody, hrest⟩ := Result.bind_eq_ok.mp h
    obtain ⟨passes, hpasses, hbody⟩ := Result.bind_eq_ok.mp hbody
    have hholds : holds statement row = passes := by simp [holds, hpasses, valueOr]
    have hrow : stop = false ∧ (holds statement row = true → Orderable statement row) := by
      cases passes with
      | false =>
        cases hbody
        refine ⟨rfl, fun htrue => ?_⟩
        rw [hholds] at htrue
        cases htrue
      | true =>
        simp only [Bool.not_true, Bool.false_eq_true, if_false] at hbody
        obtain ⟨out, -, hbody⟩ := Result.bind_eq_ok.mp hbody
        simp only [hsort, Bool.false_eq_true, if_false] at hbody
        obtain ⟨keys, hkeys, hbody⟩ := Result.bind_eq_ok.mp hbody
        cases hbody
        exact ⟨rfl, fun _ => orderable_of_orderByValues hkeys⟩
    obtain ⟨rfl, horderable⟩ := hrow
    intro r hr
    rcases List.mem_cons.mp hr with rfl | hr
    · exact horderable
    · exact ih hrest r hr

/-! ## What is read -/

variable {α : Type} [ICursor α] {std : StdSort Exception} {engine : IStorageEngine α} {fuel : Nat}
  {names : List Bytes}

/-- The rows a statement reads of those of its table. -/
structure Found (statement : BoundSelectStatement) (requiresKeyAsc : Bool)
    (rows found : List Row) : Prop where
  sub : ∀ row ∈ found, row ∈ rows
  passing : (passing statement found).Perm (passing statement rows)
  sorted : requiresKeyAsc = true → SortedRows found
  few : found.length ≤ rows.length

theorem SkipsRows.exists_found (h : SkipsRows engine statement.tableName schema rows)
    (hbound : Bound schema statement) (hschema : schema.WellFormed)
    (hliterals : (buildDataSkippingFilter statement).Ordered)
    (hvalid : ∀ row ∈ rows, ValidRow schema row) (hnan : ∀ row ∈ rows, NoNaN row) {plan : KeyPlan}
    (hplan : planConjuncts statement.schema {} (conjuncts statement) = .ok plan)
    (requiresKeyAsc : Bool) :
    ∃ built found, buildCursorForSelect engine statement (collectRequiredProjection statement)
        requiresKeyAsc = .ok built ∧
      ReadsBuilt (collectRequiredProjection statement) built found ∧
      Found statement requiresKeyAsc rows found := by
  obtain ⟨-, built, all, found, -, hbuilt, ⟨-, -, hreads, hpruned⟩, hperm, hsorted⟩ :=
    h.build hbound hliterals hnan hplan requiresKeyAsc
  refine ⟨built, found, hbuilt, hreads, ?_, ?_, ?_, ?_⟩
  · intro row hrow
    exact (List.mem_filter.mp (hperm.mem_iff.mp (hpruned.sub.subset hrow))).1
  · rw [← hbound.schema_eq] at hschema hvalid
    rw [← passing_reached hschema hvalid hplan]
    have hsame : Executor.passing statement found = Executor.passing statement all :=
      hpruned.filter_eq
    rw [hsame]
    exact hperm.filter (holds statement)
  · intro hasc
    exact (hsorted hasc).sublist hpruned.sub
  · exact hpruned.sub.length_le.trans (hperm.length_eq.le.trans (List.length_filter_le _ _))

/-! ## The rows that come out -/

private theorem never_early (hlimit : statement.limit = none) (b : Bool) :
    (b && statement.limit.isSome) = false := by
  rw [hlimit, Option.isSome_none, Bool.and_false]

/-- What the loop leaves, and what is made of it, on rows that raise no error. -/
private theorem finishPlain_found (std : StdSort Exception) (hbound : Bound schema statement)
    (hvalid : ∀ row ∈ rows, ValidRow schema row) (hnan : ∀ row ∈ rows, NoNaN row)
    (hlimit : statement.limit = none)
    (hfound : Found statement (isRequiredKeyAsc statement) rows found)
    (houtputs : ∀ row ∈ found, Outputs statement row)
    (horders : (statement.orderByItems.isEmpty || isRequiredKeyAsc statement) = false →
      ∀ row ∈ found, holds statement row = true → Orderable statement row) (early : Bool) :
    ∃ (state : PlainState) (ordered : List Row),
      foldRows (plainBody statement (isRequiredKeyAsc statement) early) found {} = .ok state ∧
      finishPlain std statement (isRequiredKeyAsc statement) early state =
        .ok (ordered.map (output statement)) ∧
      ordered.Perm (passing statement rows) ∧ InOrder statement ordered := by
  have hmem : ∀ row ∈ passing statement found, row ∈ rows :=
    fun row hrow => hfound.sub row (List.mem_filter.mp hrow).1
  cases hdirect : statement.orderByItems.isEmpty || isRequiredKeyAsc statement with
  | true =>
    have hunsorted : (!statement.orderByItems.isEmpty && !isRequiredKeyAsc statement) = false := by
      rw [← Bool.not_or, hdirect]
      rfl
    refine ⟨_, passing statement found,
      foldRows_plain hdirect houtputs early (never_early hlimit early) {}, ?_, hfound.passing, ?_⟩
    · simp only [finishPlain, plainRows, hunsorted, Bool.false_eq_true, if_false, Result.ok_bind,
        Result.pure_eq, truncateRows, hlimit, List.nil_append, ite_self]
    · unfold InOrder
      split
      · rename_i hasc
        exact (hfound.sorted hasc).sublist List.filter_sublist
      · rename_i hasc
        have hnone : statement.orderByItems = [] := by
          simpa [hasc] using hdirect
        apply List.pairwise_of_forall
        intro r s
        simp [rowOrder, directions, hnone, orderKey]
  | false =>
    obtain ⟨hempty, hasc⟩ := Bool.or_eq_false_iff.mp hdirect
    have horderable : ∀ row ∈ passing statement found, Orderable statement row := by
      intro row hrow
      obtain ⟨hin, hholds⟩ := List.mem_filter.mp hrow
      exact horders hdirect row hin hholds
    obtain ⟨ordered, hperm, hsorted, hsortRows⟩ := @sortRows_outputs std _ _ hbound _
      (fun row hrow => hvalid row (hmem row hrow)) (fun row hrow => hnan row (hmem row hrow))
      horderable
    refine ⟨_, ordered, foldRows_sorting hdirect houtputs
      (fun row hin hholds => ⟨_, (horders hdirect row hin hholds).orderByValues⟩) early {}, ?_,
      hperm.trans hfound.passing, ?_⟩
    · simp only [finishPlain, plainRows, hempty, hasc, Bool.not_false, Bool.and_self, if_true,
        List.nil_append, hsortRows, Result.ok_bind, Result.pure_eq, truncateRows, hlimit,
        List.map_map, Function.comp_def, ite_self]
    · rw [InOrder, hasc]
      exact hsorted

/-! ## SELECT -/

/-- The rows of a cursor that was opened and read, under a statement that returned. -/
private theorem of_whileValid (hlimit : statement.limit = none) {c : α} {w : World}
    (hreads : Reads (collectRequiredProjection statement) c w found) {early : Bool}
    {state : PlainState}
    (h : whileValid (plainBody statement (isRequiredKeyAsc statement) early) fuel c w {} =
      .ok state) :
    foldRows (plainBody statement (isRequiredKeyAsc statement) early) found {} = .ok state := by
  have hfuel := length_le_fuel (plainBody_continues hlimit _ _) hreads h
  rwa [whileValid_eq (readsOnly_plainBody statement _ _) hreads hfuel] at h

/-- Whatever a plain SELECT without LIMIT returns is its answer. -/
theorem answers_of_executeSelect (hserves : SkipsRows engine statement.tableName schema rows)
    (hbound : Bound schema statement) (hschema : schema.WellFormed)
    (hplain : hasAggregateSelectItems statement = false ∧ statement.groupByItems = [])
    (hlimit : statement.limit = none) (hliterals : (buildDataSkippingFilter statement).Ordered)
    (hvalid : ∀ row ∈ rows, ValidRow schema row) (hnan : ∀ row ∈ rows, NoNaN row)
    {result : SelectResult} (hrun : executeSelect std engine fuel statement = .ok result) :
    Answers statement rows result := by
  obtain ⟨plan, hplan⟩ := exists_plan_of_executeSelect hrun
  obtain ⟨built, found, hbuilt, hreads, hfound⟩ :=
    hserves.exists_found hbound hschema hliterals hvalid hnan hplan (isRequiredKeyAsc statement)
  rw [executeSelect_plain hplain.1 hplain.2] at hrun
  obtain ⟨names, hnames, hrun⟩ := Result.bind_eq_ok.mp hrun
  unfold executePlainSelect at hrun
  simp only [hbuilt, Result.ok_bind] at hrun
  cases built with
  | none =>
    cases hrun
    obtain rfl : found = [] := hreads
    refine ⟨hnames, [], hfound.passing, rfl, ?_⟩
    unfold InOrder
    split
    · exact List.Pairwise.nil
    · exact List.Pairwise.nil
  | some cursor =>
    obtain ⟨c, w⟩ := cursor
    dsimp only at hrun
    obtain ⟨state, hstate, hrun⟩ := Result.bind_eq_ok.mp hrun
    have hfold := of_whileValid hlimit hreads hstate
    obtain ⟨state', ordered, hfold', hfinish, hperm, horder⟩ := finishPlain_found std
      hbound hvalid hnan hlimit hfound (outputs_of_foldRows (never_early hlimit _) hfold)
      (fun hsort => orderable_of_foldRows hsort hfold) _
    rw [hfold, Except.ok.injEq] at hfold'
    subst hfold'
    rw [hfinish, Result.ok_bind] at hrun
    cases hrun
    exact ⟨hnames, ordered, hperm, rfl, horder⟩

/-- A plain SELECT without LIMIT that raises no error on any row returns. -/
theorem executeSelect_returns (hserves : SkipsRows engine statement.tableName schema rows)
    (hbound : Bound schema statement) (hschema : schema.WellFormed)
    (hplain : hasAggregateSelectItems statement = false ∧ statement.groupByItems = [])
    (hlimit : statement.limit = none) (hliterals : (buildDataSkippingFilter statement).Ordered)
    (hvalid : ∀ row ∈ rows, ValidRow schema row) (hnan : ∀ row ∈ rows, NoNaN row)
    (hnames : buildSelectColumnNames statement = .ok names) {plan : KeyPlan}
    (hplan : planConjuncts statement.schema {} (conjuncts statement) = .ok plan)
    (hevaluates : ∀ row ∈ rows, Evaluates statement row) (hfuel : rows.length ≤ fuel) :
    ∃ result, executeSelect std engine fuel statement = .ok result := by
  obtain ⟨built, found, hbuilt, hreads, hfound⟩ :=
    hserves.exists_found hbound hschema hliterals hvalid hnan hplan (isRequiredKeyAsc statement)
  rw [executeSelect_plain hplain.1 hplain.2, hnames, Result.ok_bind]
  unfold executePlainSelect
  simp only [hbuilt, Result.ok_bind]
  cases built with
  | none => exact ⟨_, rfl⟩
  | some cursor =>
    obtain ⟨c, w⟩ := cursor
    obtain ⟨state, ordered, hfold, hfinish, -, -⟩ := finishPlain_found std
      hbound hvalid hnan hlimit hfound
      (fun row hrow => (hevaluates row (hfound.sub row hrow)).toOutputs)
      (fun _ row hrow => (hevaluates row (hfound.sub row hrow)).orders)
      (if isRequiredKeyAsc statement then isRequiredKeyAsc statement
        else canApplyEarlyLimit statement)
    dsimp only
    rw [whileValid_eq (readsOnly_plainBody statement _ _) hreads (hfound.few.trans hfuel), hfold,
      Result.ok_bind, hfinish]
    exact ⟨_, rfl⟩

/-- The engine answers a plain SELECT without LIMIT as the rows require whenever it returns,
and it returns when WHERE can be planned and the statement raises no error on any row. -/
structure AnswersFrom {α : Type} [ICursor α] (engine : IStorageEngine α)
    (statement : BoundSelectStatement) (rows : List Row) : Prop where
  answers : ∀ std fuel result, executeSelect std engine fuel statement = .ok result →
    Answers statement rows result
  returns : ∀ std fuel plan, planConjuncts statement.schema {} (conjuncts statement) = .ok plan →
    (∀ row ∈ rows, Evaluates statement row) → rows.length ≤ fuel →
    ∃ result, executeSelect std engine fuel statement = .ok result

theorem SkipsRows.answersFrom (hserves : SkipsRows engine statement.tableName schema rows)
    (hbound : Bound schema statement) (hschema : schema.WellFormed)
    (hplain : hasAggregateSelectItems statement = false ∧ statement.groupByItems = [])
    (hlimit : statement.limit = none) (hliterals : (buildDataSkippingFilter statement).Ordered)
    (hvalid : ∀ row ∈ rows, ValidRow schema row) (hnan : ∀ row ∈ rows, NoNaN row) :
    AnswersFrom engine statement rows := by
  obtain ⟨names, hnames⟩ := buildSelectColumnNames_ok hbound
  constructor
  · intro std fuel result hrun
    exact answers_of_executeSelect hserves hbound hschema hplain hlimit hliterals hvalid hnan hrun
  · intro std fuel plan hplan hevaluates hfuel
    exact executeSelect_returns hserves hbound hschema hplain hlimit hliterals hvalid hnan hnames
      hplan hevaluates hfuel

/-! ## Two engines -/

section

variable {β : Type} [ICursor β] {engine' : IStorageEngine β} {rows' : List Row}
  {result result' : SelectResult}

/-- Answers on the same rows have the same names and the same rows, in the same order when
that is the order of the key. -/
theorem Answers.agree (h : Answers statement rows result) (h' : Answers statement rows' result')
    (hperm : rows.Perm rows') (hkeys : (rows.map rowKey).Nodup) :
    result.columnNames = result'.columnNames ∧ result.rows.Perm result'.rows ∧
      (isRequiredKeyAsc statement = true → result = result') := by
  have hnames : result.columnNames = result'.columnNames :=
    Except.ok.inj (h.names.symm.trans h'.names)
  refine ⟨hnames, ?_, ?_⟩
  · exact h.perm.trans (((hperm.filter _).map _).trans h'.perm.symm)
  · intro hasc
    obtain ⟨ordered, hordered, heq, hsorted⟩ := h.rows
    obtain ⟨ordered', hordered', heq', hsorted'⟩ := h'.rows
    rw [InOrder, if_pos hasc] at hsorted hsorted'
    have hdistinct : (ordered.map rowKey).Nodup := by
      rw [(hordered.map rowKey).nodup_iff]
      exact hkeys.sublist (List.filter_sublist.map rowKey)
    have hsame : ordered = ordered' := Merging.SortedBy.eq_of_perm rowKey hsorted hsorted' hdistinct
      (hordered.trans ((hperm.filter _).trans hordered'.symm))
    obtain ⟨names, rows⟩ := result
    obtain ⟨names', rows'⟩ := result'
    obtain rfl : names = names' := hnames
    rw [hsame] at heq
    rw [SelectResult.mk.injEq]
    exact ⟨rfl, heq.trans heq'.symm⟩

omit [ICursor α] in
/-- A statement whose plan fails fails on any engine. -/
theorem buildCursorForSelect_of_plan_error {projection : List Nat} {requiresKeyAsc : Bool}
    {e : Exception} (hplan : planConjuncts statement.schema {} (conjuncts statement) = .error e) :
    buildCursorForSelect engine statement projection requiresKeyAsc = .error e := by
  rw [buildCursorForSelect, hplan]
  rfl

end

end Htap.Executor
