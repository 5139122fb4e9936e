import Htap.Executor.SkippingSelect
import Htap.Properties.Limit
import Htap.Properties.RowOrder

/-!
Two engines that hold the same rows of a table, wherever they are stored, answer a SELECT
alike: the same rows without GROUP BY and aggregates, else result rows that compare equal.
-/

namespace Htap.Properties

open Storage SSTable Read Cursor Words Executor Htap.Parser

variable {schema : Schema} {statement : BoundSelectStatement} {rows xs ys : List Row} {fuel : Nat}

/-- A SELECT without GROUP BY and aggregates. -/
def IsPlain (statement : BoundSelectStatement) : Prop :=
  hasAggregateSelectItems statement = false ∧ statement.groupByItems = []

/-- A SELECT that raises no error on the rows, and whose result the rows determine whatever
order they come in. -/
inductive Determined (schema : Schema) (statement : BoundSelectStatement) (rows : List Row) : Prop
  | plain (hplain : IsPlain statement)
    (hlimit : statement.limit = none ∨ isRequiredKeyAsc statement = true)
    (hevaluates : ∀ row ∈ rows, Evaluates statement row)
  | total (hglobal : statement.groupByItems = []) (hagg : hasAggregateSelectItems statement = true)
    (hgood : ∀ row ∈ rows, GoodRow schema statement row) (hsums : NoDoubleSums statement)
    (hexact : ∀ e resultType, .aggregate .avg e resultType ∈ statement.selectItems →
      ∀ ints : List Int64, (ints.map ResultValue.int64).Subperm
        (arguments e (passing statement rows)) → Binary64.Exact (ints.map Int64.toInt).sum)
  | grouped (hkeyed : statement.groupByItems ≠ [])
    (hgood : ∀ row ∈ rows, GoodRow schema statement row) (hsums : NoDoubleSums statement)
    (hfree : OrderFree statement rows)

/-- The same columns, and the same rows: in any order in a plain SELECT that does not order by
the key, and up to comparison where they were computed. -/
structure SameAnswer (statement : BoundSelectStatement) (result result' : SelectResult) :
    Prop where
  names : result.columnNames = result'.columnNames
  plain : IsPlain statement → result.rows.Perm result'.rows ∧
    (isRequiredKeyAsc statement = true → result = result')
  computed : ¬ IsPlain statement → List.Forall₂ SameRow result.rows result'.rows

/-- Both fail for the same reason, or both return the same. -/
inductive SameOutcome (statement : BoundSelectStatement) :
    Result SelectResult → Result SelectResult → Prop
  | fails (e : Exception) : SameOutcome statement (.error e) (.error e)
  | returns {result result' : SelectResult} (h : SameAnswer statement result result') :
    SameOutcome statement (.ok result) (.ok result')

/-! ## Rows that pass -/

theorem passing_passing (statement : BoundSelectStatement) (rows : List Row) :
    passing statement (passing statement rows) = passing statement rows := by
  simp [passing, List.filter_filter]

theorem groupsOf_passing (statement : BoundSelectStatement) (rows : List Row) :
    groupsOf statement (passing statement rows) = groupsOf statement rows := by
  rw [groupsOf, groupsOf, passing_passing]

/-- Only the rows that pass matter. -/
theorem OrderFree.of_passing (h : OrderFree statement xs)
    (hperm : (passing statement xs).Perm (passing statement ys)) : OrderFree statement ys := by
  have hmembers : ∀ r, (groupMembers statement xs r).Perm (groupMembers statement ys r) :=
    fun r => hperm.filter _
  constructor
  · intro r hr s hs
    exact h.orderBy r (hperm.mem_iff.mpr hr) s ((hmembers r).mem_iff.mpr hs)
  · intro e resultType hitem r hr ints hints
    apply h.averages e resultType hitem r (hperm.mem_iff.mpr hr) ints
    exact hints.trans ((hmembers r).filterMap _).symm.subperm

theorem Determined.perm (h : Determined schema statement xs) (hperm : xs.Perm ys) :
    Determined schema statement ys := by
  have hpassing : (passing statement xs).Perm (passing statement ys) := hperm.filter _
  cases h with
  | plain hplain hlimit hevaluates =>
    exact .plain hplain hlimit fun row hrow => hevaluates row (hperm.mem_iff.mpr hrow)
  | total hglobal hagg hgood hsums hexact =>
    refine .total hglobal hagg (fun row hrow => hgood row (hperm.mem_iff.mpr hrow)) hsums ?_
    intro e resultType hitem ints hints
    exact hexact e resultType hitem ints (hints.trans (hpassing.filterMap _).symm.subperm)
  | grouped hkeyed hgood hsums hfree =>
    exact .grouped hkeyed (fun row hrow => hgood row (hperm.mem_iff.mpr hrow)) hsums
      (hfree.of_passing hpassing)

/-! ## The same rows under another condition -/

section

variable {w : Option BoundExpression} {result : SelectResult}

theorem passing_where (h : ∀ row ∈ rows, holds { statement with whereExpression := w } row =
    holds statement row) :
    passing { statement with whereExpression := w } rows = passing statement rows :=
  List.filter_congr h

/-- An answer is one for every condition that is true on the same rows. -/
theorem Answers.of_where (h : Answers { statement with whereExpression := w } rows result)
    (hholds : ∀ row ∈ rows, holds { statement with whereExpression := w } row =
      holds statement row) : Answers statement rows result := by
  obtain ⟨hnames, ordered, hperm, hrows, horder⟩ := h
  rw [passing_where hholds] at hperm
  exact ⟨hnames, ordered, hperm, hrows, horder⟩

end

/-! ## Two engines -/

section

variable {α β : Type} [ICursor α] [ICursor β] {engine : IStorageEngine α}
  {engine' : IStorageEngine β} {built : Option (α × World)} {built' : Option (β × World)}
  {names : List Bytes} {b : Bool} {found found' : List Row} {w : Option BoundExpression}

/-- What a SELECT reads of the rows that an engine stores. -/
structure Opened (engine : IStorageEngine α) (statement : BoundSelectStatement)
    (requiresKeyAsc : Bool) (rows : List Row) (built : Option (α × World)) (found : List Row) :
    Prop where
  build : buildCursorForSelect engine statement (collectRequiredProjection statement)
    requiresKeyAsc = .ok built
  reads : ReadsBuilt (collectRequiredProjection statement) built found
  found : Found statement requiresKeyAsc rows found

private theorem Opened.good (h : Opened engine statement b rows built found)
    (hgood : ∀ row ∈ rows, GoodRow schema statement row) :
    ∀ row ∈ found, GoodRow schema statement row :=
  fun row hrow => hgood row (h.found.sub row hrow)

/-- What two conditions leave of what was read is the same. -/
private theorem Opened.passing_perm (h : Opened engine statement b xs built found)
    (h' : Opened engine' { statement with whereExpression := w } b ys built' found')
    (hperm : xs.Perm ys)
    (hholds : ∀ row ∈ ys, holds { statement with whereExpression := w } row =
      holds statement row) :
    passing { statement with whereExpression := w } found' = passing statement found' ∧
      (passing statement found).Perm (passing statement found') := by
  have hsame : ∀ row ∈ found', holds { statement with whereExpression := w } row =
      holds statement row := fun row hrow => hholds row (h'.found.sub row hrow)
  refine ⟨passing_where hsame, ?_⟩
  have hpassing' := h'.found.passing
  rw [passing_where hsame, passing_where hholds] at hpassing'
  exact h.found.passing.trans ((hperm.filter _).trans hpassing'.symm)

private theorem grouped_sameAnswer (std : StdSort Exception) (hbound : Bound schema statement)
    (hbound' : Bound schema { statement with whereExpression := w })
    (hkeyed : statement.groupByItems ≠ []) (hsums : NoDoubleSums statement)
    (h : Opened engine statement false xs built found)
    (h' : Opened engine' { statement with whereExpression := w } false ys built' found')
    (hperm : xs.Perm ys)
    (hholds : ∀ row ∈ ys, holds { statement with whereExpression := w } row =
      holds statement row)
    (hgood : ∀ row ∈ xs, GoodRow schema statement row)
    (hgood' : ∀ row ∈ ys, GoodRow schema { statement with whereExpression := w } row)
    (hfree : OrderFree statement xs) (hfuel : xs.length ≤ fuel) :
    ∃ result result', executeGroupedAggregateSelect std engine fuel statement names
        (collectRequiredProjection statement) = .ok result ∧
      executeGroupedAggregateSelect std engine' fuel { statement with whereExpression := w } names
        (collectRequiredProjection { statement with whereExpression := w }) = .ok result' ∧
      SameAnswer statement result result' := by
  obtain ⟨hsame, hpassing⟩ := h.passing_perm h' hperm hholds
  have hfoundFree : OrderFree statement (passing statement found) := by
    apply hfree.of_passing
    rw [passing_passing]
    exact h.found.passing.symm
  have hfoundGood : ∀ row ∈ passing statement found, GoodRow schema statement row :=
    fun row hrow => h.good hgood row (List.mem_filter.mp hrow).1
  obtain ⟨sorted, sorted', hsorted, hsorted', hrows⟩ :=
    @orderGroups_perm schema statement std (passing statement found) (passing statement found')
      hbound hkeyed hsums hfoundGood hpassing
      (hfoundFree.alike hbound hsums hfoundGood hpassing)
  rw [groupsOf_passing] at hsorted hsorted'
  have hgroups : groupsOf { statement with whereExpression := w } found' =
      groupsOf statement found' := by
    rw [groupsOf, hsame]
    rfl
  have hsortedWhere : orderGroups std { statement with whereExpression := w }
      ((groupsOf { statement with whereExpression := w } found').map
        (groupResult { statement with whereExpression := w })) = .ok sorted' := by
    rw [hgroups]
    exact hsorted'
  rw [executeGroupedAggregateSelect_eq hbound h.build h.reads (h.good hgood)
      (h.found.few.trans hfuel), hsorted,
    executeGroupedAggregateSelect_eq hbound' h'.build h'.reads (h'.good hgood')
      (h'.found.few.trans (hperm.length_eq.symm.le.trans hfuel)), hsortedWhere]
  refine ⟨_, _, rfl, rfl, rfl, fun hplain => absurd hplain.2 hkeyed, fun _ => ?_⟩
  dsimp only
  unfold truncateRows
  split
  · exact hrows
  · rw [← hrows.length_eq]
    split
    · exact List.forall₂_take _ hrows
    · exact hrows

private theorem total_sameAnswer (hbound : Bound schema statement)
    (hbound' : Bound schema { statement with whereExpression := w })
    (hglobal : statement.groupByItems = []) (hagg : hasAggregateSelectItems statement = true)
    (hsums : NoDoubleSums statement) (h : Opened engine statement false xs built found)
    (h' : Opened engine' { statement with whereExpression := w } false ys built' found')
    (hperm : xs.Perm ys)
    (hholds : ∀ row ∈ ys, holds { statement with whereExpression := w } row =
      holds statement row)
    (hgood : ∀ row ∈ xs, GoodRow schema statement row)
    (hgood' : ∀ row ∈ ys, GoodRow schema { statement with whereExpression := w } row)
    (hexact : ∀ e resultType, .aggregate .avg e resultType ∈ statement.selectItems →
      ∀ ints : List Int64, (ints.map ResultValue.int64).Subperm
        (arguments e (passing statement xs)) → Binary64.Exact (ints.map Int64.toInt).sum)
    (hfuel : xs.length ≤ fuel) :
    ∃ result result', executeGlobalAggregateSelect engine fuel statement names
        (collectRequiredProjection statement) = .ok result ∧
      executeGlobalAggregateSelect engine' fuel { statement with whereExpression := w } names
        (collectRequiredProjection { statement with whereExpression := w }) = .ok result' ∧
      SameAnswer statement result result' := by
  obtain ⟨hsame, hpassing⟩ := h.passing_perm h' hperm hholds
  have hall := all_aggregates hbound hagg hglobal
  rw [executeGlobalAggregateSelect_eq hbound hall h.build h.reads (h.good hgood)
      (h.found.few.trans hfuel),
    executeGlobalAggregateSelect_eq hbound' hall h'.build h'.reads (h'.good hgood')
      (h'.found.few.trans (hperm.length_eq.symm.le.trans hfuel)), hsame]
  refine ⟨_, _, rfl, rfl, rfl, fun hplain => ?_, fun _ => ?_⟩
  · rw [IsPlain, hagg] at hplain
    cases hplain.1
  · dsimp only
    split
    · apply List.Forall₂.cons _ List.Forall₂.nil
      rw [SameRow, List.forall₂_map_left_iff, List.forall₂_map_right_iff, List.forall₂_same]
      intro item hitem
      have haggregate := hall item hitem
      cases item with
      | expression e => cases haggregate
      | aggregate kind e resultType =>
        have hfoundGood : ∀ row ∈ passing statement found, GoodRow schema statement row :=
          fun row hrow => h.good hgood row (List.mem_filter.mp hrow).1
        apply aggregateResult_perm hbound hsums hfoundGood hpassing hitem
        rintro rfl
        apply addsAlike_of_exact (hpassing.filterMap _)
          (avg_arguments hbound hsums hfoundGood hitem)
        intro ints hints
        exact hexact e resultType hitem ints
          (hints.trans (h.found.passing.filterMap _).subperm)
    · exact List.Forall₂.nil

private theorem unlimited_evaluates {row : Row} (h : Evaluates statement row) :
    Evaluates { statement with limit := none } row :=
  ⟨⟨h.passes, h.items⟩, h.orders⟩

/-- A plain SELECT with its plan, without LIMIT, under two conditions. -/
private theorem unlimited_sameAnswer (std : StdSort Exception) (h : AnswersFrom engine statement xs)
    (h' : AnswersFrom engine' { statement with whereExpression := w } ys)
    (hkeys : (xs.map rowKey).Nodup) (hperm : xs.Perm ys)
    (hholds : ∀ row ∈ ys, holds { statement with whereExpression := w } row =
      holds statement row) {plan plan' : KeyPlan}
    (hplan : planConjuncts statement.schema {} (conjuncts statement) = .ok plan)
    (hplan' : planConjuncts statement.schema {}
      (conjuncts { statement with whereExpression := w }) = .ok plan')
    (hevaluates : ∀ row ∈ xs, Evaluates statement row)
    (hevaluates' : ∀ row ∈ ys, Evaluates { statement with whereExpression := w } row)
    (hfuel : xs.length ≤ fuel) :
    ∃ result result', executeSelect std engine fuel statement = .ok result ∧
      executeSelect std engine' fuel { statement with whereExpression := w } = .ok result' ∧
      result.columnNames = result'.columnNames ∧ result.rows.Perm result'.rows ∧
      (isRequiredKeyAsc statement = true → result = result') := by
  obtain ⟨result, hrun⟩ := h.returns std fuel plan hplan hevaluates hfuel
  obtain ⟨result', hrun'⟩ := h'.returns std fuel plan' hplan' hevaluates'
    (hperm.length_eq.symm.le.trans hfuel)
  exact ⟨result, result', hrun, hrun',
    (h.answers _ _ _ hrun).agree (Answers.of_where (h'.answers _ _ _ hrun') hholds) hperm
      hkeys⟩

private theorem plain_sameAnswer (std : StdSort Exception) (hplain : IsPlain statement)
    (h : AnswersFrom engine { statement with limit := none } xs)
    (h' : AnswersFrom engine' { statement with whereExpression := w, limit := none } ys)
    (hlimit : statement.limit = none ∨ isRequiredKeyAsc statement = true)
    (hkeys : (xs.map rowKey).Nodup) (hperm : xs.Perm ys)
    (hholds : ∀ row ∈ ys, holds { statement with whereExpression := w } row =
      holds statement row) {plan plan' : KeyPlan}
    (hplan : planConjuncts statement.schema {} (conjuncts statement) = .ok plan)
    (hplan' : planConjuncts statement.schema {}
      (conjuncts { statement with whereExpression := w }) = .ok plan')
    (hevaluates : ∀ row ∈ xs, Evaluates statement row)
    (hevaluates' : ∀ row ∈ ys, Evaluates { statement with whereExpression := w } row)
    (hfuel : xs.length ≤ fuel) :
    ∃ result result', executeSelect std engine fuel statement = .ok result ∧
      executeSelect std engine' fuel { statement with whereExpression := w } = .ok result' ∧
      SameAnswer statement result result' := by
  obtain ⟨result, result', hrun, hrun', hnames, hrows, hordered⟩ :=
    unlimited_sameAnswer std h h' hkeys hperm hholds hplan hplan'
      (fun row hrow => unlimited_evaluates (hevaluates row hrow))
      (fun row hrow => unlimited_evaluates (hevaluates' row hrow)) hfuel
  cases hstated : statement.limit with
  | none =>
    have hsame : { statement with limit := none } = statement := by rw [← hstated]
    rw [hsame] at hrun
    exact ⟨result, result', hrun, hrun', hnames, fun _ => ⟨hrows, hordered⟩,
      fun hnot => absurd hplain hnot⟩
  | some n =>
    have hasc : isRequiredKeyAsc statement = true := by
      rcases hlimit with hnone | hasc
      · rw [hnone] at hstated
        cases hstated
      · exact hasc
    have hsame : { statement with limit := some n } = statement := by rw [← hstated]
    have hlimited := executeSelect_limit hrun n
    have hlimited' := @executeSelect_limit _ _ std engine' fuel
      { statement with whereExpression := w } result' hrun' n
    rw [hsame] at hlimited
    rw [← hordered hasc] at hlimited'
    exact ⟨_, _, hlimited, hlimited', rfl, fun _ => ⟨List.Perm.refl _, fun _ => rfl⟩,
      fun hnot => absurd hplain hnot⟩

theorem executeSelect_total {other : BoundSelectStatement}
    (hnames : buildSelectColumnNames other = .ok names)
    (hagg : hasAggregateSelectItems other = true) (hglobal : other.groupByItems = [])
    (std : StdSort Exception) :
    executeSelect std engine fuel other =
      executeGlobalAggregateSelect engine fuel other names (collectRequiredProjection other) := by
  simp only [executeSelect, hnames, Result.ok_bind, hagg, hglobal, Bool.not_true,
    List.isEmpty_nil, Bool.not_false, Bool.false_and, Bool.true_and, Bool.false_eq_true,
    if_false, if_true]

theorem executeSelect_grouped {other : BoundSelectStatement}
    (hnames : buildSelectColumnNames other = .ok names) (hkeyed : other.groupByItems ≠ [])
    (std : StdSort Exception) :
    executeSelect std engine fuel other =
      executeGroupedAggregateSelect std engine fuel other names
        (collectRequiredProjection other) := by
  have hisEmpty : other.groupByItems.isEmpty = false := List.isEmpty_eq_false_iff.mpr hkeyed
  simp only [executeSelect, hnames, Result.ok_bind, hisEmpty, Bool.not_false,
    Bool.not_true, Bool.and_false, Bool.false_eq_true, if_false]

/-- The condition can be planned, and its literals can be compared. -/
structure Planned (statement : BoundSelectStatement) : Prop where
  plan : ∃ plan, planConjuncts statement.schema {} (conjuncts statement) = .ok plan
  literals : (buildDataSkippingFilter statement).Ordered

/-- Engines that serve the same rows answer alike, also to conditions put differently. -/
theorem sameAnswer_of_skipsRows (std : StdSort Exception)
    (h : SkipsRows engine statement.tableName schema xs)
    (h' : SkipsRows engine' statement.tableName schema ys) (hbound : Bound schema statement)
    (hbound' : Bound schema { statement with whereExpression := w })
    (hschema : schema.WellFormed) (hplanned : Planned statement)
    (hplanned' : Planned { statement with whereExpression := w })
    (hvalid : ∀ row ∈ xs, ValidRow schema row) (hnan : ∀ row ∈ xs, NoNaN row)
    (hkeys : (xs.map rowKey).Nodup) (hperm : xs.Perm ys)
    (hholds : ∀ row ∈ ys, holds { statement with whereExpression := w } row =
      holds statement row)
    (hdetermined : Determined schema statement xs)
    (hdetermined' : Determined schema { statement with whereExpression := w } ys)
    (hfuel : xs.length ≤ fuel) :
    ∃ result result', executeSelect std engine fuel statement = .ok result ∧
      executeSelect std engine' fuel { statement with whereExpression := w } = .ok result' ∧
      SameAnswer statement result result' := by
  have hvalid' : ∀ row ∈ ys, ValidRow schema row :=
    fun row hrow => hvalid row (hperm.mem_iff.mpr hrow)
  have hnan' : ∀ row ∈ ys, NoNaN row := fun row hrow => hnan row (hperm.mem_iff.mpr hrow)
  obtain ⟨names, hnames⟩ := buildSelectColumnNames_ok hbound
  have hnames' : buildSelectColumnNames { statement with whereExpression := w } = .ok names :=
    hnames
  obtain ⟨⟨plan, hplan⟩, hliterals⟩ := hplanned
  obtain ⟨⟨plan', hplan'⟩, hliterals'⟩ := hplanned'
  obtain ⟨built, found, hbuilt, hreads, hfound⟩ :=
    h.exists_found hbound hschema hliterals hvalid hnan hplan false
  have hserves' : SkipsRows engine' { statement with whereExpression := w }.tableName schema ys :=
    h'
  obtain ⟨built', found', hbuilt', hreads', hfound'⟩ :=
    hserves'.exists_found hbound' hschema hliterals' hvalid' hnan' hplan' false
  cases hdetermined with
  | plain hplain hlimit hevaluates =>
    cases hdetermined' with
    | plain _ _ hevaluates' =>
      have hanswers : AnswersFrom engine { statement with limit := none } xs :=
        SkipsRows.answersFrom h (hbound.withLimit none) hschema hplain rfl hliterals hvalid hnan
      have hanswers' : AnswersFrom engine'
          { statement with whereExpression := w, limit := none } ys :=
        SkipsRows.answersFrom h' (hbound'.withLimit none) hschema hplain rfl hliterals' hvalid'
          hnan'
      exact plain_sameAnswer std hplain hanswers hanswers' hlimit hkeys hperm hholds hplan hplan'
        hevaluates hevaluates' hfuel
    | total _ hagg => exact absurd (hagg.symm.trans hplain.1) (by decide)
    | grouped hkeyed => exact absurd hplain.2 hkeyed
  | total hglobal hagg hgood hsums hexact =>
    cases hdetermined' with
    | plain hplain => exact absurd (hagg.symm.trans hplain.1) (by decide)
    | total _ _ hgood' =>
      rw [executeSelect_total hnames hagg hglobal, executeSelect_total hnames' hagg hglobal]
      exact total_sameAnswer hbound hbound' hglobal hagg hsums ⟨hbuilt, hreads, hfound⟩
        ⟨hbuilt', hreads', hfound'⟩ hperm hholds hgood hgood' hexact hfuel
    | grouped hkeyed => exact absurd hglobal hkeyed
  | grouped hkeyed hgood hsums hfree =>
    cases hdetermined' with
    | plain hplain => exact absurd hplain.2 hkeyed
    | total hglobal => exact absurd hglobal hkeyed
    | grouped _ hgood' =>
      rw [executeSelect_grouped hnames hkeyed, executeSelect_grouped hnames' hkeyed]
      exact grouped_sameAnswer std hbound hbound' hkeyed hsums ⟨hbuilt, hreads, hfound⟩
        ⟨hbuilt', hreads', hfound'⟩ hperm hholds hgood hgood' hfree hfuel

/-- A statement whose plan fails fails alike on all engines. -/
private theorem executeSelect_of_plan_error (std : StdSort Exception) (fuel : Nat)
    (hbound : Bound schema statement) {e : Exception}
    (hplan : planConjuncts statement.schema {} (conjuncts statement) = .error e) :
    ∃ e', ∀ {γ : Type} [ICursor γ] (other : IStorageEngine γ),
      executeSelect std other fuel statement = .error e' := by
  obtain ⟨names, hnames⟩ := buildSelectColumnNames_ok hbound
  simp only [executeSelect, hnames, Result.ok_bind, executePlainSelect,
    executeGlobalAggregateSelect, executeGroupedAggregateSelect,
    buildCursorForSelect_of_plan_error hplan]
  by_cases hplain : (!hasAggregateSelectItems statement && !!statement.groupByItems.isEmpty) = true
  · simp only [if_pos hplain]
    exact ⟨e, fun _ => rfl⟩
  simp only [if_neg hplain]
  by_cases hglobal : (hasAggregateSelectItems statement && !!statement.groupByItems.isEmpty) = true
  · simp only [if_pos hglobal]
    cases statement.selectItems.mapM globalAggregate with
    | error e' => exact ⟨e', fun _ => rfl⟩
    | ok aggregates => exact ⟨e, fun _ => rfl⟩
  · simp only [if_neg hglobal]
    exact ⟨e, fun _ => rfl⟩

/-- Engines that serve the same rows end a SELECT alike. -/
theorem sameOutcome_of_skipsRows (std : StdSort Exception)
    (h : SkipsRows engine statement.tableName schema xs)
    (h' : SkipsRows engine' statement.tableName schema ys) (hbound : Bound schema statement)
    (hschema : schema.WellFormed) (hliterals : (buildDataSkippingFilter statement).Ordered)
    (hvalid : ∀ row ∈ xs, ValidRow schema row) (hnan : ∀ row ∈ xs, NoNaN row)
    (hkeys : (xs.map rowKey).Nodup) (hperm : xs.Perm ys)
    (hdetermined : Determined schema statement xs) (hfuel : xs.length ≤ fuel) :
    SameOutcome statement (executeSelect std engine fuel statement)
      (executeSelect std engine' fuel statement) := by
  cases hplan : planConjuncts statement.schema {} (conjuncts statement) with
  | error e =>
    obtain ⟨e', hfails⟩ := executeSelect_of_plan_error std fuel hbound hplan
    rw [hfails engine, hfails engine']
    exact .fails e'
  | ok plan =>
    have hplanned : Planned statement := ⟨⟨plan, hplan⟩, hliterals⟩
    obtain ⟨result, result', hrun, hrun', hsame⟩ := @sameAnswer_of_skipsRows schema statement xs ys
      fuel _ _ _ _ _ _ statement.whereExpression std h h' hbound hbound hschema hplanned hplanned
      hvalid hnan hkeys hperm (fun _ _ => rfl) hdetermined (hdetermined.perm hperm) hfuel
    rw [hrun, hrun']
    exact .returns hsame

end

end Htap.Properties
