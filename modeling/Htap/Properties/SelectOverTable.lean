import Htap.Executor.PairTable
import Htap.Executor.SkippingSelect
import Htap.Properties.DataSkipping
import Htap.Properties.Grouping

/-!
SELECT over a table of the LSM engine, wherever its rows are: in the active memtable, in
frozen ones, in row or column SSTables of any level.
-/

namespace Htap.Properties

open Storage SSTable Read Cursor Words Executor Htap.Tree Htap.Tree.Session Htap.Parser

variable {tables : Bytes → Option LSMTree} {tableName : Bytes} {start s : Session}
  {source : SelectStatement} {statement : BoundSelectStatement} {std : StdSort Exception}
  {fuel : Nat} {result : SelectResult}

/-- What a SELECT returns when no block is skipped it returns with skipping as well: with
WHERE, GROUP BY, ORDER BY, LIMIT and aggregates of any kind. One direction only, as a row
that is skipped can raise no error; no literal of WHERE that reaches the statistics may be
NaN. -/
theorem skipping_is_invisible (h : Reached tables source.tableName start s)
    (hbind : bindSelect (lsmStorageEngine tables) source = .ok statement)
    (hliterals : (buildDataSkippingFilter statement).Ordered)
    (hrun : executeSelect std (lsmStorageEngine tables).unfiltered fuel statement = .ok result) :
    executeSelect std (lsmStorageEngine tables) fuel statement = .ok result := by
  obtain ⟨-, rows, hrows, hnumbers⟩ := h.exists_rows
  obtain ⟨hbound, -⟩ := h.bound hbind
  have hserves := h.skipsRows hbind hrows
  exact executeSelect_of_unfiltered hserves hbound hliterals hnumbers hrun

/-- A plain SELECT without LIMIT returns the outputs of the rows of the table on which WHERE
is true, each once, in the order of ORDER BY. It does return whenever WHERE can be planned
and nothing fails on a row of the table. -/
theorem select_answers (h : Reached tables source.tableName start s)
    (hbind : bindSelect (lsmStorageEngine tables) source = .ok statement)
    (hplain : hasAggregateSelectItems statement = false ∧ statement.groupByItems = [])
    (hlimit : statement.limit = none) (hliterals : (buildDataSkippingFilter statement).Ordered) :
    ∃ rows, RowsOf s rows ∧ AnswersFrom (lsmStorageEngine tables) statement rows := by
  obtain ⟨hschema, rows, hrows, hnumbers⟩ := h.exists_rows
  obtain ⟨hbound, -⟩ := h.bound hbind
  have hserves := h.skipsRows hbind hrows
  exact ⟨rows, hrows, hserves.answersFrom hbound hschema hplain hlimit hliterals
    hrows.stores.valid hnumbers⟩

/-! ## A table of two SSTables and a memtable -/

private theorem bindSelect_flushed {s : Session}
    (h : Reached (onlyTable pairTable s) selectIdAbove.tableName (newPairs freezingPairs) s)
    (hrun : Run (fun _ _ => True) threePairs s) :
    bindSelect (lsmStorageEngine (onlyTable pairTable s)) selectIdAbove =
      .ok boundSelectIdAbove := by
  rw [h.bindSelect_eq, hrun.schema_eq]
  exact bind_selectIdAbove

/-- How many rows the SELECT reads. -/
private def rowsRead {α : Type} [ICursor α] (engine : IStorageEngine α) : Result Nat := do
  let built ← buildCursorForSelect engine boundSelectIdAbove
    (collectRequiredProjection boundSelectIdAbove) false
  match built with
  | none => return 0
  | some (c, w) => whileValid (fun _ n => .ok (n + 1, false)) 3 c w 0

/-- The SELECT on the tree without skipping, and the rows that it reads without and with. -/
private def readsOf (tree : LSMTree) : Result SelectResult × Result Nat × Result Nat :=
  let engine := lsmStorageEngine fun name => if name = pairTable then some tree else none
  (executeSelect (.insertion Exception) engine.unfiltered 3 boundSelectIdAbove,
    rowsRead engine.unfiltered, rowsRead engine)

/-- The pair `(1, 10)` is alone in its SSTable, and its block is skipped. -/
theorem skipping_is_invisible_pairs : ∃ s, flushedPairs = .ok s.tree ∧
    rowsRead (lsmStorageEngine (onlyTable pairTable s)).unfiltered = .ok 3 ∧
    rowsRead (lsmStorageEngine (onlyTable pairTable s)) = .ok 2 ∧
    executeSelect (.insertion Exception) (lsmStorageEngine (onlyTable pairTable s)) 3
      boundSelectIdAbove = .ok ⟨[[105, 100]], [[some (.int64 3)], [some (.int64 2)]]⟩ := by
  have hreads : (do return readsOf (← flushedPairs)) = (.ok (.ok ⟨[[105, 100]],
      [[some (.int64 3)], [some (.int64 2)]]⟩, .ok 3, .ok 2) : Result _) := by decide +kernel
  obtain ⟨s, hrun, -, hinserted, hflush, hreads⟩ := exists_flushedPairs hreads
  obtain ⟨hselect, hreads⟩ := Prod.mk.inj hreads
  obtain ⟨hall, hsome⟩ := Prod.mk.inj hreads
  have hreached : Reached _ selectIdAbove.tableName _ s := reached_threePairs hrun hinserted
  have hbind := bindSelect_flushed hreached hrun
  exact ⟨s, hflush, hall, hsome,
    skipping_is_invisible hreached hbind ordered_selectIdAbove hselect⟩

theorem select_answers_pairs : ∃ s, TwoTables s [pairRow (3, 30)] ∧ ∃ rows, RowsOf s rows ∧
    AnswersFrom (lsmStorageEngine (onlyTable pairTable s)) boundSelectIdAbove rows := by
  obtain ⟨s, -, hrun, hflushed, -, -⟩ := exists_reopenedPairs
  have hinserted := hflushed.inserted.trans inserted_threePairs.symm
  have hreached : Reached _ selectIdAbove.tableName _ s := reached_threePairs hrun hinserted
  exact ⟨s, hflushed, select_answers hreached (bindSelect_flushed hreached hrun) ⟨rfl, rfl⟩ rfl
    ordered_selectIdAbove⟩

/-! ## The three values of WHERE -/

/-- A SELECT from its binding to its result. -/
def runSelect {α : Type} [ICursor α] (std : StdSort Exception) (engine : IStorageEngine α)
    (fuel : Nat) (source : SelectStatement) : Result SelectResult := do
  let statement ← bindSelect engine source
  executeSelect std engine fuel statement

/-- The statement with another WHERE. -/
def filtered (source : SelectStatement) (whereExpression : Option Expression) : SelectStatement :=
  { source with whereExpression := whereExpression }

/-- The SELECT without WHERE returns `rows`, and `WHERE p`, `WHERE NOT p` and
`WHERE p IS NULL` return each of them once. -/
def SplitsRows {α : Type} [ICursor α] (std : StdSort Exception) (engine : IStorageEngine α)
    (fuel : Nat) (source : SelectStatement) (p : Expression) (rows : List ResultRow) : Prop :=
  ∃ all yes no unknown,
    runSelect std engine fuel (filtered source none) = .ok all ∧
    runSelect std engine fuel (filtered source (some p)) = .ok yes ∧
    runSelect std engine fuel (filtered source (some (.unary .not p))) = .ok no ∧
    runSelect std engine fuel (filtered source (some (.isNull p false))) = .ok unknown ∧
    all.rows.Perm rows ∧ all.rows.Perm (yes.rows ++ no.rows ++ unknown.rows)

theorem exists_whereExpression {schema : Schema}
    (hbind : bindSelectOver schema source = .ok statement) {p : Expression}
    (hwhere : source.whereExpression = some p) :
    ∃ b, statement.whereExpression = some b ∧ bindExpression schema p = .ok b := by
  obtain ⟨items, -, hbind⟩ := Result.bind_eq_ok.mp hbind
  obtain ⟨whereExpression, hexpression, hbind⟩ := Result.bind_eq_ok.mp hbind
  obtain ⟨groupBy, -, hbind⟩ := Result.bind_eq_ok.mp hbind
  obtain ⟨orderBy, -, hbind⟩ := Result.bind_eq_ok.mp hbind
  obtain ⟨⟨⟩, -, hbind⟩ := Result.bind_eq_ok.mp hbind
  obtain ⟨⟨⟩, -, hbind⟩ := Result.bind_eq_ok.mp hbind
  rw [hwhere] at hexpression
  obtain ⟨b, hb, hexpression⟩ := Result.bind_eq_ok.mp hexpression
  cases hexpression
  cases hbind
  exact ⟨b, rfl, hb⟩

/-- Another Boolean WHERE binds beside the same rest. -/
theorem bindSelectOver_filtered {schema : Schema}
    (hbind : bindSelectOver schema source = .ok statement) {whereExpression : Option Expression}
    {bound : Option BoundExpression}
    (hbound : whereExpression.mapM (bindExpression schema) = .ok bound)
    (hboolean : ∀ b ∈ bound, b.type = .boolean) :
    bindSelectOver schema (filtered source whereExpression) =
      .ok { statement with whereExpression := bound } := by
  obtain ⟨items, hitems, hbind⟩ := Result.bind_eq_ok.mp hbind
  obtain ⟨_, -, hbind⟩ := Result.bind_eq_ok.mp hbind
  obtain ⟨groupBy, hgroupBy, hbind⟩ := Result.bind_eq_ok.mp hbind
  obtain ⟨orderBy, horderBy, hbind⟩ := Result.bind_eq_ok.mp hbind
  obtain ⟨⟨⟩, -, hbind⟩ := Result.bind_eq_ok.mp hbind
  obtain ⟨⟨⟩, hgrouped, hbind⟩ := Result.bind_eq_ok.mp hbind
  cases hbind
  have hvalid : validateWhere {
      tableName := source.tableName, schema := schema, selectItems := items.flatten
      whereExpression := bound, groupByItems := groupBy, orderByItems := orderBy
      limit := source.limit } = .ok () := by
    unfold validateWhere
    rw [if_neg]
    intro hany
    obtain ⟨b, hb, hne⟩ := (Option.any_eq_true _ _).mp hany
    exact of_decide_eq_true hne (hboolean b hb)
  simp only [bindSelectOver, filtered, hitems, hbound, hgroupBy, horderBy, Result.ok_bind, hvalid]
  exact Result.bind_eq_ok.mpr ⟨(), hgrouped, rfl⟩

/-- A plain SELECT on rows without errors, from its run to its answer. -/
private theorem runs_answers {rows : List Row} {schema : Schema} {tree : LSMTree}
    (hstores : Stores tree rows) (hnumbers : Numbers rows)
    (htable : tables statement.tableName = some tree) (hschema : tree.schema = schema)
    (hkeyed : schema.WellFormed) (hbound : Bound schema statement)
    (hplain : hasAggregateSelectItems statement = false ∧ statement.groupByItems = [])
    (hlimit : statement.limit = none) (hliterals : (buildDataSkippingFilter statement).Ordered)
    {plan : KeyPlan} (hplan : planConjuncts statement.schema {} (conjuncts statement) = .ok plan)
    (hgood : ∀ row ∈ rows, GoodRow schema statement row) (hfuel : rows.length ≤ fuel) :
    ∃ result, executeSelect std (lsmStorageEngine tables) fuel statement = .ok result ∧
      Answers statement rows result := by
  subst hschema
  have hserves := skipsRows_lsm hstores hnumbers htable
  have hfrom := hserves.answersFrom hbound hkeyed hplain hlimit hliterals hstores.valid hnumbers
  have hevaluates : ∀ row ∈ rows, Evaluates statement row := fun row hrow =>
    evaluates_of_goodRow hbound hplain.1 (hgood row hrow)
  obtain ⟨result, hrun⟩ := hfrom.returns std fuel plan hplan hevaluates hfuel
  exact ⟨result, hrun, hfrom.answers std fuel result hrun⟩

theorem goodRow_filtered {schema : Schema} {row : Row}
    (h : GoodRow schema statement row) {bound : Option BoundExpression}
    (hbound : ∀ b ∈ bound, ∃ v, evaluateExpression (rowValue row) b = .ok v) :
    GoodRow schema { statement with whereExpression := bound } row := by
  refine ⟨h.valid, h.noNaN, ?_⟩
  intro e he
  unfold BoundSelectStatement.expressions at he
  simp only [List.mem_append, or_assoc] at he
  rcases he with he | he | he | he
  · apply h.evaluates
    unfold BoundSelectStatement.expressions
    exact List.mem_append_left _ (List.mem_append_left _ (List.mem_append_left _ he))
  · exact hbound e (Option.mem_toList.mp he)
  · exact h.evaluates e (GoodRow.groupBy_mem he)
  · apply h.evaluates
    unfold BoundSelectStatement.expressions
    exact List.mem_append_right _ he

/-- A WHERE that is no comparison of a column with a literal plans a full scan and no
filter. -/
private theorem unplanned {b : BoundExpression} (hshape : collectConjuncts b = [b])
    (hcomparison : columnComparison b = none) :
    planConjuncts statement.schema {}
        (conjuncts { statement with whereExpression := some b }) = .ok {} ∧
      (buildDataSkippingFilter { statement with whereExpression := some b }).Ordered := by
  have hconjuncts : conjuncts { statement with whereExpression := some b } = [b] := hshape
  constructor
  · rw [hconjuncts]
    simp [planConjuncts, planConjunct, hcomparison]
  · intro predicate hpredicate
    obtain ⟨conjunct, hconjunct, hmade⟩ := List.mem_filterMap.mp hpredicate
    rw [hconjuncts, List.mem_singleton] at hconjunct
    subst hconjunct
    simp [skippingPredicate, hcomparison] at hmade

/-- One of three tests passes on every item. -/
private theorem filter_three_perm {α : Type} {items : List α} {p q r : α → Bool}
    (hq : ∀ a ∈ items, q a = true → p a = false)
    (hr : ∀ a ∈ items, r a = (!p a && !q a)) :
    items.Perm (items.filter p ++ items.filter q ++ items.filter r) := by
  have hrest : (items.filter fun a => !p a).filter q = items.filter q := by
    rw [List.filter_filter]
    apply List.filter_congr
    intro a ha
    cases hqa : q a with
    | false => rfl
    | true => rw [hq a ha hqa, Bool.not_false, Bool.and_true]
  have hlast : (items.filter fun a => !p a).filter (fun a => !q a) = items.filter r := by
    rw [List.filter_filter]
    apply List.filter_congr
    intro a ha
    rw [hr a ha, Bool.and_comm]
  have hfirst := (List.filter_append_perm p items).symm
  have hsecond := (List.filter_append_perm q (items.filter fun a => !p a)).symm
  rw [hrest, hlast] at hsecond
  rw [List.append_assoc]
  exact hfirst.trans (hsecond.append_left _)

/-- The value of a Boolean expression decides which of the three statements has the row. -/
private theorem holds_three {schema : Schema} {row : Row} {b : BoundExpression}
    (hrow : ValidRow schema row) (htyped : WellTyped schema b) (hboolean : b.type = .boolean)
    {v : NullableResultValue} (hv : evaluateExpression (rowValue row) b = .ok v) :
    (∃ u, evaluateExpression (rowValue row) (.unary .not b) = .ok u) ∧
      (∃ u, evaluateExpression (rowValue row) (.isNull b false) = .ok u) ∧
      (holds { statement with whereExpression := some (.unary .not b) } row = true →
        holds { statement with whereExpression := some b } row = false) ∧
      holds { statement with whereExpression := some (.isNull b false) } row =
        (!holds { statement with whereExpression := some b } row &&
          !holds { statement with whereExpression := some (.unary .not b) } row) := by
  have hvalue := hasStaticType_evaluateExpression hrow htyped hv
  rw [hboolean] at hvalue
  have hnot : ∀ u, evaluateExpression (rowValue row) (.unary .not b) = .ok u →
      evaluatePredicate (rowValue row) (.unary .not b) = .ok (u == some (.bool true)) :=
    fun u hu => evaluatePredicate_of_ok (e := .unary .not b) hrow htyped rfl hu
  have hnull : ∀ u, evaluateExpression (rowValue row) (.isNull b false) = .ok u →
      evaluatePredicate (rowValue row) (.isNull b false) = .ok (u == some (.bool true)) :=
    fun u hu => evaluatePredicate_of_ok (e := .isNull b false) hrow htyped rfl hu
  have hself := evaluatePredicate_of_ok hrow htyped hboolean hv
  rcases hasStaticType_bool hvalue with rfl | ⟨x, rfl⟩
  · have hu : evaluateExpression (rowValue row) (.unary .not b) = .ok none := by
      simp [evaluateExpression, hv, booleanOperand]
    have hw : evaluateExpression (rowValue row) (.isNull b false) = .ok (some (.bool true)) := by
      simp [evaluateExpression, hv]
    refine ⟨⟨_, hu⟩, ⟨_, hw⟩, ?_, ?_⟩
    · simp [holds, passesWhere, hself, valueOr]
    · simp [holds, passesWhere, hself, hnot _ hu, hnull _ hw, valueOr]
  · have hu : evaluateExpression (rowValue row) (.unary .not b) = .ok (some (.bool !x)) := by
      simp [evaluateExpression, hv, booleanOperand]
    have hw : evaluateExpression (rowValue row) (.isNull b false) = .ok (some (.bool false)) := by
      simp [evaluateExpression, hv]
    refine ⟨⟨_, hu⟩, ⟨_, hw⟩, ?_, ?_⟩
    · simp [holds, passesWhere, hself, hnot _ hu, valueOr]
    · cases x <;> simp [holds, passesWhere, hself, hnot _ hu, hnull _ hw, valueOr]

/-- The statement with another WHERE runs as well when that raises no error either. -/
private theorem runs_filtered (h : Reached tables source.tableName start s)
    (std : StdSort Exception) {rows : List Row} (hrows : RowsOf s rows)
    {whereExpression : Option Expression}
    {bound : Option BoundExpression} {plan : KeyPlan}
    (hover : bindSelectOver s.tree.schema (filtered source whereExpression) =
      .ok { statement with whereExpression := bound })
    (hname : statement.tableName = source.tableName)
    (hplain : hasAggregateSelectItems statement = false ∧ statement.groupByItems = [])
    (hlimit : statement.limit = none)
    (hplan : planConjuncts statement.schema {}
        (conjuncts { statement with whereExpression := bound }) = .ok plan ∧
      (buildDataSkippingFilter { statement with whereExpression := bound }).Ordered)
    (hgood : ∀ row ∈ rows, GoodRow s.tree.schema { statement with whereExpression := bound } row)
    (hfuel : rows.length ≤ fuel) :
    ∃ result, runSelect std (lsmStorageEngine tables) fuel (filtered source whereExpression) =
        .ok result ∧
      result.rows.Perm
        ((passing { statement with whereExpression := bound } rows).map (output statement)) := by
  obtain ⟨hkeyed, -, -, -⟩ := h.exists_rows
  have htable : tables { statement with whereExpression := bound }.tableName = some s.tree :=
    hname ▸ h.table
  have hnumbers : Numbers rows := h.numbers.sub hrows.inserted.subset
  obtain ⟨result, hrun, hanswers⟩ := runs_answers hrows.stores hnumbers htable rfl hkeyed
    (bound_bindSelectOver hover) hplain hlimit hplan.2 hplan.1 hgood hfuel
  refine ⟨result, ?_, hanswers.perm⟩
  have hreached : Reached tables (filtered source whereExpression).tableName start s := h
  rw [runSelect, hreached.bindSelect_eq, hover, Result.ok_bind]
  exact hrun

/-- On rows that raise no error the three conditions split the result. -/
theorem splitsRows_of_goodRow (h : Reached tables source.tableName start s) {rows : List Row}
    (hrows : RowsOf s rows) {p : Expression} (hwhere : source.whereExpression = some p)
    (hbind : bindSelect (lsmStorageEngine tables) source = .ok statement)
    (hplain : hasAggregateSelectItems statement = false ∧ statement.groupByItems = [])
    (hlimit : statement.limit = none) (hliterals : (buildDataSkippingFilter statement).Ordered)
    {plan : KeyPlan} (hplan : planConjuncts statement.schema {} (conjuncts statement) = .ok plan)
    (hgood : ∀ row ∈ rows, GoodRow s.tree.schema statement row) (hlength : rows.length ≤ fuel) :
    SplitsRows std (lsmStorageEngine tables) fuel source p (rows.map (output statement)) := by
  obtain ⟨hbound, hname⟩ := h.bound hbind
  have hover : bindSelectOver s.tree.schema source = .ok statement := h.bindSelect_eq ▸ hbind
  obtain ⟨b, hb, hbe⟩ := exists_whereExpression hover hwhere
  obtain ⟨htyped, hboolean⟩ := hbound.whereTyped b hb
  have hstatement : { statement with whereExpression := some b } = statement := by
    rw [← hb]
  have hbmem : b ∈ statement.expressions := by
    simp [BoundSelectStatement.expressions, hb]
  have hvalue : ∀ row ∈ rows, evaluateExpression (rowValue row) b = .ok (valueOn row b) :=
    fun row hrow => (hgood row hrow).valueOn_eq hbmem
  have hthree : ∀ row ∈ rows, _ := fun row hrow =>
    @holds_three statement _ row b (hrows.stores.valid row hrow) htyped hboolean _ (hvalue row hrow)
  have htable : tables statement.tableName = some s.tree := by
    rw [hname]
    exact h.table
  -- The four statements as the binder makes them.
  have hbindNone : bindSelectOver s.tree.schema (filtered source none) =
      .ok { statement with whereExpression := none } :=
    bindSelectOver_filtered hover rfl (by simp)
  have hbindNot : bindSelectOver s.tree.schema (filtered source (some (.unary .not p))) =
      .ok { statement with whereExpression := some (.unary .not b) } := by
    apply bindSelectOver_filtered hover
    · simp [bindExpression, hbe]
    · intro e he
      cases he
      rfl
  have hbindNull : bindSelectOver s.tree.schema (filtered source (some (.isNull p false))) =
      .ok { statement with whereExpression := some (.isNull b false) } := by
    apply bindSelectOver_filtered hover
    · simp [bindExpression, hbe]
    · intro e he
      cases he
      rfl
  have hself : bindSelectOver s.tree.schema (filtered source (some p)) =
      .ok { statement with whereExpression := some b } := by
    rw [filtered, ← hwhere, hstatement]
    exact hover
  have hnoPlan : planConjuncts statement.schema {}
        (conjuncts { statement with whereExpression := none }) = .ok {} ∧
      (buildDataSkippingFilter { statement with whereExpression := none }).Ordered := by
    refine ⟨rfl, ?_⟩
    intro predicate hpredicate
    cases hpredicate
  -- Each of them runs.
  obtain ⟨all, hall, hallRows⟩ := runs_filtered h std hrows hbindNone hname hplain hlimit hnoPlan
    (fun row hrow => goodRow_filtered (hgood row hrow) (by simp)) hlength
  obtain ⟨yes, hyes, hyesRows⟩ := runs_filtered h std hrows hself hname hplain hlimit
    (by rw [hstatement]; exact ⟨hplan, hliterals⟩)
    (fun row hrow => by rw [hstatement]; exact hgood row hrow) hlength
  obtain ⟨no, hno, hnoRows⟩ := runs_filtered h std hrows hbindNot hname hplain hlimit
    (unplanned rfl rfl)
    (fun row hrow => goodRow_filtered (hgood row hrow) (by simpa using (hthree row hrow).1)) hlength
  obtain ⟨unknown, hunknown, hunknownRows⟩ := runs_filtered h std hrows hbindNull hname hplain
    hlimit (unplanned rfl rfl)
    (fun row hrow => goodRow_filtered (hgood row hrow) (by simpa using (hthree row hrow).2.1))
    hlength
  have hallPassing : passing { statement with whereExpression := none } rows = rows :=
    List.filter_eq_self.mpr fun row _ => rfl
  rw [hallPassing] at hallRows
  refine ⟨all, yes, no, unknown, hall, hyes, hno, hunknown, hallRows, ?_⟩
  have hparts := filter_three_perm (fun row hrow => (hthree row hrow).2.2.1)
    (fun row hrow => (hthree row hrow).2.2.2)
  have hmapped := hparts.map (output statement)
  rw [List.map_append, List.map_append] at hmapped
  exact (hallRows.trans hmapped).trans ((hyesRows.append hnoRows).append hunknownRows).symm

/-- The rows of a SELECT without WHERE are those of the same SELECT with `WHERE p`, with
`WHERE NOT p` and with `WHERE p IS NULL` together, each once, although the first of the
three may look up a key, scan a range or skip blocks and the others scan everything. `p` has
to be planned and to evaluate on every row. -/
theorem ternary_partition (h : Reached tables source.tableName start s)
    {p : Expression} (hwhere : source.whereExpression = some p)
    (hbind : bindSelect (lsmStorageEngine tables) source = .ok statement)
    (hplain : hasAggregateSelectItems statement = false ∧ statement.groupByItems = [])
    (hlimit : statement.limit = none) (hliterals : (buildDataSkippingFilter statement).Ordered)
    {plan : KeyPlan} (hplan : planConjuncts statement.schema {} (conjuncts statement) = .ok plan)
    (hevaluates : ∀ row ∈ s.inserted, ∀ e ∈ statement.expressions,
      ∃ v, evaluateExpression (rowValue row) e = .ok v)
    (hfuel : s.inserted.length ≤ fuel) :
    ∃ rows, RowsOf s rows ∧
      SplitsRows std (lsmStorageEngine tables) fuel source p (rows.map (output statement)) := by
  obtain ⟨-, rows, hrows, hnumbers⟩ := h.exists_rows
  have hgood : ∀ row ∈ rows, GoodRow s.tree.schema statement row := fun row hrow =>
    ⟨hrows.stores.valid row hrow, hnumbers row hrow,
      hevaluates row (hrows.inserted.subset hrow)⟩
  have hlength : rows.length ≤ fuel := hrows.inserted.length_le.trans hfuel
  exact ⟨rows, hrows, splitsRows_of_goodRow h hrows hwhere hbind hplain hlimit hliterals hplan
    hgood hlength⟩

theorem ternary_partition_pairs : ∃ s, TwoTables s [pairRow (3, 30)] ∧ ∃ rows, RowsOf s rows ∧
    SplitsRows (.insertion Exception) (lsmStorageEngine (onlyTable pairTable s)) 3 selectIdAbove
      (.binary .greater (.column [118]) (.intLiteral 15))
      (rows.map (output boundSelectIdAbove)) := by
  obtain ⟨s, -, hrun, hflushed, -, -⟩ := exists_reopenedPairs
  have hinserted := hflushed.inserted.trans inserted_threePairs.symm
  have hreached : Reached _ selectIdAbove.tableName _ s := reached_threePairs hrun hinserted
  have hplan : planConjuncts boundSelectIdAbove.schema {} (conjuncts boundSelectIdAbove) =
      .ok {} := rfl
  have hevaluates : ∀ row ∈ s.inserted, ∀ e ∈ boundSelectIdAbove.expressions,
      ∃ v, evaluateExpression (rowValue row) e = .ok v := by
    rw [hflushed.inserted]
    exact evaluates_selectIdAbove [(2, 20), (1, 10), (3, 30)]
  have hfuel : s.inserted.length ≤ 3 := by
    rw [hflushed.inserted]
    exact le_rfl
  exact ⟨s, hflushed, ternary_partition hreached rfl (bindSelect_flushed hreached hrun) ⟨rfl, rfl⟩
    rfl ordered_selectIdAbove hplan hevaluates hfuel⟩

end Htap.Properties
