import Htap.Executor.Consistent
import Htap.Properties.Limit

/-!
Key pushdown. The executor turns the conjuncts of WHERE into a lookup, a range or nothing at
all, and takes the literals that the key is compared with to be INT64, which the evaluation of
the same conjuncts does not require.
-/

namespace Htap.Properties

open Storage Htap.Parser SSTable Read Cursor Executor

variable {α : Type} [ICursor α] {std : StdSort Exception} {engine : IStorageEngine α}
  {fuel : Nat} {schema : Schema} {statement : BoundSelectStatement} {rows : List Row}

/-- What the conjunct compares the key with, and whether the key is on the left. -/
def keyComparison (schema : Schema) (conjunct : BoundExpression) :
    Option (BinaryOperation × NullableValue × Bool) :=
  match columnComparison conjunct with
  | none => none
  | some (operation, i, value, columnOnLeft) =>
    match schema.columns[i]? with
    | none => none
    | some column => if column.isKey then some (operation, value, columnOnLeft) else none

/-- The conjunct is `key = k`, from either side. -/
def EqualsKey (schema : Schema) (k : Key) (conjunct : BoundExpression) : Prop :=
  ∃ columnOnLeft, keyComparison schema conjunct = some (.equal, some (.int64 k), columnOnLeft)

/-- No row passes this conjunct together with those before it: it compares the key with NULL,
or asks for a key above the greatest, or for another key than one of them. -/
inductive LeavesNone (schema : Schema) (before : List BoundExpression)
    (conjunct : BoundExpression) : Prop
  | null {operation : BinaryOperation} {columnOnLeft : Bool}
    (h : keyComparison schema conjunct = some (operation, none, columnOnLeft))
  | above (h : keyComparison schema conjunct =
      some (.greater, some (.int64 Int64.maxValue), true) ∨
    keyComparison schema conjunct = some (.less, some (.int64 Int64.maxValue), false))
  | other {k k' : Key} (h : EqualsKey schema k conjunct) (hne : k' ≠ k)
    (h' : ∃ e ∈ before, EqualsKey schema k' e)

/-- The key is compared with INT64 literals and with NULL alone, up to a conjunct that leaves
no row. -/
def ComparesKeys (schema : Schema) (before es : List BoundExpression) : Prop :=
  ∀ between e after, es = between ++ e :: after → MistypesKey schema e →
    ∃ earlier last later, between = earlier ++ last :: later ∧
      LeavesNone schema (before ++ earlier) last

/-! ## Planning -/

section Plan

variable (plan : KeyPlan) (k : Key)

@[simp] private theorem pointKey_atLeast : (plan.atLeast k).pointKey = plan.pointKey := by
  unfold KeyPlan.atLeast
  split <;> rfl

@[simp] private theorem pointKey_below : (plan.below k).pointKey = plan.pointKey := by
  unfold KeyPlan.below
  split <;> rfl

@[simp] private theorem pointKey_atMost : (plan.atMost k).pointKey = plan.pointKey := by
  unfold KeyPlan.atMost
  split <;> simp

@[simp] private theorem pointKey_greaterThan : (plan.greaterThan k).pointKey = plan.pointKey := by
  unfold KeyPlan.greaterThan
  split <;> simp

@[simp] private theorem emptyResult_atLeast : (plan.atLeast k).emptyResult = plan.emptyResult := by
  unfold KeyPlan.atLeast
  split <;> rfl

@[simp] private theorem emptyResult_below : (plan.below k).emptyResult = plan.emptyResult := by
  unfold KeyPlan.below
  split <;> rfl

@[simp] private theorem emptyResult_atMost : (plan.atMost k).emptyResult = plan.emptyResult := by
  unfold KeyPlan.atMost
  split <;> simp

private theorem emptyResult_greaterThan (hopen : plan.emptyResult = false) :
    (plan.greaterThan k).emptyResult = true ↔ k = Int64.maxValue := by
  unfold KeyPlan.greaterThan
  by_cases hmax : k = Int64.maxValue <;> simp [hmax, hopen]

private theorem emptyResult_equalTo (hopen : plan.emptyResult = false) :
    (plan.equalTo k).emptyResult = true ↔ ∃ k', plan.pointKey = some k' ∧ k' ≠ k := by
  unfold KeyPlan.equalTo
  cases hpoint : plan.pointKey with
  | none => simp [hopen]
  | some point => by_cases hsame : point = k <;> simp [hsame, hopen]

private theorem pointKey_equalTo :
    (plan.equalTo k).pointKey = some (plan.pointKey.getD k) := by
  unfold KeyPlan.equalTo
  cases hpoint : plan.pointKey with
  | none => simp
  | some point => by_cases hsame : point = k <;> simp [hsame, hpoint]

/-- What empties a plan. -/
private theorem emptyResult_addComparison (hopen : plan.emptyResult = false)
    (operation : BinaryOperation) (columnOnLeft : Bool) :
    (plan.addComparison operation columnOnLeft k).emptyResult = true ↔
      (operation = .equal ∧ ∃ k', plan.pointKey = some k' ∧ k' ≠ k) ∨
      k = Int64.maxValue ∧ ((operation = .greater ∧ columnOnLeft = true) ∨
        (operation = .less ∧ columnOnLeft = false)) := by
  have hranged : ({ plan with foundRange := true } : KeyPlan).emptyResult = false := hopen
  cases operation <;> cases columnOnLeft <;>
    simp [KeyPlan.addComparison, emptyResult_equalTo, emptyResult_greaterThan, hopen]

private theorem pointKey_addComparison (operation : BinaryOperation) (columnOnLeft : Bool) :
    (plan.addComparison operation columnOnLeft k).pointKey =
      if operation = .equal then some (plan.pointKey.getD k) else plan.pointKey := by
  cases operation <;> cases columnOnLeft <;> simp [KeyPlan.addComparison, pointKey_equalTo]

end Plan

/-- One round of the loop, told by the comparison alone. -/
private theorem planConjunct_eq {e : BoundExpression} (hwell : WellTyped schema e)
    (plan : KeyPlan) : planConjunct schema plan e =
      match keyComparison schema e with
      | none => .ok plan
      | some (_, none, _) => .ok { plan with emptyResult := true }
      | some (operation, some (.int64 key), columnOnLeft) =>
        .ok (plan.addComparison operation columnOnLeft key)
      | some _ => .error .badVariantAccess := by
  unfold planConjunct keyComparison
  cases hcomparison : columnComparison e with
  | none => rfl
  | some comparison =>
    obtain ⟨operation, i, value, columnOnLeft⟩ := comparison
    obtain ⟨column, hcolumn⟩ := column_of_comparison hwell hcomparison
    have hget : schema.getColumn i = .ok column := by simp [Schema.getColumn, hcolumn]
    cases hkey : column.isKey with
    | false => simp [hget, hcolumn, hkey]
    | true =>
      rcases value with _ | (_ | _ | _) <;> simp [hget, hcolumn, hkey]

private theorem mistypesKey_iff {e : BoundExpression} : MistypesKey schema e ↔
    ∃ operation value columnOnLeft, keyComparison schema e =
      some (operation, some value, columnOnLeft) ∧ ∀ key, value ≠ .int64 key := by
  unfold MistypesKey keyComparison
  constructor
  · rintro ⟨operation, i, value, columnOnLeft, hcomparison, ⟨column, hcolumn, hkey⟩, hsome, hnot⟩
    obtain ⟨value, rfl⟩ := Option.ne_none_iff_exists'.mp hsome
    refine ⟨operation, value, columnOnLeft, by simp [hcomparison, hcolumn, hkey], ?_⟩
    intro key heq
    exact hnot key (congrArg some heq)
  · rintro ⟨operation, value, columnOnLeft, hcomparison, hnot⟩
    split at hcomparison
    · cases hcomparison
    · rename_i operation' i value' columnOnLeft' hcolumns
      split at hcomparison
      · cases hcomparison
      · rename_i column hcolumn
        split at hcomparison
        · rename_i hkey
          cases hcomparison
          exact ⟨operation, i, some value, columnOnLeft, hcolumns, ⟨column, hcolumn, hkey⟩,
            by simp, fun key heq => hnot key (Option.some.inj heq)⟩
        · cases hcomparison

/-- The lookup of the plan is what the conjuncts so far ask for. -/
private def Looks (schema : Schema) (before : List BoundExpression) (plan : KeyPlan) : Prop :=
  ∀ k, plan.pointKey = some k ↔ ∃ e ∈ before, EqualsKey schema k e

/-- One round fails on a mistyped literal, stops where no row is left, and goes on otherwise. -/
private theorem planConjunct_spec {e : BoundExpression} (hwell : WellTyped schema e)
    {before : List BoundExpression} {plan : KeyPlan} (hlooks : Looks schema before plan)
    (hopen : plan.emptyResult = false) :
    (MistypesKey schema e ∧ ∃ x, planConjunct schema plan e = .error x) ∨
      ¬MistypesKey schema e ∧ ∃ next, planConjunct schema plan e = .ok next ∧
        (next.emptyResult = true ↔ LeavesNone schema before e) ∧
        (next.emptyResult = false → Looks schema (before ++ [e]) next) := by
  rw [planConjunct_eq hwell, mistypesKey_iff]
  cases hcomparison : keyComparison schema e with
  | none =>
    refine Or.inr ⟨by simp, plan, rfl, ?_, fun _ k => ?_⟩
    · refine iff_of_false (by simp [hopen]) ?_
      rintro (h | h | ⟨⟨_, h⟩, -, -⟩) <;> simp [hcomparison] at h
    · rw [hlooks k]
      simp [EqualsKey, hcomparison]
  | some comparison =>
    obtain ⟨operation, value, columnOnLeft⟩ := comparison
    match value with
    | some (.double d) => exact Or.inl ⟨⟨_, _, _, rfl, by simp⟩, _, rfl⟩
    | some (.string s) => exact Or.inl ⟨⟨_, _, _, rfl, by simp⟩, _, rfl⟩
    | none =>
      refine Or.inr ⟨by simp, _, rfl, iff_of_true rfl (.null hcomparison), ?_⟩
      intro h
      cases h
    | some (.int64 key) =>
      have hequals : ∀ k, EqualsKey schema k e ↔ operation = .equal ∧ key = k := by
        intro k
        simp [EqualsKey, hcomparison]
      refine Or.inr ⟨by simp, _, rfl, ?_, ?_⟩
      · rw [emptyResult_addComparison plan key hopen]
        constructor
        · rintro (⟨rfl, k', hpoint, hne⟩ | ⟨rfl, ⟨rfl, rfl⟩ | ⟨rfl, rfl⟩⟩)
          · exact .other ((hequals key).mpr ⟨rfl, rfl⟩) hne ((hlooks k').mp hpoint)
          · exact .above (Or.inl hcomparison)
          · exact .above (Or.inr hcomparison)
        · rintro (h | h | ⟨h, hne, h'⟩)
          · simp [hcomparison] at h
          · simp only [hcomparison, Option.some.injEq, Prod.mk.injEq, Value.int64.injEq] at h
            rcases h with ⟨rfl, rfl, rfl⟩ | ⟨rfl, rfl, rfl⟩ <;> simp
          · obtain ⟨rfl, rfl⟩ := (hequals _).mp h
            exact Or.inl ⟨rfl, _, (hlooks _).mpr h', hne⟩
      · intro hstill k
        rw [pointKey_addComparison]
        have hnot : ¬(operation = .equal ∧ ∃ k', plan.pointKey = some k' ∧ k' ≠ key) := by
          intro h
          have hempty := (emptyResult_addComparison plan key hopen operation columnOnLeft).mpr
            (Or.inl h)
          rw [hstill] at hempty
          cases hempty
        simp only [List.mem_append, List.mem_singleton, or_and_right, exists_or, exists_eq_left,
          ← hlooks k, hequals k]
        by_cases hop : operation = .equal
        · cases hpoint : plan.pointKey with
          | none => simp [hop]
          | some point =>
            have hsame : point = key := by
              by_contra hne
              exact hnot ⟨hop, point, hpoint, hne⟩
            simp [hop, hsame]
        · simp [hop]

/-- Planning returns exactly where the key is compared with what `std::get` takes. -/
private theorem planConjuncts_returns_iff {es : List BoundExpression}
    (hwell : ∀ e ∈ es, WellTyped schema e) {before : List BoundExpression} {plan : KeyPlan}
    (hlooks : Looks schema before plan) (hopen : plan.emptyResult = false) :
    (∃ next, planConjuncts schema plan es = .ok next) ↔ ComparesKeys schema before es := by
  induction es generalizing before plan with
  | nil =>
    refine iff_of_true ⟨plan, rfl⟩ ?_
    intro between e after heq
    simp at heq
  | cons e es ih =>
    have hrest : ∀ e' ∈ es, WellTyped schema e' := fun e' he' =>
      hwell e' (List.mem_cons_of_mem e he')
    rw [planConjuncts]
    rcases planConjunct_spec (hwell e List.mem_cons_self) hlooks hopen with
      ⟨hmistypes, x, hfails⟩ | ⟨hfits, next, hnext, hempty, hgoes⟩
    · rw [hfails]
      refine iff_of_false (by simp) ?_
      intro h
      obtain ⟨earlier, last, later, heq, -⟩ := h [] e es rfl hmistypes
      simp at heq
    · rw [hnext, Result.ok_bind]
      cases hstops : next.emptyResult with
      | true =>
        -- Whatever comes behind is not looked at.
        refine iff_of_true ⟨next, by simp⟩ ?_
        intro between e' after heq hmistypes
        cases between with
        | nil =>
          obtain rfl := (List.cons.inj heq).1
          exact absurd hmistypes hfits
        | cons first between =>
          obtain rfl := (List.cons.inj heq).1
          exact ⟨[], e, between, rfl, by simpa using hempty.mp hstops⟩
      | false =>
        have hgone : ¬LeavesNone schema before e := fun h => by simp [hempty.mpr h] at hstops
        simp only [Bool.false_eq_true, if_false]
        rw [ih hrest (hgoes hstops) hstops]
        constructor
        · intro h between e' after heq hmistypes
          cases between with
          | nil =>
            obtain rfl := (List.cons.inj heq).1
            exact absurd hmistypes hfits
          | cons first between =>
            obtain ⟨rfl, hes⟩ := List.cons.inj heq
            obtain ⟨earlier, last, later, rfl, hleaves⟩ := h between e' after hes hmistypes
            exact ⟨e :: earlier, last, later, rfl, by simpa using hleaves⟩
        · intro h between e' after heq hmistypes
          obtain ⟨earlier, last, later, hbetween, hleaves⟩ :=
            h (e :: between) e' after (by rw [heq]; rfl) hmistypes
          cases earlier with
          | nil =>
            obtain rfl := (List.cons.inj hbetween).1
            exact absurd (by simpa using hleaves) hgone
          | cons first earlier =>
            obtain ⟨rfl, hrest⟩ := List.cons.inj hbetween
            exact ⟨earlier, last, later, hrest, by simpa using hleaves⟩

/-! ## The result -/

/-- The SELECT returns the outputs of exactly the rows on which WHERE is true. -/
def ReturnsPassing (std : StdSort Exception) (engine : IStorageEngine α) (fuel : Nat)
    (statement : BoundSelectStatement) (rows : List Row) : Prop :=
  ∃ result, executeSelect std engine fuel statement = .ok result ∧
    result.rows.Perm ((passing statement rows).map (output statement))

/-- A SELECT on whose condition no row fails returns the rows that pass it, exactly where the
planner is shown no literal for the key but INT64 and NULL, and no select item fails on a row
that passes. The engine is any that serves the table, with any contents. -/
theorem key_pushdown_exact_iff {source : SelectStatement} (hschema : schema.FromBuilder)
    (hbind : bindSelectOver schema source = .ok statement)
    (hplain : hasAggregateSelectItems statement = false ∧ statement.groupByItems = [])
    (hlimit : statement.limit = none) (horder : statement.orderByItems = [])
    (hserves : ServesTable engine statement.tableName schema rows)
    (hrows : ∀ row ∈ rows, ValidRow schema row)
    (hwhere : ∀ row ∈ rows, ∃ b, passesWhere statement (rowValue row) = .ok b)
    (hfuel : rows.length ≤ fuel) :
    ReturnsPassing std engine fuel statement rows ↔
      ComparesKeys schema [] (conjuncts statement) ∧ ∀ row ∈ passing statement rows,
        ∃ out, statement.selectItems.mapM (plainItem (rowValue row)) = .ok out := by
  have hbound := bound_bindSelectOver hbind
  obtain ⟨hagg, hgroup⟩ := hplain
  obtain ⟨names, hnames⟩ := buildSelectColumnNames_ok hbound
  have hwell : statement.schema.WellFormed := hbound.schema_eq ▸ hschema.wellFormed
  have hvalid : ∀ row ∈ rows, ValidRow statement.schema row := hbound.schema_eq ▸ hrows
  have hdirect : (statement.orderByItems.isEmpty || isRequiredKeyAsc statement) = true := by
    simp [horder]
  have hplans : (∃ plan, planConjuncts statement.schema {} (conjuncts statement) = .ok plan) ↔
      ComparesKeys schema [] (conjuncts statement) := by
    have hlooks : Looks statement.schema [] {} := by
      intro k
      simp
    rw [planConjuncts_returns_iff hbound.conjuncts hlooks rfl, hbound.schema_eq]
  rw [← hplans]
  unfold ReturnsPassing
  rw [executeSelect_plain hagg hgroup, hnames, Result.ok_bind]
  constructor
  · rintro ⟨result, hrun, -⟩
    obtain ⟨found, hfound, -⟩ := of_executePlainSelect hbound hserves hlimit hrun
    obtain ⟨plan, hplan, -⟩ := hfound.reached
    refine ⟨⟨plan, hplan⟩, ?_⟩
    intro row hrow
    have hpassing := (hfound.passing_perm hwell hvalid).mem_iff.mpr hrow
    obtain ⟨hmem, hholds⟩ := List.mem_filter.mp hpassing
    exact (hfound.outputs row hmem).items hholds
  · rintro ⟨⟨plan, hplan⟩, hitems⟩
    have houtputs : ∀ row ∈ rows, plan.access.reaches (rowKey row) = true →
        Outputs statement row := fun row hrow _ =>
      ⟨hwhere row hrow, fun hholds => hitems row (List.mem_filter.mpr ⟨hrow, hholds⟩)⟩
    obtain ⟨found, hfound, hrun⟩ := @executePlainSelect_direct _ _ std _ _ _ _ _ names hbound
      hserves hlimit _ hplan houtputs ((List.length_filter_le _ rows).trans hfuel) hdirect
      (canApplyEarlyLimit statement)
    exact ⟨_, hrun, (hfound.passing_perm hwell hvalid).map (output statement)⟩

/-- `SELECT id FROM t` with a comparison of `id` as WHERE. -/
def selectIdWhere (operation : BinaryOperation) (literal : Expression) : SelectStatement :=
  { selectId with whereExpression := some (.binary operation (.column [105, 100]) literal) }

/-- `SELECT id FROM t WHERE id >= 2`. -/
def boundSelectFromTwo : BoundSelectStatement :=
  { boundSelectId with
    whereExpression :=
      some (.binary .greaterEqual (.column 0 .int64) (.literal (some (.int64 2)) .int64)) }

/-- `SELECT id FROM t WHERE id = 2.0`. -/
def boundSelectDoubleTwo : BoundSelectStatement :=
  { boundSelectId with
    whereExpression := some (.binary .equal (.column 0 .int64)
      (.literal (some (.double ⟨0x4000000000000000⟩)) .double)) }

theorem key_pushdown_exact_iff_two_rows :
    ReturnsPassing (StdSort.insertion Exception) (pairEngine [(1, 10), (2, 20)]) 2
      boundSelectFromTwo ([(1, 10), (2, 20)].map pairRow) := by
  have hbind : bindSelectOver pairSchema (selectIdWhere .greaterEqual (.intLiteral 2)) =
      .ok boundSelectFromTwo := rfl
  have hserves : ServesTable (pairEngine [(1, 10), (2, 20)]) boundSelectFromTwo.tableName
      pairSchema ([(1, 10), (2, 20)].map pairRow) :=
    servesTable_pairEngine (by decide +kernel) (by decide +kernel)
  have hwhere : ∀ row ∈ [(1, 10), (2, 20)].map pairRow,
      ∃ b, passesWhere boundSelectFromTwo (rowValue row) = .ok b := by
    intro row hrow
    obtain ⟨pair, -, rfl⟩ := List.mem_map.mp hrow
    exact ⟨_, rfl⟩
  apply (key_pushdown_exact_iff pairSchema_fromBuilder hbind ⟨rfl, rfl⟩ rfl rfl hserves
    validRow_of_mem_pairs hwhere (by simp)).mpr
  constructor
  · intro between e after heq hmistypes
    have hmem : e ∈ conjuncts boundSelectFromTwo := heq ▸ by simp
    obtain rfl := List.mem_singleton.mp hmem
    obtain ⟨_, _, _, _, hcomparison, -, -, hnot⟩ := hmistypes
    cases hcomparison
    exact absurd rfl (hnot 2)
  · intro row hrow
    obtain ⟨pair, -, rfl⟩ := List.mem_map.mp (List.mem_filter.mp hrow).1
    exact ⟨_, rfl⟩

/-- `id = 2.0` is true on the second row, and `std::get` throws before any row is read. -/
theorem double_key_throws :
    bindSelectOver pairSchema (selectIdWhere .equal (.doubleLiteral ⟨0x4000000000000000⟩)) =
      .ok boundSelectDoubleTwo ∧
    (∀ row ∈ [(1, 10), (2, 20)].map pairRow,
      (passesWhere boundSelectDoubleTwo (rowValue row)).isOk) ∧
    passing boundSelectDoubleTwo ([(1, 10), (2, 20)].map pairRow) = [pairRow (2, 20)] ∧
    ServesTable (pairEngine [(1, 10), (2, 20)]) boundSelectDoubleTwo.tableName pairSchema
      ([(1, 10), (2, 20)].map pairRow) ∧
    executeSelect (StdSort.insertion Exception) (pairEngine [(1, 10), (2, 20)]) 2
      boundSelectDoubleTwo = .error .badVariantAccess := by
  refine ⟨rfl, ?_, ?_, servesTable_pairEngine ?_ ?_, ?_⟩ <;> decide +kernel

end Htap.Properties
