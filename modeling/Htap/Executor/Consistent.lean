import Htap.Executor.RowSemantics

/-!
When the evaluation of an expression fails. The binder gives every expression a type and
does not compare the types of operands, so NOT, AND, OR and the comparisons look at their
operands on every row. An expression whose types fit passes these checks on all rows.
-/

namespace Htap.Executor

open Storage Htap.Parser SSTable

/-! ## Errors -/

/-- What evaluating an expression on a row can raise. -/
def evaluationErrors : List Exception :=
  [incompatibleTypes, .runtimeError "AND expects BOOLEAN operands",
    .runtimeError "OR expects BOOLEAN operands", .runtimeError "Unary NOT expects BOOLEAN"]

variable {schema : Schema} {row : Row} {e : BoundExpression} {l r v : NullableResultValue}
  {x : Exception}

private theorem booleanOperand_error {what : String} (h : booleanOperand what v = .error x) :
    x = .runtimeError what := by
  match v, h with
  | some (.int64 _), h | some (.double _), h | some (.string _), h =>
    cases h
    rfl

private theorem evaluateAnd_error (h : evaluateAnd l r = .error x) : x ∈ evaluationErrors := by
  rcases Result.bind_eq_error.mp h with hl | ⟨a, -, h⟩
  · simp [booleanOperand_error hl, evaluationErrors]
  split at h
  · cases h
  rcases Result.bind_eq_error.mp h with hr | ⟨b, -, h⟩
  · simp [booleanOperand_error hr, evaluationErrors]
  split at h
  · cases h
  split at h <;> cases h

private theorem evaluateOr_error (h : evaluateOr l r = .error x) : x ∈ evaluationErrors := by
  rcases Result.bind_eq_error.mp h with hl | ⟨a, -, h⟩
  · simp [booleanOperand_error hl, evaluationErrors]
  split at h
  · cases h
  rcases Result.bind_eq_error.mp h with hr | ⟨b, -, h⟩
  · simp [booleanOperand_error hr, evaluationErrors]
  split at h
  · cases h
  split at h <;> cases h

private theorem comparisonHolds_ok {operation : BinaryOperation} (hand : operation ≠ .and)
    (hor : operation ≠ .or) (o : Ordering) : ∃ b, comparisonHolds operation o = .ok b := by
  cases operation with
  | and => exact absurd rfl hand
  | or => exact absurd rfl hor
  | equal | notEqual | less | lessEqual | greater | greaterEqual => exact ⟨_, rfl⟩

private theorem evaluateComparison_error {operation : BinaryOperation} (hand : operation ≠ .and)
    (hor : operation ≠ .or) (h : evaluateComparison operation l r = .error x) :
    x ∈ evaluationErrors := by
  unfold evaluateComparison at h
  split at h
  · rename_i a b
    rcases Result.bind_eq_error.mp h with hcompare | ⟨o, -, h⟩
    · have hx : x = incompatibleTypes := by
        cases a <;> cases b <;> cases hcompare <;> rfl
      simp [hx, evaluationErrors]
    · obtain ⟨b, hb⟩ := comparisonHolds_ok hand hor o
      rw [hb] at h
      cases h
  · cases h

/-- Only operands are checked, and every cell can be read. -/
theorem mem_evaluationErrors (h : evaluateExpression (rowValue row) e = .error x) :
    x ∈ evaluationErrors := by
  induction e with
  | literal _ _ | column _ _ => cases h
  | unary operation e ih =>
    cases operation with
    | not =>
      rcases Result.bind_eq_error.mp h with he | ⟨v, -, h⟩
      · exact ih he
      rcases Result.bind_eq_error.mp h with hoperand | ⟨b, -, h⟩
      · simp [booleanOperand_error hoperand, evaluationErrors]
      · cases h
  | binary operation left right ihl ihr =>
    rcases Result.bind_eq_error.mp h with hl | ⟨l, -, h⟩
    · exact ihl hl
    rcases Result.bind_eq_error.mp h with hr | ⟨r, -, h⟩
    · exact ihr hr
    cases operation with
    | and => exact evaluateAnd_error h
    | or => exact evaluateOr_error h
    | equal | notEqual | less | lessEqual | greater | greaterEqual =>
      exact evaluateComparison_error (by simp) (by simp) h
  | isNull e isNot ih =>
    rcases Result.bind_eq_error.mp h with he | ⟨v, -, h⟩
    · exact ih he
    · cases h

/-! ## Expressions whose types fit -/

/-- Values of the type are truth values or NULL. -/
def ExpressionType.isTruth : ExpressionType → Bool
  | .boolean | .null => true
  | .string | .int64 | .double => false

/-- Values of the two types can be compared. -/
def ExpressionType.comparesWith : ExpressionType → ExpressionType → Bool
  | .null, _ | _, .null => true
  | .string, .string | .boolean, .boolean => true
  | .int64, .int64 | .int64, .double | .double, .int64 | .double, .double => true
  | _, _ => false

/-- The operands of every operator have types that it takes. -/
def BoundExpression.consistent : BoundExpression → Bool
  | .literal _ _ | .column _ _ => true
  | .unary .not e => e.consistent && e.type.isTruth
  | .binary .and l r | .binary .or l r =>
    l.consistent && r.consistent && l.type.isTruth && r.type.isTruth
  | .binary _ l r => l.consistent && r.consistent && l.type.comparesWith r.type
  | .isNull e _ => e.consistent

private theorem booleanOperand_ok {type : ExpressionType} (htruth : type.isTruth = true)
    (h : HasStaticType type v) (what : String) : ∃ b, booleanOperand what v = .ok b := by
  cases v with
  | none => exact ⟨none, rfl⟩
  | some value =>
    cases type with
    | boolean =>
      obtain hnone | ⟨b, hb⟩ := hasStaticType_bool h
      · cases hnone
      · rw [hb]
        exact ⟨some b, rfl⟩
    | null => cases value <;> exact h.elim
    | string | int64 | double => cases htruth

private theorem evaluateAnd_ok (hl : ∃ b, booleanOperand "AND expects BOOLEAN operands" l = .ok b)
    (hr : ∃ b, booleanOperand "AND expects BOOLEAN operands" r = .ok b) :
    ∃ v, evaluateAnd l r = .ok v := by
  obtain ⟨a, ha⟩ := hl
  obtain ⟨b, hb⟩ := hr
  simp only [evaluateAnd, ha, hb, Result.ok_bind, Result.pure_eq]
  split_ifs <;> exact ⟨_, rfl⟩

private theorem evaluateOr_ok (hl : ∃ b, booleanOperand "OR expects BOOLEAN operands" l = .ok b)
    (hr : ∃ b, booleanOperand "OR expects BOOLEAN operands" r = .ok b) :
    ∃ v, evaluateOr l r = .ok v := by
  obtain ⟨a, ha⟩ := hl
  obtain ⟨b, hb⟩ := hr
  simp only [evaluateOr, ha, hb, Result.ok_bind, Result.pure_eq]
  split_ifs <;> exact ⟨_, rfl⟩

private theorem compareResultValues_ok {left right : ExpressionType} {a b : ResultValue}
    (hmeets : left.comparesWith right = true) (ha : HasStaticType left (some a))
    (hb : HasStaticType right (some b)) : ∃ o, compareResultValues a b = .ok o := by
  cases a <;> cases b <;> first
    | exact ⟨_, rfl⟩
    | (cases left <;> first
        | exact ha.elim
        | (cases right <;> first | exact hb.elim | cases hmeets))

private theorem evaluateComparison_ok {operation : BinaryOperation} (hand : operation ≠ .and)
    (hor : operation ≠ .or) {left right : ExpressionType}
    (hmeets : left.comparesWith right = true) (hl : HasStaticType left l)
    (hr : HasStaticType right r) : ∃ v, evaluateComparison operation l r = .ok v := by
  cases l with
  | none => exact ⟨none, rfl⟩
  | some a =>
    cases r with
    | none => exact ⟨none, rfl⟩
    | some b =>
      obtain ⟨o, ho⟩ := compareResultValues_ok hmeets hl hr
      obtain ⟨holds, hholds⟩ := comparisonHolds_ok hand hor o
      simp only [evaluateComparison, ho, hholds, Result.ok_bind, Result.pure_eq]
      exact ⟨_, rfl⟩

/-- An expression whose types fit evaluates on every row of the schema. -/
theorem BoundExpression.evaluates (hrow : List.Forall₂ HasType schema.types row)
    (hwell : WellTyped schema e) (h : e.consistent = true) :
    ∃ v, evaluateExpression (rowValue row) e = .ok v := by
  induction e with
  | literal _ _ | column _ _ => exact ⟨_, rfl⟩
  | unary operation e ih =>
    cases operation with
    | not =>
      simp only [BoundExpression.consistent, Bool.and_eq_true] at h
      have hoperand : WellTyped schema e := hwell
      obtain ⟨v, hv⟩ := ih hoperand h.1
      obtain ⟨b, hb⟩ := booleanOperand_ok h.2 (hasStaticType_of_typed hrow hoperand hv)
        "Unary NOT expects BOOLEAN"
      simp only [evaluateExpression, hv, hb, Result.ok_bind]
      exact ⟨_, rfl⟩
  | binary operation left right ihl ihr =>
    obtain ⟨hwellLeft, hwellRight⟩ := hwell
    have hoperands : left.consistent = true ∧ right.consistent = true := by
      cases operation <;> simp only [BoundExpression.consistent, Bool.and_eq_true] at h <;>
        simp [h]
    obtain ⟨l, hl⟩ := ihl hwellLeft hoperands.1
    obtain ⟨r, hr⟩ := ihr hwellRight hoperands.2
    have hltype := hasStaticType_of_typed hrow hwellLeft hl
    have hrtype := hasStaticType_of_typed hrow hwellRight hr
    cases operation with
    | and =>
      simp only [BoundExpression.consistent, Bool.and_eq_true] at h
      simp only [evaluateExpression, hl, hr, Result.ok_bind]
      exact evaluateAnd_ok (booleanOperand_ok h.1.2 hltype _) (booleanOperand_ok h.2 hrtype _)
    | or =>
      simp only [BoundExpression.consistent, Bool.and_eq_true] at h
      simp only [evaluateExpression, hl, hr, Result.ok_bind]
      exact evaluateOr_ok (booleanOperand_ok h.1.2 hltype _) (booleanOperand_ok h.2 hrtype _)
    | equal | notEqual | less | lessEqual | greater | greaterEqual =>
      simp only [BoundExpression.consistent, Bool.and_eq_true] at h
      simp only [evaluateExpression, hl, hr, Result.ok_bind]
      exact evaluateComparison_ok (by simp) (by simp) h.2 hltype hrtype
  | isNull e isNot ih =>
    obtain ⟨v, hv⟩ := ih hwell h
    simp only [evaluateExpression, hv, Result.ok_bind]
    exact ⟨_, rfl⟩

/-! ## Planning -/

/-- The conjunct compares the key with a literal that is neither an INT64 nor NULL. -/
def MistypesKey (schema : Schema) (conjunct : BoundExpression) : Prop :=
  ∃ operation i value columnOnLeft, columnComparison conjunct = some (operation, i, value,
    columnOnLeft) ∧ (∃ column, schema.columns[i]? = some column ∧ column.isKey = true) ∧
    value ≠ none ∧ ∀ key, value ≠ some (.int64 key)

theorem column_of_comparison {operation : BinaryOperation} {i : Nat}
    {value : NullableValue} {columnOnLeft : Bool} (hwell : WellTyped schema e)
    (h : columnComparison e = some (operation, i, value, columnOnLeft)) :
    ∃ column, schema.columns[i]? = some column := by
  have hcolumn : ∀ {j : Nat} {type : ValueType}, WellTyped schema (.column j type) →
      ∃ column, schema.columns[j]? = some column := by
    intro j type htype
    unfold WellTyped Schema.types at htype
    rw [List.getElem?_map, Option.map_eq_some_iff] at htype
    obtain ⟨column, hget, -⟩ := htype
    exact ⟨column, hget⟩
  unfold columnComparison at h
  split at h
  · cases h
    exact hcolumn hwell.1
  · cases h
    exact hcolumn hwell.2
  · cases h

private theorem planConjunct_error {plan : KeyPlan} (hwell : WellTyped schema e)
    (h : planConjunct schema plan e = .error x) : x = .badVariantAccess ∧ MistypesKey schema e := by
  unfold planConjunct at h
  split at h
  · cases h
  · rename_i operation i value columnOnLeft hcomparison
    obtain ⟨column, hcolumn⟩ := column_of_comparison hwell hcomparison
    have hget : schema.getColumn i = .ok column := by simp [Schema.getColumn, hcolumn]
    rw [hget, Result.ok_bind] at h
    split at h
    · cases h
    · rename_i hkey
      have hiskey : column.isKey = true := by simpa using hkey
      split at h
      · cases h
      · cases h
      · rename_i literal hnot
        cases h
        exact ⟨rfl, operation, i, _, columnOnLeft, hcomparison, ⟨column, hcolumn, hiskey⟩,
          by simp, fun key heq => hnot key (Option.some.inj heq)⟩

/-- The plan fails only on a literal of the wrong type. -/
theorem planConjuncts_error {plan : KeyPlan} {es : List BoundExpression}
    (hwell : ∀ e ∈ es, WellTyped schema e) (h : planConjuncts schema plan es = .error x) :
    x = .badVariantAccess ∧ ∃ e ∈ es, MistypesKey schema e := by
  induction es generalizing plan with
  | nil => cases h
  | cons e rest ih =>
    rcases Result.bind_eq_error.mp h with hfirst | ⟨next, -, h⟩
    · obtain ⟨hx, hkey⟩ := planConjunct_error (hwell e List.mem_cons_self) hfirst
      exact ⟨hx, e, List.mem_cons_self, hkey⟩
    · split at h
      · cases h
      · obtain ⟨hx, e', he', hkey⟩ := ih (fun e' he' => hwell e' (List.mem_cons_of_mem e he')) h
        exact ⟨hx, e', List.mem_cons_of_mem e he', hkey⟩

/-- The conjuncts of a bound condition are well typed. -/
theorem Bound.conjuncts {statement : BoundSelectStatement} (h : Bound schema statement) :
    ∀ e ∈ conjuncts statement, WellTyped statement.schema e := by
  rw [h.schema_eq]
  apply forall_conjuncts
  · intro left right hboth
    exact hboth
  · intro e he
    exact (h.whereTyped e he).1

end Htap.Executor
