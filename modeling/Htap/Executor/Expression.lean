import Htap.Executor.Value
import Htap.SSTable.ColumnBuilder

/-!
Bound expressions, their evaluation on the row a cursor stands on, and what
their static types promise about the result.
-/

namespace Htap.Executor

open Storage Htap.Parser SSTable

inductive ExpressionType where
  | string
  | int64
  | double
  | boolean
  | null
  deriving DecidableEq, Repr

/-- `ValueTypeToExpressionType`. -/
def valueTypeToExpressionType : ValueType → ExpressionType
  | .int64 => .int64
  | .double => .double
  | .string => .string

inductive BoundExpression where
  | literal (value : NullableValue) (type : ExpressionType)
  | column (columnIndex : Nat) (valueType : ValueType)
  | unary (operation : UnaryOperation) (expression : BoundExpression)
  | binary (operation : BinaryOperation) (left right : BoundExpression)
  | isNull (expression : BoundExpression) (isNot : Bool)
  deriving DecidableEq

/-- The static type each constructor of a bound expression sets. -/
def BoundExpression.type : BoundExpression → ExpressionType
  | .literal _ type => type
  | .column _ valueType => valueTypeToExpressionType valueType
  | .unary _ _ | .binary _ _ _ | .isNull _ _ => .boolean

/-- The columns an expression reads. -/
def BoundExpression.columns : BoundExpression → List Nat
  | .literal _ _ => []
  | .column columnIndex _ => [columnIndex]
  | .unary _ expression => expression.columns
  | .binary _ left right => left.columns ++ right.columns
  | .isNull expression _ => expression.columns

/-! ## Evaluation -/

def resultValue : Value → ResultValue
  | .int64 v => .int64 v
  | .double v => .double v
  | .string v => .string v

/-- `std::get_if<bool>` on an operand that is not NULL. -/
def booleanOperand (what : String) : NullableResultValue → Result (Option Bool)
  | none => .ok none
  | some (.bool b) => .ok (some b)
  | some _ => .error (.runtimeError what)

def evaluateAnd (left right : NullableResultValue) : Result NullableResultValue := do
  let l ← booleanOperand "AND expects BOOLEAN operands" left
  if l = some false then return some (.bool false)
  let r ← booleanOperand "AND expects BOOLEAN operands" right
  if r = some false then return some (.bool false)
  if l.isNone || r.isNone then return none
  return some (.bool true)

def evaluateOr (left right : NullableResultValue) : Result NullableResultValue := do
  let l ← booleanOperand "OR expects BOOLEAN operands" left
  if l = some true then return some (.bool true)
  let r ← booleanOperand "OR expects BOOLEAN operands" right
  if r = some true then return some (.bool true)
  if l.isNone || r.isNone then return none
  return some (.bool false)

/-- What the comparison operators make of the result of a comparison. -/
def comparisonHolds : BinaryOperation → Ordering → Result Bool
  | .equal, comparison => .ok (comparison == .eq)
  | .notEqual, comparison => .ok (comparison != .eq)
  | .less, comparison => .ok (comparison == .lt)
  | .lessEqual, comparison => .ok (comparison != .gt)
  | .greater, comparison => .ok (comparison == .gt)
  | .greaterEqual, comparison => .ok (comparison != .lt)
  | .and, _ | .or, _ => .error (.runtimeError "Unsupported binary operation")

def evaluateComparison (operation : BinaryOperation) :
    NullableResultValue → NullableResultValue → Result NullableResultValue
  | some left, some right => do
    let comparison ← compareResultValues left right
    let holds ← comparisonHolds operation comparison
    return some (.bool holds)
  | _, _ => .ok none

/-- `EvaluateExpression`; `value` is `cursor.value`. -/
def evaluateExpression (value : Nat → Result NullableValue) :
    BoundExpression → Result NullableResultValue
  | .literal v _ => .ok (v.map resultValue)
  | .column columnIndex _ => do
    let v ← value columnIndex
    return v.map resultValue
  | .unary .not expression => do
    let v ← evaluateExpression value expression
    let b ← booleanOperand "Unary NOT expects BOOLEAN" v
    return b.map fun b => .bool !b
  | .binary operation left right => do
    let l ← evaluateExpression value left
    let r ← evaluateExpression value right
    match operation with
    | .and => evaluateAnd l r
    | .or => evaluateOr l r
    | operation => evaluateComparison operation l r
  | .isNull expression isNot => do
    let v ← evaluateExpression value expression
    return some (.bool (v.isNone != isNot))

/-- `EvaluatePredicate`. -/
def evaluatePredicate (value : Nat → Result NullableValue) (expression : BoundExpression) :
    Result Bool := do
  match ← evaluateExpression value expression with
  | none => return false
  | some (.bool b) => return b
  | some _ => throw (.runtimeError "WHERE expression must evaluate to BOOLEAN")

/-- The cells of `row` as a cursor gives them. -/
def rowValue (row : Row) : Nat → Result NullableValue := fun i => .ok (cell row i)

/-- An expression reads its own columns only. -/
theorem evaluateExpression_congr {value value' : Nat → Result NullableValue}
    (e : BoundExpression) (h : ∀ i ∈ e.columns, value i = value' i) :
    evaluateExpression value e = evaluateExpression value' e := by
  induction e with
  | literal v type => rfl
  | column i type => simp only [evaluateExpression, h i (List.mem_singleton.mpr rfl)]
  | unary operation e ih =>
    cases operation with
    | not => simp only [evaluateExpression, ih h]
  | binary operation l r ihl ihr =>
    have hl := ihl fun i hi => h i (List.mem_append_left _ hi)
    have hr := ihr fun i hi => h i (List.mem_append_right _ hi)
    simp only [evaluateExpression, hl, hr]
  | isNull e isNot ih => simp only [evaluateExpression, ih h]

/-! ## Static types -/

/-- The alternative a static type names; nothing but NULL for `null`. -/
def HasStaticType : ExpressionType → NullableResultValue → Prop
  | _, none => True
  | .string, some (.string _) => True
  | .int64, some (.int64 _) => True
  | .double, some (.double _) => True
  | .boolean, some (.bool _) => True
  | _, some _ => False

/-- What the binder builds: literals carry their own type, and columns exist
with the type they are said to have. -/
def WellTyped (schema : Schema) : BoundExpression → Prop
  | .literal value type => HasStaticType type (value.map resultValue)
  | .column columnIndex valueType => schema.types[columnIndex]? = some valueType
  | .unary _ expression => WellTyped schema expression
  | .binary _ left right => WellTyped schema left ∧ WellTyped schema right
  | .isNull expression _ => WellTyped schema expression

theorem hasStaticType_none (type : ExpressionType) : HasStaticType type none := by
  cases type <;> trivial

theorem hasStaticType_bool {value : NullableResultValue} (h : HasStaticType .boolean value) :
    value = none ∨ ∃ b, value = some (.bool b) := by
  match value, h with
  | none, _ => exact Or.inl rfl
  | some (.bool b), _ => exact Or.inr ⟨b, rfl⟩

theorem hasStaticType_int64 {value : NullableResultValue} (h : HasStaticType .int64 value) :
    value = none ∨ ∃ v, value = some (.int64 v) := by
  match value, h with
  | none, _ => exact Or.inl rfl
  | some (.int64 v), _ => exact Or.inr ⟨v, rfl⟩

theorem hasStaticType_double {value : NullableResultValue} (h : HasStaticType .double value) :
    value = none ∨ ∃ v, value = some (.double v) := by
  match value, h with
  | none, _ => exact Or.inl rfl
  | some (.double v), _ => exact Or.inr ⟨v, rfl⟩

private theorem hasStaticType_resultValue {type : ValueType} {value : NullableValue}
    (h : HasType type value) :
    HasStaticType (valueTypeToExpressionType type) (value.map resultValue) := by
  cases value with
  | none => exact hasStaticType_none _
  | some v =>
    have htype := h v rfl
    subst htype
    cases v <;> trivial

private theorem boolean_evaluateAnd {l r v : NullableResultValue} (h : evaluateAnd l r = .ok v) :
    HasStaticType .boolean v := by
  unfold evaluateAnd at h
  obtain ⟨a, -, h⟩ := Result.bind_eq_ok.mp h
  split at h
  · cases h
    trivial
  · obtain ⟨b, -, h⟩ := Result.bind_eq_ok.mp h
    split at h
    · cases h
      trivial
    · split at h
      · cases h
        trivial
      · cases h
        trivial

private theorem boolean_evaluateOr {l r v : NullableResultValue} (h : evaluateOr l r = .ok v) :
    HasStaticType .boolean v := by
  unfold evaluateOr at h
  obtain ⟨a, -, h⟩ := Result.bind_eq_ok.mp h
  split at h
  · cases h
    trivial
  · obtain ⟨b, -, h⟩ := Result.bind_eq_ok.mp h
    split at h
    · cases h
      trivial
    · split at h
      · cases h
        trivial
      · cases h
        trivial

private theorem boolean_evaluateComparison {operation : BinaryOperation}
    {l r v : NullableResultValue} (h : evaluateComparison operation l r = .ok v) :
    HasStaticType .boolean v := by
  unfold evaluateComparison at h
  split at h
  · obtain ⟨c, -, h⟩ := Result.bind_eq_ok.mp h
    obtain ⟨b, -, h⟩ := Result.bind_eq_ok.mp h
    cases h
    trivial
  · cases h
    trivial

/-- What an expression evaluates to has its static type, when every cell of the row
is NULL or of the type of its column. -/
theorem hasStaticType_of_typed {schema : Schema} {row : Row}
    (hrow : List.Forall₂ HasType schema.types row) {e : BoundExpression} (he : WellTyped schema e)
    {v : NullableResultValue} (h : evaluateExpression (rowValue row) e = .ok v) :
    HasStaticType e.type v := by
  cases e with
  | literal value type =>
    cases h
    exact he
  | column i valueType =>
    cases h
    apply hasStaticType_resultValue
    obtain ⟨hi, hget⟩ := List.getElem?_eq_some_iff.mp he
    have hi' : i < row.length := by
      rw [← hrow.length_eq]
      exact hi
    have hcell := List.forall₂_iff_get.mp hrow |>.2 i hi hi'
    rw [List.get_eq_getElem, List.get_eq_getElem, hget] at hcell
    rwa [cell, List.getD_eq_getElem?_getD, List.getElem?_eq_getElem hi', Option.getD_some]
  | unary operation e =>
    cases operation with
    | not =>
      obtain ⟨w, -, h⟩ := Result.bind_eq_ok.mp h
      obtain ⟨b, -, h⟩ := Result.bind_eq_ok.mp h
      cases h
      cases b <;> trivial
  | binary operation l r =>
    obtain ⟨x, -, h⟩ := Result.bind_eq_ok.mp h
    obtain ⟨y, -, h⟩ := Result.bind_eq_ok.mp h
    cases operation with
    | and => exact boolean_evaluateAnd h
    | or => exact boolean_evaluateOr h
    | equal | notEqual | less | lessEqual | greater | greaterEqual =>
      exact boolean_evaluateComparison h
  | isNull e isNot =>
    obtain ⟨w, -, h⟩ := Result.bind_eq_ok.mp h
    cases h
    trivial

theorem hasStaticType_evaluateExpression {schema : Schema} {row : Row} (hrow : ValidRow schema row)
    {e : BoundExpression} (he : WellTyped schema e) {v : NullableResultValue}
    (h : evaluateExpression (rowValue row) e = .ok v) : HasStaticType e.type v :=
  hasStaticType_of_typed hrow.typed he h

/-- A WHERE expression that evaluates never fails as a predicate. -/
theorem evaluatePredicate_of_ok {schema : Schema} {row : Row} (hrow : ValidRow schema row)
    {e : BoundExpression} (he : WellTyped schema e) (htype : e.type = .boolean)
    {v : NullableResultValue} (h : evaluateExpression (rowValue row) e = .ok v) :
    evaluatePredicate (rowValue row) e = .ok (v == some (.bool true)) := by
  have hbool := hasStaticType_evaluateExpression hrow he h
  rw [htype] at hbool
  rcases hasStaticType_bool hbool with rfl | ⟨b, rfl⟩
  · simp [evaluatePredicate, h]
  · cases b <;> simp [evaluatePredicate, h]

/-! ## The values of one expression -/

/-- No cell holds a NaN. -/
def NoNaN (row : Row) : Prop := ∀ d, some (Value.double d) ∈ row → d.isNaN = false

private theorem comparable_self (value : NullableResultValue) : Comparable value value := by
  match value with
  | none | some (.int64 _) | some (.string _) | some (.bool _) => trivial
  | some (.double _) => exact Or.inr rfl

private theorem comparable_of_type {type : ExpressionType} {a b : NullableResultValue}
    (hdouble : type ≠ .double) (ha : HasStaticType type a) (hb : HasStaticType type b) :
    Comparable a b := by
  cases a with
  | none => trivial
  | some x =>
    cases b with
    | none => cases x <;> trivial
    | some y =>
      cases type with
      | string =>
        cases x <;> first | exact ha.elim | (cases y <;> first | exact hb.elim | trivial)
      | int64 =>
        cases x <;> first | exact ha.elim | (cases y <;> first | exact hb.elim | trivial)
      | boolean =>
        cases x <;> first | exact ha.elim | (cases y <;> first | exact hb.elim | trivial)
      | double => exact absurd rfl hdouble
      | null => cases x <;> exact ha.elim

private theorem isNaN_of_cell {row : Row} (hrow : NoNaN row) {i : Nat} {d : Binary64}
    (h : (cell row i).map resultValue = some (.double d)) : d.isNaN = false := by
  obtain ⟨v, hv, heq⟩ := Option.map_eq_some_iff.mp h
  cases v with
  | double d' =>
    cases heq
    apply hrow
    rw [cell, List.getD_eq_getElem?_getD] at hv
    cases hget : row[i]? with
    | none => simp [hget] at hv
    | some c =>
      rw [hget, Option.getD_some] at hv
      exact hv ▸ List.mem_of_getElem? hget
  | int64 _ => cases heq
  | string _ => cases heq

/-- The values one expression takes on rows without NaN compare by rank. -/
theorem comparable_evaluateExpression {schema : Schema} {r s : Row} (hr : ValidRow schema r)
    (hs : ValidRow schema s) (hrn : NoNaN r) (hsn : NoNaN s) {e : BoundExpression}
    (he : WellTyped schema e) {a b : NullableResultValue}
    (ha : evaluateExpression (rowValue r) e = .ok a)
    (hb : evaluateExpression (rowValue s) e = .ok b) : Comparable a b := by
  have hta := hasStaticType_evaluateExpression hr he ha
  have htb := hasStaticType_evaluateExpression hs he hb
  cases e with
  | literal value type =>
    cases ha
    cases hb
    exact comparable_self _
  | column i valueType =>
    cases valueType with
    | double =>
      cases ha
      cases hb
      rcases hasStaticType_double hta with hnone | ⟨x, hx⟩
      · rw [hnone]
        cases (cell s i).map resultValue <;> trivial
      · rcases hasStaticType_double htb with hnone | ⟨y, hy⟩
        · rw [hnone, hx]
          trivial
        · rw [hx, hy]
          exact Or.inl ⟨isNaN_of_cell hrn hx, isNaN_of_cell hsn hy⟩
    | int64 =>
      exact comparable_of_type (by simp [BoundExpression.type, valueTypeToExpressionType]) hta htb
    | string =>
      exact comparable_of_type (by simp [BoundExpression.type, valueTypeToExpressionType]) hta htb
  | unary operation e => exact comparable_of_type (by simp [BoundExpression.type]) hta htb
  | binary operation l r => exact comparable_of_type (by simp [BoundExpression.type]) hta htb
  | isNull e isNot => exact comparable_of_type (by simp [BoundExpression.type]) hta htb

end Htap.Executor
