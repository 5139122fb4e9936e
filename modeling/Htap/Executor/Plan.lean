import Htap.Executor.Expression
import Htap.Cursor.Interface

/-!
Bound SELECT statements and what the executor asks the storage engine for: the
columns it projects, and the point lookup, key range and data-skipping filter
it derives from the WHERE expression.
-/

namespace Htap.Executor

open Storage Htap.Parser SSTable Read Cursor

inductive BoundSelectItem where
  | expression (expression : BoundExpression)
  | aggregate (kind : AggregateKind) (expression : BoundExpression) (resultType : ExpressionType)
  deriving DecidableEq

structure BoundOrderByItem where
  expression : BoundExpression
  direction : OrderDirection := .asc
  deriving DecidableEq

structure BoundSelectStatement where
  tableName : Bytes
  schema : Schema
  selectItems : List BoundSelectItem
  whereExpression : Option BoundExpression := none
  groupByItems : List BoundExpression := []
  orderByItems : List BoundOrderByItem := []
  limit : Option Nat := none
  deriving DecidableEq

/-- What the executor and the binder use of a storage engine. A cursor comes
with the world it reads. -/
structure IStorageEngine (α : Type) where
  tableExists : Bytes → Bool
  getTableSchema : Bytes → Result Schema
  get : Bytes → Key → List Nat → Result (α × World)
  scan : Bytes → Option Key → Option Key → List Nat → ScanOrder → DataSkippingFilter →
    Result (α × World)

/-! ## Columns -/

def text (s : String) : Bytes := s.toUTF8.toList

/-- `std::to_string` of a number. -/
def toString (n : Nat) : Bytes := (Nat.toDigits 10 n).map fun c => UInt8.ofNat c.toNat

def aggregateName : AggregateKind → Bytes
  | .count => text "count"
  | .sum => text "sum"
  | .avg => text "avg"
  | .min => text "min"
  | .max => text "max"

/-- The name a column of the result has for the expression of item `i`. -/
def expressionName (schema : Schema) (i : Nat) : BoundExpression → Result Bytes
  | .column columnIndex _ => do
    let column ← schema.getColumn columnIndex
    return column.name
  | _ => .ok (text "expression" ++ toString (i + 1))

def selectColumnName (schema : Schema) : BoundSelectItem × Nat → Result Bytes
  | (.expression expression, i) => expressionName schema i expression
  | (.aggregate kind expression _, i) => do
    let name ← expressionName schema i expression
    return aggregateName kind ++ text "(" ++ name ++ text ")"

/-- `BuildSelectColumnNames`. -/
def buildSelectColumnNames (statement : BoundSelectStatement) : Result (List Bytes) :=
  statement.selectItems.zipIdx.mapM (selectColumnName statement.schema)

/-- `CollectProjectionFromExpression`; `used_columns` marks the columns that are
in the projection already. -/
def collectProjectionFromExpression (projection : List Nat) : BoundExpression → List Nat
  | .literal _ _ => projection
  | .column columnIndex _ =>
    if columnIndex ∈ projection then projection else projection ++ [columnIndex]
  | .unary _ expression => collectProjectionFromExpression projection expression
  | .binary _ left right =>
    collectProjectionFromExpression (collectProjectionFromExpression projection left) right
  | .isNull expression _ => collectProjectionFromExpression projection expression

def BoundSelectItem.argument : BoundSelectItem → BoundExpression
  | .expression e => e
  | .aggregate _ e _ => e

/-- Every expression of a statement, in the order their columns are collected. -/
def BoundSelectStatement.expressions (statement : BoundSelectStatement) : List BoundExpression :=
  statement.selectItems.map BoundSelectItem.argument ++ statement.whereExpression.toList ++
    statement.groupByItems ++ statement.orderByItems.map BoundOrderByItem.expression

/-- `CollectRequiredProjection`. -/
def collectRequiredProjection (statement : BoundSelectStatement) : List Nat :=
  statement.expressions.foldl collectProjectionFromExpression []

def BoundSelectItem.isAggregate : BoundSelectItem → Bool
  | .expression _ => false
  | .aggregate _ _ _ => true

/-- `HasAggregateSelectItems`. -/
def hasAggregateSelectItems (statement : BoundSelectStatement) : Bool :=
  statement.selectItems.any BoundSelectItem.isAggregate

/-- `CanApplyEarlyLimit`. -/
def canApplyEarlyLimit (statement : BoundSelectStatement) : Bool :=
  statement.limit.isSome && statement.orderByItems.isEmpty && statement.groupByItems.isEmpty &&
    !hasAggregateSelectItems statement

/-- `IsRuquiredKeyAsc`. -/
def isRequiredKeyAsc (statement : BoundSelectStatement) : Bool :=
  match statement.orderByItems with
  | ⟨.column columnIndex _, .asc⟩ :: _ => columnIndex == keyColumnIndex
  | _ => false

/-! ## Pushdown of key predicates -/

/-- `CollectConjuncts`. -/
def collectConjuncts : BoundExpression → List BoundExpression
  | .binary .and left right => collectConjuncts left ++ collectConjuncts right
  | expression => [expression]

def conjuncts (statement : BoundSelectStatement) : List BoundExpression :=
  (statement.whereExpression.map collectConjuncts).getD []

/-- What the loop over the conjuncts has found so far. -/
structure KeyPlan where
  pointKey : Option Key := none
  fromKey : Option Key := none
  toKey : Option Key := none
  foundRange : Bool := false
  emptyResult : Bool := false
  deriving DecidableEq

namespace KeyPlan

def equalTo (plan : KeyPlan) (key : Key) : KeyPlan :=
  match plan.pointKey with
  | none => { plan with pointKey := some key }
  | some point => if point ≠ key then { plan with emptyResult := true } else plan

/-- Raise the lower bound to `key`. -/
def atLeast (plan : KeyPlan) (key : Key) : KeyPlan :=
  if plan.fromKey.all fun f => decide (f < key) then { plan with fromKey := some key } else plan

/-- Lower the upper bound to `key`. -/
def below (plan : KeyPlan) (key : Key) : KeyPlan :=
  if plan.toKey.all fun t => decide (key < t) then { plan with toKey := some key } else plan

def greaterThan (plan : KeyPlan) (key : Key) : KeyPlan :=
  if key = Int64.maxValue then { plan with emptyResult := true } else plan.atLeast (key + 1)

def atMost (plan : KeyPlan) (key : Key) : KeyPlan :=
  if key ≠ Int64.maxValue then plan.below (key + 1) else plan

/-- One comparison of the key column with `key`. -/
def addComparison (plan : KeyPlan) (operation : BinaryOperation) (columnOnLeft : Bool)
    (key : Key) : KeyPlan :=
  let ranged := { plan with foundRange := true }
  match operation, columnOnLeft with
  | .equal, _ => plan.equalTo key
  | .greater, true => ranged.greaterThan key
  | .greater, false => ranged.below key
  | .greaterEqual, true => ranged.atLeast key
  | .greaterEqual, false => ranged.atMost key
  | .less, true => ranged.below key
  | .less, false => ranged.greaterThan key
  | .lessEqual, true => ranged.atMost key
  | .lessEqual, false => ranged.atLeast key
  | _, _ => plan

end KeyPlan

/-- A comparison of a column with a literal, and the side the column is on. -/
def columnComparison : BoundExpression → Option (BinaryOperation × Nat × NullableValue × Bool)
  | .binary operation (.column columnIndex _) (.literal value _) =>
    some (operation, columnIndex, value, true)
  | .binary operation (.literal value _) (.column columnIndex _) =>
    some (operation, columnIndex, value, false)
  | _ => none

/-- One round of the loop over the conjuncts. A NULL literal empties the result
under any operator, and `std::get` throws on a literal that is not an INT64. -/
def planConjunct (schema : Schema) (plan : KeyPlan) (conjunct : BoundExpression) :
    Result KeyPlan :=
  match columnComparison conjunct with
  | none => .ok plan
  | some (operation, columnIndex, value, columnOnLeft) => do
    let column ← schema.getColumn columnIndex
    if !column.isKey then return plan
    match value with
    | none => return { plan with emptyResult := true }
    | some (.int64 key) => return plan.addComparison operation columnOnLeft key
    | some _ => throw .badVariantAccess

/-- The loop ends early once the result is known to be empty. -/
def planConjuncts (schema : Schema) : KeyPlan → List BoundExpression → Result KeyPlan
  | plan, [] => .ok plan
  | plan, conjunct :: rest => do
    let plan ← planConjunct schema plan conjunct
    if plan.emptyResult then return plan else planConjuncts schema plan rest

/-! ## The data-skipping filter -/

def convertOperation : BinaryOperation → Option NumericComparisonOp
  | .equal => some .equal
  | .less => some .less
  | .lessEqual => some .lessEqual
  | .greater => some .greater
  | .greaterEqual => some .greaterEqual
  | _ => none

def reverseOperation : NumericComparisonOp → NumericComparisonOp
  | .equal => .equal
  | .less => .greater
  | .lessEqual => .greaterEqual
  | .greater => .less
  | .greaterEqual => .lessEqual

def numericLiteral : NullableValue → Option NumericStatsValue
  | some (.int64 v) => some (.int64 v)
  | some (.double v) => some (.double v)
  | _ => none

/-- The filter predicate of one conjunct, if it has one. -/
def skippingPredicate (schema : Schema) (conjunct : BoundExpression) :
    Option NumericColumnPredicate := do
  let (operation, columnIndex, literal, columnOnLeft) ← columnComparison conjunct
  let op ← convertOperation operation
  let value ← numericLiteral literal
  let column ← schema.columns[columnIndex]?
  if column.isKey || !column.type.isNumeric then none
  else some ⟨columnIndex, if columnOnLeft then op else reverseOperation op, value⟩

/-- `BuildDataSkippingFilter`. -/
def buildDataSkippingFilter (statement : BoundSelectStatement) : DataSkippingFilter where
  predicates := (conjuncts statement).filterMap (skippingPredicate statement.schema)

/-- What `BuildCursorForSelect` asks the engine for. -/
inductive Access where
  | empty
  | point (key : Key)
  | range (fromKey toKey : Option Key)
  deriving DecidableEq

def KeyPlan.access (plan : KeyPlan) : Access :=
  if plan.emptyResult then .empty
  else
    match plan.pointKey with
    | some key => .point key
    | none =>
      if plan.foundRange then
        match plan.fromKey, plan.toKey with
        | some f, some t => if t ≤ f then .empty else .range (some f) (some t)
        | fromKey, toKey => .range fromKey toKey
      else .range none none

/-- `BuildCursorForSelect`; there is no cursor when `empty_result` is set. -/
def buildCursorForSelect {α : Type} (engine : IStorageEngine α) (statement : BoundSelectStatement)
    (projection : List Nat) (requiresKeyAsc : Bool) : Result (Option (α × World)) := do
  let plan ← planConjuncts statement.schema {} (conjuncts statement)
  let order : ScanOrder := if requiresKeyAsc then .keyAscending else .unordered
  match plan.access with
  | .empty => return none
  | .point key => do
    let cursor ← engine.get statement.tableName key projection
    return some cursor
  | .range fromKey toKey => do
    let cursor ← engine.scan statement.tableName fromKey toKey projection order
      (buildDataSkippingFilter statement)
    return some cursor

end Htap.Executor
