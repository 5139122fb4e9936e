import Htap.Basis.StdSort
import Htap.Executor.Aggregate
import Htap.Executor.Loop

/-!
The three ways a SELECT runs: plain, one global aggregate row, and grouped.
-/

namespace Htap.Executor

open Storage Htap.Parser SSTable Read Cursor

structure SelectResult where
  columnNames : List Bytes
  rows : List ResultRow
  deriving DecidableEq

/-- A row with the values of its ORDER BY items. -/
structure SortRow where
  sortKeys : List NullableResultValue
  row : ResultRow
  deriving DecidableEq

/-- `std::sort` with the comparator of the ORDER BY items. -/
def sortRows (std : StdSort Exception) (statement : BoundSelectStatement) (rows : List SortRow) :
    Result (List SortRow) :=
  std.sort (fun x y => sortKeysLess (statement.orderByItems.map BoundOrderByItem.direction)
    x.sortKeys y.sortKeys) rows

/-- `rows.resize(limit)` when there are more. -/
def truncateRows (limit : Option Nat) (rows : List ResultRow) : List ResultRow :=
  match limit with
  | none => rows
  | some n => if n < rows.length then rows.take n else rows

/-- Whether the row of the cursor passes WHERE. -/
def passesWhere (statement : BoundSelectStatement) (value : Nat → Result NullableValue) :
    Result Bool :=
  match statement.whereExpression with
  | none => .ok true
  | some expression => evaluatePredicate value expression

def orderByValues (statement : BoundSelectStatement) (value : Nat → Result NullableValue) :
    Result (List NullableResultValue) :=
  statement.orderByItems.mapM fun item => evaluateExpression value item.expression

/-! ## Plain SELECT -/

structure PlainState where
  rows : List ResultRow := []
  sortedRows : List SortRow := []

def plainItem (value : Nat → Result NullableValue) : BoundSelectItem → Result NullableResultValue
  | .expression expression => evaluateExpression value expression
  | .aggregate _ _ _ =>
    .error (.runtimeError "Plain SELECT does not support aggregate select items")

/-- The body of the loop of `ExecutePlainSelect`. -/
def plainBody (statement : BoundSelectStatement) (requiresKeyAsc earlyLimit : Bool) :
    Body PlainState := fun value state => do
  let passes ← passesWhere statement value
  if !passes then return (state, false)
  let row ← statement.selectItems.mapM (plainItem value)
  if statement.orderByItems.isEmpty || requiresKeyAsc then
    let rows := state.rows ++ [row]
    return ({ state with rows := rows },
      earlyLimit && statement.limit.any fun n => decide (n ≤ rows.length))
  else
    let sortKeys ← orderByValues statement value
    return ({ state with sortedRows := state.sortedRows ++ [⟨sortKeys, row⟩] }, false)

/-- The rows in result order: sorted ones, or those the loop pushed. -/
def plainRows (std : StdSort Exception) (statement : BoundSelectStatement) (requiresKeyAsc : Bool)
    (state : PlainState) : Result (List ResultRow) :=
  if !statement.orderByItems.isEmpty && !requiresKeyAsc then do
    let sorted ← sortRows std statement state.sortedRows
    return sorted.map SortRow.row
  else .ok state.rows

/-- What `ExecutePlainSelect` does after its loop. -/
def finishPlain (std : StdSort Exception) (statement : BoundSelectStatement)
    (requiresKeyAsc earlyLimit : Bool) (state : PlainState) : Result (List ResultRow) := do
  let rows ← plainRows std statement requiresKeyAsc state
  return if earlyLimit then rows else truncateRows statement.limit rows

variable {α : Type} [ICursor α]

/-- `ExecutePlainSelect`. -/
def executePlainSelect (std : StdSort Exception) (engine : IStorageEngine α) (fuel : Nat)
    (statement : BoundSelectStatement) (columnNames : List Bytes) (projection : List Nat)
    (earlyLimit : Bool) : Result SelectResult := do
  let requiresKeyAsc := isRequiredKeyAsc statement
  let built ← buildCursorForSelect engine statement projection requiresKeyAsc
  let earlyLimit := if requiresKeyAsc then requiresKeyAsc else earlyLimit
  match built with
  | none => return ⟨columnNames, []⟩
  | some (cursor, w) => do
    let state ← whileValid (plainBody statement requiresKeyAsc earlyLimit) fuel cursor w {}
    let rows ← finishPlain std statement requiresKeyAsc earlyLimit state
    return ⟨columnNames, rows⟩

/-! ## Aggregates -/

/-- The loop over the cursor that was built, if there is one. -/
def overCursor {σ : Type} (body : Body σ) (fuel : Nat) (s : σ) :
    Option (α × World) → Result σ
  | none => .ok s
  | some (cursor, w) => whileValid body fuel cursor w s

/-- The aggregates of a global aggregate SELECT. -/
def globalAggregate : BoundSelectItem → Result (AggregateKind × BoundExpression × ExpressionType)
  | .aggregate kind expression resultType => .ok (kind, expression, resultType)
  | .expression _ =>
    .error (.runtimeError "Global aggregate SELECT expects aggregate select items only")

/-- One value enters the state of its aggregate. -/
def updateAggregate (value : Nat → Result NullableValue)
    (aggregate : AggregateKind × BoundExpression × ExpressionType) (state : GlobalAggregateState) :
    Result GlobalAggregateState := do
  let v ← evaluateExpression value aggregate.2.1
  updateGlobalAggregateState aggregate.1 aggregate.2.2 v state

/-- The body of the loop of `ExecuteGlobalAggregateSelect`. -/
def globalBody (statement : BoundSelectStatement)
    (aggregates : List (AggregateKind × BoundExpression × ExpressionType)) :
    Body (List GlobalAggregateState) := fun value states => do
  let passes ← passesWhere statement value
  if !passes then return (states, false)
  let states ← (aggregates.zip states).mapM fun entry => updateAggregate value entry.1 entry.2
  return (states, false)

/-- `ExecuteGlobalAggregateSelect`. -/
def executeGlobalAggregateSelect (engine : IStorageEngine α) (fuel : Nat)
    (statement : BoundSelectStatement) (columnNames : List Bytes) (projection : List Nat) :
    Result SelectResult := do
  let aggregates ← statement.selectItems.mapM globalAggregate
  let states : List GlobalAggregateState := aggregates.map fun _ => {}
  let built ← buildCursorForSelect engine statement projection false
  let states ← overCursor (globalBody statement aggregates) fuel states built
  let row ← (aggregates.zip states).mapM fun entry =>
    finalizeAggregateState entry.1.1 entry.1.2.2 entry.2
  return ⟨columnNames, if statement.limit.all fun n => decide (0 < n) then [row] else []⟩

/-! ## GROUP BY -/

/-- What the select item of a group holds: the value of an expression, or the
state of an aggregate. -/
structure GroupState where
  selectExpressionValues : List NullableResultValue
  orderByValues : List NullableResultValue
  aggregateStates : List GlobalAggregateState
  deriving DecidableEq

def selectExpressionValue (value : Nat → Result NullableValue) :
    BoundSelectItem → Result NullableResultValue
  | .expression expression => evaluateExpression value expression
  | .aggregate _ _ _ => .ok none

/-- The state of a group when its first row comes. -/
def newGroup (statement : BoundSelectStatement) (value : Nat → Result NullableValue) :
    Result GroupState := do
  let selectExpressionValues ← statement.selectItems.mapM (selectExpressionValue value)
  let orderByValues ← orderByValues statement value
  return ⟨selectExpressionValues, orderByValues, statement.selectItems.map fun _ => {}⟩

def updateItem (value : Nat → Result NullableValue) :
    BoundSelectItem × GlobalAggregateState → Result GlobalAggregateState
  | (.expression _, state) => .ok state
  | (.aggregate kind expression resultType, state) =>
    updateAggregate value (kind, expression, resultType) state

/-- One row enters the aggregates of its group. -/
def updateGroup (statement : BoundSelectStatement) (value : Nat → Result NullableValue)
    (group : GroupState) : Result GroupState := do
  let aggregateStates ← (statement.selectItems.zip group.aggregateStates).mapM (updateItem value)
  return { group with aggregateStates := aggregateStates }

/-- The `std::map` of the groups, in the order of `GroupKeyLess`. -/
abbrev Groups : Type := List (GroupKey × GroupState)

/-- `groups.emplace` and the update of the group found or made. -/
def enterGroup (key : GroupKey) (fresh : Result GroupState)
    (update : GroupState → Result GroupState) : Groups → Result Groups
  | [] => do
    let group ← fresh
    let group ← update group
    return [(key, group)]
  | (other, group) :: rest => do
    let before ← groupKeyLess key other
    if before then
      let new ← fresh
      let new ← update new
      return (key, new) :: (other, group) :: rest
    else
      let after ← groupKeyLess other key
      if after then
        let rest ← enterGroup key fresh update rest
        return (other, group) :: rest
      else
        let group ← update group
        return (other, group) :: rest

/-- The body of the loop of `ExecuteGroupedAggregateSelect`. -/
def groupBody (statement : BoundSelectStatement) : Body Groups := fun value groups => do
  let passes ← passesWhere statement value
  if !passes then return (groups, false)
  let key ← statement.groupByItems.mapM (evaluateExpression value)
  let groups ← enterGroup key (newGroup statement value) (updateGroup statement value) groups
  return (groups, false)

def groupItem :
    BoundSelectItem × NullableResultValue × GlobalAggregateState → Result NullableResultValue
  | (.expression _, value, _) => .ok value
  | (.aggregate kind _ resultType, _, state) => finalizeAggregateState kind resultType state

/-- The result row of a group. -/
def groupRow (statement : BoundSelectStatement) (group : GroupState) : Result SortRow := do
  let row ← (statement.selectItems.zip
    (group.selectExpressionValues.zip group.aggregateStates)).mapM groupItem
  return ⟨group.orderByValues, row⟩

/-- The result rows of the groups, sorted when ORDER BY asks for it. -/
def orderGroups (std : StdSort Exception) (statement : BoundSelectStatement)
    (rows : List SortRow) : Result (List SortRow) :=
  if statement.orderByItems.isEmpty then .ok rows else sortRows std statement rows

/-- `ExecuteGroupedAggregateSelect`. -/
def executeGroupedAggregateSelect (std : StdSort Exception) (engine : IStorageEngine α)
    (fuel : Nat) (statement : BoundSelectStatement) (columnNames : List Bytes)
    (projection : List Nat) : Result SelectResult := do
  let built ← buildCursorForSelect engine statement projection false
  let groups ← overCursor (groupBody statement) fuel [] built
  let rows ← groups.mapM fun entry => groupRow statement entry.2
  let rows ← orderGroups std statement rows
  return ⟨columnNames, truncateRows statement.limit (rows.map SortRow.row)⟩

/-! ## Dispatch -/

/-- `ExecuteSelect`. -/
def executeSelect (std : StdSort Exception) (engine : IStorageEngine α) (fuel : Nat)
    (statement : BoundSelectStatement) : Result SelectResult := do
  let columnNames ← buildSelectColumnNames statement
  let projection := collectRequiredProjection statement
  let hasAggregates := hasAggregateSelectItems statement
  let hasGroupBy := !statement.groupByItems.isEmpty
  let earlyLimit := canApplyEarlyLimit statement
  if !hasAggregates && !hasGroupBy then
    executePlainSelect std engine fuel statement columnNames projection earlyLimit
  else if hasAggregates && !hasGroupBy then
    executeGlobalAggregateSelect engine fuel statement columnNames projection
  else
    executeGroupedAggregateSelect std engine fuel statement columnNames projection

end Htap.Executor
