import Htap.Executor.Select

/-!
The binder: names become column indices, every expression gets its static type,
and a SELECT with aggregates or GROUP BY is checked to have one value per group.
-/

namespace Htap.Executor

open Storage Htap.Parser SSTable

/-- The errors of `executor/error.hpp` are runtime errors with these texts. -/
def invalidQuery (what : String) (name : Bytes := []) : Exception := .runtimeError what name

def columnNotFound (columnName : Bytes) : Exception :=
  .runtimeError "Column not found: " columnName

def tableNotFound (tableName : Bytes) : Exception :=
  .runtimeError "Table not found: " tableName

/-- `BindExpression`. -/
def bindExpression (schema : Schema) : Expression → Result BoundExpression
  | .nullLiteral => .ok (.literal none .null)
  | .intLiteral value => .ok (.literal (some (.int64 value)) .int64)
  | .doubleLiteral value => .ok (.literal (some (.double value)) .double)
  | .stringLiteral value => .ok (.literal (some (.string value)) .string)
  | .column columnName =>
    match schema.getColumnIndex columnName with
    | none => .error (columnNotFound columnName)
    | some columnIndex => do
      let column ← schema.getColumn columnIndex
      return .column columnIndex column.type
  | .unary operation expression => do
    let expression ← bindExpression schema expression
    return .unary operation expression
  | .binary operation left right => do
    let left ← bindExpression schema left
    let right ← bindExpression schema right
    return .binary operation left right
  | .isNull expression isNot => do
    let expression ← bindExpression schema expression
    return .isNull expression isNot

/-- `GetAggregateResultType`. -/
def getAggregateResultType (kind : AggregateKind) (argumentType : ExpressionType) :
    Result ExpressionType :=
  match kind, argumentType with
  | .count, _ => .ok .int64
  | .avg, .int64 | .avg, .double => .ok .double
  | .avg, _ => .error (invalidQuery "AVG supports only INT64 and DOUBLE")
  | .max, .int64 => .ok .int64
  | .max, .double => .ok .double
  | .max, _ => .error (invalidQuery "MAX supports only INT64 and DOUBLE")
  | .min, .int64 => .ok .int64
  | .min, .double => .ok .double
  | .min, _ => .error (invalidQuery "MIN supports only INT64 and DOUBLE")
  | .sum, .int64 => .ok .int64
  | .sum, .double => .ok .double
  | .sum, _ => .error (invalidQuery "SUM supports only INT64 and DOUBLE")

/-- `BindSelectItem`. -/
def bindSelectItem (schema : Schema) : SelectItem → Result (List BoundSelectItem)
  | .star => .ok (schema.columns.zipIdx.map fun c => .expression (.column c.2 c.1.type))
  | .expression expression => do
    let expression ← bindExpression schema expression
    return [.expression expression]
  | .aggregate kind expression => do
    let argument ← bindExpression schema expression
    let resultType ← getAggregateResultType kind argument.type
    return [.aggregate kind argument resultType]

/-- `BindOrderByItem`. -/
def bindOrderByItem (schema : Schema) (item : OrderByItem) : Result BoundOrderByItem := do
  let expression ← bindExpression schema item.expression
  return ⟨expression, item.direction⟩

/-- `ValidateWhere`. -/
def validateWhere (statement : BoundSelectStatement) : Result Unit :=
  if statement.whereExpression.any fun expression => decide (expression.type ≠ .boolean) then
    .error (invalidQuery "WHERE expression must be BOOLEAN")
  else .ok ()

/-- `==` of two literals: of one alternative and equal, so that NaN equals nothing
and the two zeros equal each other. -/
def literalEqual : NullableValue → NullableValue → Bool
  | none, none => true
  | some (.int64 left), some (.int64 right) => decide (left = right)
  | some (.double left), some (.double right) =>
    !left.isNaN && !right.isNaN && decide (left.rank = right.rank)
  | some (.string left), some (.string right) => decide (left = right)
  | _, _ => false

/-- `AreEquivalentExpressions`. -/
def areEquivalentExpressions : BoundExpression → BoundExpression → Bool
  | .literal left leftType, .literal right rightType =>
    decide (leftType = rightType) && literalEqual left right
  | .column left leftType, .column right rightType =>
    decide (valueTypeToExpressionType leftType = valueTypeToExpressionType rightType) &&
      decide (left = right)
  | .unary leftOperation left, .unary rightOperation right =>
    decide (leftOperation = rightOperation) && areEquivalentExpressions left right
  | .binary leftOperation left left', .binary rightOperation right right' =>
    decide (leftOperation = rightOperation) && areEquivalentExpressions left right &&
      areEquivalentExpressions left' right'
  | .isNull left leftIsNot, .isNull right rightIsNot =>
    decide (leftIsNot = rightIsNot) && areEquivalentExpressions left right
  | _, _ => false

/-- A select item that needs no GROUP BY item, or has one. -/
def groupedItem (groupByItems : List BoundExpression) : BoundSelectItem → Bool
  | .aggregate _ _ _ => true
  | .expression expression => groupByItems.any (areEquivalentExpressions expression)

/-- `ValidateGroupedSelect`. -/
def validateGroupedSelect (statement : BoundSelectStatement) : Result Unit :=
  let hasAggregates := hasAggregateSelectItems statement
  if !hasAggregates && statement.groupByItems.isEmpty then .ok ()
  else if hasAggregates && statement.groupByItems.isEmpty then
    if statement.selectItems.all BoundSelectItem.isAggregate then .ok ()
    else .error (invalidQuery
      "Non-aggregate SELECT item is not allowed without GROUP BY when aggregates are present")
  else if statement.selectItems.all (groupedItem statement.groupByItems) then .ok ()
  else .error (invalidQuery "Non-aggregate SELECT item must appear in GROUP BY")

/-- `BindSelect` over the schema of the table. -/
def bindSelectOver (schema : Schema) (statement : SelectStatement) :
    Result BoundSelectStatement := do
  let items ← statement.selectItems.mapM (bindSelectItem schema)
  let whereExpression ← statement.whereExpression.mapM (bindExpression schema)
  let groupByItems ← statement.groupByItems.mapM (bindExpression schema)
  let orderByItems ← statement.orderByItems.mapM (bindOrderByItem schema)
  let bound : BoundSelectStatement := {
    tableName := statement.tableName
    schema := schema
    selectItems := items.flatten
    whereExpression := whereExpression
    groupByItems := groupByItems
    orderByItems := orderByItems
    limit := statement.limit }
  validateWhere bound
  validateGroupedSelect bound
  return bound

/-- `GetSchema`. -/
def getSchema {α : Type} (engine : IStorageEngine α) (tableName : Bytes) : Result Schema :=
  if !engine.tableExists tableName then .error (tableNotFound tableName)
  else engine.getTableSchema tableName

/-- `BindSelect`. -/
def bindSelect {α : Type} (engine : IStorageEngine α) (statement : SelectStatement) :
    Result BoundSelectStatement := do
  let schema ← getSchema engine statement.tableName
  bindSelectOver schema statement

/-! ## What the binder guarantees -/

/-- An aggregate as the binder types it. -/
def TypedItem (schema : Schema) : BoundSelectItem → Prop
  | .expression expression => WellTyped schema expression
  | .aggregate kind expression resultType =>
    WellTyped schema expression ∧ getAggregateResultType kind expression.type = .ok resultType

/-- A bound statement: every expression is well typed, WHERE is Boolean, and one
value stands for a group where the select list needs that. -/
structure Bound (schema : Schema) (statement : BoundSelectStatement) : Prop where
  schema_eq : statement.schema = schema
  items : ∀ item ∈ statement.selectItems, TypedItem schema item
  whereTyped : ∀ e ∈ statement.whereExpression, WellTyped schema e ∧ e.type = .boolean
  groupBy : ∀ e ∈ statement.groupByItems, WellTyped schema e
  orderBy : ∀ item ∈ statement.orderByItems, WellTyped schema item.expression
  validated : validateGroupedSelect statement = .ok ()

theorem wellTyped_bindExpression {schema : Schema} {e : Expression} {b : BoundExpression}
    (h : bindExpression schema e = .ok b) : WellTyped schema b := by
  induction e generalizing b with
  | nullLiteral | intLiteral _ | doubleLiteral _ | stringLiteral _ =>
    cases h
    trivial
  | column name =>
    unfold bindExpression at h
    split at h
    · cases h
    · rename_i i _
      obtain ⟨column, hcolumn, h⟩ := Result.bind_eq_ok.mp h
      cases h
      unfold Schema.getColumn at hcolumn
      split at hcolumn
      · rename_i c hc
        cases hcolumn
        simp [WellTyped, Schema.types, hc]
      · cases hcolumn
  | unary operation e ih =>
    obtain ⟨b', hb', h⟩ := Result.bind_eq_ok.mp h
    cases h
    show WellTyped schema b'
    exact ih hb'
  | binary operation l r ihl ihr =>
    obtain ⟨bl, hl, h⟩ := Result.bind_eq_ok.mp h
    obtain ⟨br, hr, h⟩ := Result.bind_eq_ok.mp h
    cases h
    exact ⟨ihl hl, ihr hr⟩
  | isNull e isNot ih =>
    obtain ⟨b', hb', h⟩ := Result.bind_eq_ok.mp h
    cases h
    show WellTyped schema b'
    exact ih hb'

private theorem typedItem_bindSelectItem {schema : Schema} {item : SelectItem}
    {items : List BoundSelectItem} (h : bindSelectItem schema item = .ok items) :
    ∀ b ∈ items, TypedItem schema b := by
  intro b hb
  cases item with
  | star =>
    cases h
    obtain ⟨⟨c, i⟩, hmem, rfl⟩ := List.mem_map.mp hb
    have hget := List.mem_zipIdx_iff_getElem?.mp hmem
    simp [TypedItem, WellTyped, Schema.types, hget]
  | expression e =>
    obtain ⟨b', hb', h⟩ := Result.bind_eq_ok.mp h
    cases h
    obtain rfl := List.mem_singleton.mp hb
    exact wellTyped_bindExpression hb'
  | aggregate kind e =>
    obtain ⟨b', hb', h⟩ := Result.bind_eq_ok.mp h
    obtain ⟨type, htype, h⟩ := Result.bind_eq_ok.mp h
    cases h
    obtain rfl := List.mem_singleton.mp hb
    exact ⟨wellTyped_bindExpression hb', htype⟩

/-- What the binder accepts is bound. -/
theorem bound_bindSelectOver {schema : Schema} {statement : SelectStatement}
    {bound : BoundSelectStatement} (h : bindSelectOver schema statement = .ok bound) :
    Bound schema bound := by
  obtain ⟨items, hitems, h⟩ := Result.bind_eq_ok.mp h
  obtain ⟨whereExpression, hwhere, h⟩ := Result.bind_eq_ok.mp h
  obtain ⟨groupBy, hgroupBy, h⟩ := Result.bind_eq_ok.mp h
  obtain ⟨orderBy, horderBy, h⟩ := Result.bind_eq_ok.mp h
  obtain ⟨_, hvalidWhere, h⟩ := Result.bind_eq_ok.mp h
  obtain ⟨_, hvalidGrouped, h⟩ := Result.bind_eq_ok.mp h
  cases h
  refine ⟨rfl, ?_, ?_, ?_, ?_, hvalidGrouped⟩
  · intro item hitem
    obtain ⟨boundItems, hbound, hmem⟩ := List.mem_flatten.mp hitem
    obtain ⟨source, -, hsource⟩ := Result.exists_of_mem_mapM hitems hbound
    exact typedItem_bindSelectItem hsource item hmem
  · intro e he
    dsimp only at he
    constructor
    · cases hs : statement.whereExpression with
      | none =>
        rw [hs] at hwhere
        cases hwhere
        cases he
      | some source =>
        rw [hs] at hwhere
        obtain ⟨b, hb, hwhere⟩ := Result.bind_eq_ok.mp hwhere
        cases hwhere
        cases he
        exact wellTyped_bindExpression hb
    · unfold validateWhere at hvalidWhere
      split at hvalidWhere
      · cases hvalidWhere
      · rename_i hany
        rw [Option.mem_def.mp he] at hany
        simpa using hany
  · intro e he
    obtain ⟨source, -, hsource⟩ := Result.exists_of_mem_mapM hgroupBy he
    exact wellTyped_bindExpression hsource
  · intro item hitem
    obtain ⟨source, -, hsource⟩ := Result.exists_of_mem_mapM horderBy hitem
    obtain ⟨e, he, hsource⟩ := Result.bind_eq_ok.mp hsource
    cases hsource
    exact wellTyped_bindExpression he

/-- A statement bound with another limit is bound. -/
theorem Bound.withLimit {schema : Schema} {statement : BoundSelectStatement}
    (h : Bound schema statement) (limit : Option Nat) :
    Bound schema { statement with limit := limit } :=
  ⟨h.schema_eq, h.items, h.whereTyped, h.groupBy, h.orderBy, h.validated⟩

end Htap.Executor
