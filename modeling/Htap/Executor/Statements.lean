import Htap.Executor.Insert
import Htap.Executor.Select

/-!
Statements, from the parser to the storage engine: what the binder makes of each, and what
`Execute` does with it.
-/

namespace Htap

/-- `what()`, a text and the name it ends with. The last two stand for no exception of
the source. -/
def Exception.what : Exception → String × List UInt8
  | .runtimeError what name | .invalidArgument what name => (what, name)
  | .logicError what | .outOfRange what | .iosFailure what => (what, [])
  | .badVariantAccess => ("bad_variant_access", [])
  | .danglingIterator | .outOfFuel => ("", [])

end Htap

namespace Htap.Executor

open Storage Htap.Parser SSTable Read Cursor

/-! ## Binding -/

structure BoundCreateTableStatement where
  tableName : Bytes
  schema : Schema
  deriving DecidableEq

inductive BoundStatement where
  | createTable (statement : BoundCreateTableStatement)
  | insert (statement : BoundInsertStatement)
  | select (statement : BoundSelectStatement)
  deriving DecidableEq

def parserDataTypeToStorageValueType : DataType → ValueType
  | .int64 => .int64
  | .double => .double
  | .string => .string

def addDefinition (builder : SchemaBuilder) (column : ColumnDefinition) : Result SchemaBuilder :=
  builder.addColumn column.name (parserDataTypeToStorageValueType column.type) column.isKey
    column.nullable

/-- The `try` block of `BindCreateTable`. -/
def buildTable (statement : CreateTableStatement) : Result BoundCreateTableStatement := do
  let builder ← statement.columns.foldlM addDefinition {}
  let schema ← builder.build
  return ⟨statement.tableName, schema⟩

/-- `BindCreateTable`. -/
def bindCreateTable (statement : CreateTableStatement) : Result BoundCreateTableStatement :=
  match buildTable statement with
  | .ok bound => .ok bound
  | .error e => .error (invalidQuery e.what.1 e.what.2)

/-- `Bind`. -/
def bind {α : Type} (engine : IStorageEngine α) : Statement → Result BoundStatement
  | .createTable statement => do
    let bound ← bindCreateTable statement
    return .createTable bound
  | .insert statement => do
    let bound ← bindInsert engine statement
    return .insert bound
  | .select statement => do
    let bound ← bindSelect engine statement
    return .select bound

/-! ## The schema of a new table -/

private theorem callAll_of_foldlM {columns : List ColumnDefinition} {builder next : SchemaBuilder}
    (h : columns.foldlM addDefinition builder = .ok next) :
    ∃ calls : List SchemaBuilder.Call, next = calls.foldl SchemaBuilder.call builder := by
  induction columns generalizing builder with
  | nil =>
    cases h
    exact ⟨[], rfl⟩
  | cons column columns ih =>
    rw [List.foldlM_cons] at h
    obtain ⟨added, hadded, hrest⟩ := Result.bind_eq_ok.mp h
    obtain ⟨calls, rfl⟩ := ih hrest
    refine ⟨⟨column.name, parserDataTypeToStorageValueType column.type, column.isKey,
      column.nullable⟩ :: calls, ?_⟩
    rw [List.foldl_cons, SchemaBuilder.call]
    rw [addDefinition] at hadded
    rw [hadded]

/-- The schema of CREATE TABLE comes from the builder. -/
theorem fromBuilder_bindCreateTable {statement : CreateTableStatement}
    {bound : BoundCreateTableStatement} (h : bindCreateTable statement = .ok bound) :
    bound.schema.FromBuilder := by
  unfold bindCreateTable at h
  split at h
  · rename_i built hbuilt
    cases h
    obtain ⟨builder, hbuilder, hrest⟩ := Result.bind_eq_ok.mp hbuilt
    obtain ⟨schema, hschema, hrest⟩ := Result.bind_eq_ok.mp hrest
    cases hrest
    obtain ⟨calls, rfl⟩ := callAll_of_foldlM hbuilder
    exact ⟨calls, hschema⟩
  · cases h

theorem fromBuilder_of_bind {α : Type} {engine : IStorageEngine α} {statement : Statement}
    {bound : BoundCreateTableStatement} (h : bind engine statement = .ok (.createTable bound)) :
    bound.schema.FromBuilder := by
  cases statement with
  | createTable statement =>
    obtain ⟨create, hcreate, h⟩ := Result.bind_eq_ok.mp h
    cases h
    exact fromBuilder_bindCreateTable hcreate
  | insert statement =>
    obtain ⟨insert, -, h⟩ := Result.bind_eq_ok.mp h
    cases h
  | select statement =>
    obtain ⟨select, -, h⟩ := Result.bind_eq_ok.mp h
    cases h

theorem wellFormed_of_bind {α : Type} {engine : IStorageEngine α} {statement : Statement}
    {bound : BoundCreateTableStatement} (h : bind engine statement = .ok (.createTable bound)) :
    bound.schema.WellFormed :=
  (fromBuilder_of_bind h).wellFormed

/-! ## What was bound -/

theorem insert_of_bind {α : Type} {engine : IStorageEngine α} {statement : Statement}
    {bound : BoundInsertStatement} (h : bind engine statement = .ok (.insert bound)) :
    ∃ source schema, statement = .insert source ∧ getSchema engine source.tableName = .ok schema ∧
      bindInsertOver schema source = .ok bound := by
  cases statement with
  | createTable statement =>
    obtain ⟨create, -, h⟩ := Result.bind_eq_ok.mp h
    cases h
  | insert source =>
    obtain ⟨insert, hinsert, h⟩ := Result.bind_eq_ok.mp h
    cases h
    obtain ⟨schema, hschema, hover⟩ := Result.bind_eq_ok.mp hinsert
    exact ⟨source, schema, rfl, hschema, hover⟩
  | select statement =>
    obtain ⟨select, -, h⟩ := Result.bind_eq_ok.mp h
    cases h

theorem select_of_bind {α : Type} {engine : IStorageEngine α} {statement : Statement}
    {bound : BoundSelectStatement} (h : bind engine statement = .ok (.select bound)) :
    ∃ source schema, statement = .select source ∧ getSchema engine source.tableName = .ok schema ∧
      bindSelectOver schema source = .ok bound := by
  cases statement with
  | createTable statement =>
    obtain ⟨create, -, h⟩ := Result.bind_eq_ok.mp h
    cases h
  | insert statement =>
    obtain ⟨insert, -, h⟩ := Result.bind_eq_ok.mp h
    cases h
  | select source =>
    obtain ⟨select, hselect, h⟩ := Result.bind_eq_ok.mp h
    cases h
    obtain ⟨schema, hschema, hover⟩ := Result.bind_eq_ok.mp hselect
    exact ⟨source, schema, rfl, hschema, hover⟩

/-! ## Execution -/

inductive ExecutionResult where
  | createTable
  | insert (insertedRows : Nat)
  | select (result : SelectResult)
  deriving DecidableEq

/-- A storage engine with its state: what can be read of it, and what changes it. -/
structure StorageEngine (σ α : Type) where
  reads : σ → IStorageEngine α
  createTable : σ → Bytes → Schema → Result σ
  insert : σ → Bytes → Row → Result σ

variable {σ α : Type} [ICursor α]

/-- `Execute`. A SELECT leaves the tables as they are; what it caches is not part of them. -/
def execute (std : StdSort Exception) (engine : StorageEngine σ α) (fuel : Nat) (state : σ) :
    BoundStatement → Result (ExecutionResult × σ)
  | .createTable statement => do
    let state ← engine.createTable state statement.tableName statement.schema
    return (.createTable, state)
  | .insert statement => do
    let state ← engine.insert state statement.tableName statement.rowValues
    return (.insert 1, state)
  | .select statement => do
    let result ← executeSelect std (engine.reads state) fuel statement
    return (.select result, state)

/-- A statement is bound and executed. -/
def runStatement (std : StdSort Exception) (engine : StorageEngine σ α) (fuel : Nat) (state : σ)
    (statement : Statement) : Result (ExecutionResult × σ) := do
  let bound ← bind (engine.reads state) statement
  execute std engine fuel state bound

end Htap.Executor
