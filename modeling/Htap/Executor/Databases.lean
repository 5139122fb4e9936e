import Htap.Executor.PairTable
import Htap.Executor.SkippingSelect
import Htap.Executor.Statements
import Htap.Tree.Durability
import Htap.Tree.Engine

/-!
The two storage engines with their tables: the mock, one ordered map for each table, and the
LSM engine, one tree for each table. A mock table and a tree correspond when the same rows
were inserted into both.
-/

namespace Htap.Executor

open Storage SSTable Read Cursor Words Htap.Tree Htap.Tree.Session Htap.Parser

def tableAlreadyExists : Exception := .runtimeError "Table already exists"

/-! ## The mock -/

namespace MockStorageEngine

/-- `tables_`. -/
abbrev Tables : Type := Bytes → Option MockTable

def createTable (tables : Tables) (tableName : Bytes) (schema : Schema) : Result Tables :=
  if (tables tableName).isSome then .error tableAlreadyExists
  else .ok (Function.update tables tableName (some ⟨schema, MemTable.empty⟩))

/-- The checks of `insert`, and the map after it. -/
def insertInto (table : MockTable) (values : Row) : Result MockTable :=
  if values.length ≠ table.schema.size then
    .error (.runtimeError "Row size mismatch schema")
  else if !(values.zipIdx.all fun v => table.schema.isValidValue v.2 v.1) then
    .error (.runtimeError "Invalid value for column")
  else
    match values[keyColumnIndex]?.join with
    | none => .error (.runtimeError "Key cannot be NULL")
    | some (.int64 _) => .ok { table with data := table.data.insert values }
    | some _ => .error (.runtimeError "Key must be int64")

def insert (tables : Tables) (tableName : Bytes) (values : Row) : Result Tables :=
  match tables tableName with
  | none => .error tableDoesNotExist
  | some table => do
    let table ← insertInto table values
    return Function.update tables tableName (some table)

end MockStorageEngine

def mockDatabase : StorageEngine MockStorageEngine.Tables MockCursor where
  reads := mockStorageEngine
  createTable := MockStorageEngine.createTable
  insert := MockStorageEngine.insert

/-! ## The LSM engine -/

/-- `LSMStorageEngine` with the sessions of its tables. Each tree works in a directory of its
own, empty when the table is created. -/
structure LSMTables where
  config : StorageConfig
  tables : Bytes → Option Session := fun _ => none

namespace LSMTables

def setTable (db : LSMTables) (tableName : Bytes) (s : Session) : LSMTables :=
  { db with tables := Function.update db.tables tableName (some s) }

def createTable (db : LSMTables) (tableName : Bytes) (schema : Schema) : Result LSMTables :=
  if (db.tables tableName).isSome then .error tableAlreadyExists
  else do
    let config := { db.config with rootPath := joinPath db.config.rootPath tableName }
    let tree ← LSMTree.create schema config ⟨fun _ => none, none⟩
    return db.setTable tableName { tree := tree }

/-- Up to the background work that it may start. -/
def insert (db : LSMTables) (tableName : Bytes) (values : Row) : Result LSMTables :=
  match db.tables tableName with
  | none => .error tableDoesNotExist
  | some s => do
    let tree ← LSMStorageEngine.insert s.tree values
    return db.setTable tableName { s with tree := tree, inserted := s.inserted ++ [values] }

/-- What holds of all tables, when it holds of the new one. -/
theorem forall_setTable {P : Session → Prop} {db : LSMTables} {s : Session}
    (h : ∀ tableName s, db.tables tableName = some s → P s) (hs : P s) (tableName : Bytes) :
    ∀ other s', (db.setTable tableName s).tables other = some s' → P s' := by
  intro other s' hs'
  change Function.update db.tables tableName (some s) other = some s' at hs'
  rw [Function.update_apply] at hs'
  split at hs'
  · cases hs'
    exact hs
  · exact h other s' hs'

end LSMTables

def lsmDatabase : StorageEngine LSMTables (ComposedCursor ScanCursor) where
  reads db := lsmStorageEngine fun tableName => (db.tables tableName).map Session.tree
  createTable := LSMTables.createTable
  insert := LSMTables.insert

/-! ## Tables that correspond -/

/-- What the formats and the mock ask of the rows of a table. -/
structure Admissible (s : Session) : Prop where
  alone : s.Alone
  bounded : s.Bounded
  keys : (s.inserted.map rowKey).Nodup
  numbers : Numbers s.inserted
  below : ∀ row ∈ s.inserted, rowKey row ≠ Int64.maxValue

/-- The session has run in one process, and the mock table holds what was inserted. -/
structure Corresponds (s : Session) (table : MockTable) : Prop where
  run : ∃ start, Starts start ∧ Run (fun _ _ => True) start s
  admissible : Admissible s
  schema : table.schema = s.tree.schema
  rows : table.data.rows.Perm s.inserted

variable {s : Session} {table : MockTable} {schema : Schema} {rows : List Row}

/-- Sessions and mock tables of the same names. -/
def SameTables (db : LSMTables) (mock : MockStorageEngine.Tables) : Prop :=
  ∀ tableName, Option.Rel Corresponds (db.tables tableName) (mock tableName)

/-- What the tree of the session stores. -/
structure Holds (s : Session) (rows : List Row) : Prop where
  schema : s.tree.schema.WellFormed
  stores : Stores s.tree rows
  rows : rows.Perm s.inserted

/-- In one process a tree stores what was inserted. -/
theorem exists_holds {start : Session} (hstart : Starts start)
    (hrun : Run (fun _ _ => True) start s) (hkeys : (s.inserted.map rowKey).Nodup) :
    ∃ rows, Holds s rows := by
  obtain ⟨built, hsound, hstores, hperm⟩ := hrun.exists_stores hstart hkeys
  exact ⟨_, hsound.invariant.keyed, hstores, hperm⟩

theorem Corresponds.exists_rows (h : Corresponds s table) : ∃ rows, Holds s rows := by
  obtain ⟨start, hstart, hrun⟩ := h.run
  exact exists_holds hstart hrun h.admissible.keys

/-- Inserted rows have passed the checks. -/
theorem Corresponds.valid (h : Corresponds s table) :
    ∀ row ∈ table.data.rows, ValidRow table.schema row := by
  obtain ⟨rows, hholds⟩ := h.exists_rows
  intro row hrow
  rw [h.schema]
  exact hholds.stores.valid row ((hholds.rows.trans h.rows.symm).mem_iff.mpr hrow)

theorem SameTables.cases {db : LSMTables} {mock : MockStorageEngine.Tables}
    (h : SameTables db mock) (tableName : Bytes) :
    (db.tables tableName = none ∧ mock tableName = none) ∨
      ∃ s table, db.tables tableName = some s ∧ mock tableName = some table ∧
        Corresponds s table := by
  have hrel := h tableName
  cases hs : db.tables tableName with
  | none =>
    rw [hs] at hrel
    cases hmock : mock tableName with
    | none => exact Or.inl ⟨rfl, rfl⟩
    | some table =>
      rw [hmock] at hrel
      cases hrel
  | some s =>
    rw [hs] at hrel
    cases hmock : mock tableName with
    | none =>
      rw [hmock] at hrel
      cases hrel
    | some table =>
      rw [hmock] at hrel
      cases hrel with
      | some hcorresponds => exact Or.inr ⟨s, table, rfl, rfl, hcorresponds⟩

/-- The mock skips nothing. -/
theorem skipsRows_mock {tables : Bytes → Option MockTable} {name : Bytes}
    (htable : tables name = some table)
    (hwidth : ∀ row ∈ table.data.rows, row.length = table.schema.size)
    (hbelow : ∀ row ∈ table.data.rows, rowKey row ≠ Int64.maxValue) :
    SkipsRows (mockStorageEngine tables) name table.schema table.data.rows := by
  have hserves := servesTable_mock htable hwidth hbelow
  constructor
  · exact hserves.get
  · intro fromKey toKey projection order filter _ hrange hprojection
    obtain ⟨c, w, found, hscan, hreads, hperm, hsorted⟩ :=
      hserves.scan fromKey toKey projection order {} hrange hprojection
    exact ⟨c, w, c, w, found, found, hscan, hreads, hperm, hsorted, hscan, hreads,
      Pruned.refl _ found⟩

/-! ## Insertions -/

/-- The mock makes the checks of the LSM engine; a key that is no INT64 has failed before. -/
theorem insertInto_eq (hschema : table.schema.WellFormed) (values : Row) :
    MockStorageEngine.insertInto table values =
      (validateRow table.schema values).map fun _ =>
        { table with data := table.data.insert values } := by
  by_cases hlength : values.length ≠ table.schema.size
  · simp only [MockStorageEngine.insertInto, validateRow, if_pos hlength]
    rfl
  by_cases hvalid : (!(values.zipIdx.all fun v => table.schema.isValidValue v.2 v.1)) = true
  · simp only [MockStorageEngine.insertInto, validateRow, if_neg hlength, if_pos hvalid]
    rfl
  have hchecked : validateRow table.schema values =
      if (values[keyColumnIndex]?.join).isNone then .error (.runtimeError "Key cannot be NULL")
      else .ok () := by
    rw [validateRow, if_neg hlength, if_neg hvalid]
  rw [hchecked, MockStorageEngine.insertInto, if_neg hlength, if_neg hvalid]
  cases hkey : values[keyColumnIndex]?.join with
  | none => rfl
  | some value =>
    rw [hkey] at hchecked
    obtain ⟨key, rest, rfl⟩ := (validRow_of_validateRow hschema hchecked).key
    obtain rfl : Value.int64 key = value := by simpa [keyColumnIndex] using hkey
    rfl

/-! ## Binding -/

section

variable {db : LSMTables} {mock : MockStorageEngine.Tables}

private theorem getSchema_eq (h : SameTables db mock) (tableName : Bytes) :
    getSchema (mockDatabase.reads mock) tableName = getSchema (lsmDatabase.reads db) tableName := by
  rcases h.cases tableName with ⟨hs, htable⟩ | ⟨s, table, hs, htable, hcorresponds⟩
  · simp [getSchema, mockDatabase, lsmDatabase, mockStorageEngine, lsmStorageEngine, hs, htable]
  · simp [getSchema, mockDatabase, lsmDatabase, mockStorageEngine, lsmStorageEngine, hs, htable,
      hcorresponds.schema]

/-- Binding asks an engine for the schema of a table only. -/
theorem bind_eq (h : SameTables db mock) (statement : Statement) :
    bind (mockDatabase.reads mock) statement = bind (lsmDatabase.reads db) statement := by
  cases statement with
  | createTable statement => rfl
  | insert statement => simp only [bind, bindInsert, getSchema_eq h]
  | select statement => simp only [bind, bindSelect, getSchema_eq h]

/-- A table whose schema is found is there. -/
theorem exists_of_getSchema {tableName : Bytes} {schema : Schema}
    (h : getSchema (lsmDatabase.reads db) tableName = .ok schema) :
    ∃ s, db.tables tableName = some s ∧ s.tree.schema = schema := by
  cases hs : db.tables tableName with
  | none => simp [getSchema, lsmDatabase, lsmStorageEngine, hs] at h
  | some s =>
    refine ⟨s, rfl, ?_⟩
    simpa [getSchema, lsmDatabase, lsmStorageEngine, hs] using h

/-- A SELECT that is bound reads a table of both. -/
theorem exists_table_of_select (h : SameTables db mock) {statement : Statement}
    {bound : BoundSelectStatement}
    (hbind : bind (lsmDatabase.reads db) statement = .ok (.select bound)) :
    ∃ s table, db.tables bound.tableName = some s ∧ mock bound.tableName = some table ∧
      Corresponds s table ∧ Bound s.tree.schema bound := by
  obtain ⟨source, schema, -, hschema, hover⟩ := select_of_bind hbind
  obtain ⟨s, hs, rfl⟩ := exists_of_getSchema hschema
  rw [tableName_bindSelectOver hover]
  rcases h.cases source.tableName with ⟨hnone, -⟩ | ⟨s', table, hs', htable, hcorresponds⟩
  · rw [hs] at hnone
    cases hnone
  · obtain rfl : s = s' := Option.some.inj (hs.symm.trans hs')
    exact ⟨s, table, hs, htable, hcorresponds, bound_bindSelectOver hover⟩

/-! ## Steps -/

theorem SameTables.set (h : SameTables db mock) (tableName : Bytes)
    (hcorresponds : Corresponds s table) :
    SameTables (db.setTable tableName s) (Function.update mock tableName (some table)) := by
  intro other
  change Option.Rel Corresponds (Function.update db.tables tableName (some s) other) _
  by_cases heq : other = tableName
  · rw [heq, Function.update_self, Function.update_self]
    exact .some hcorresponds
  · rw [Function.update_of_ne heq, Function.update_of_ne heq]
    exact h other

/-- Background work, and reading on through a cursor. -/
theorem Corresponds.work {s' : Session} (h : Corresponds s table) (hstep : Session.Step s s')
    (hquiet : s'.inserted = s.inserted) (hadmissible : Admissible s') : Corresponds s' table := by
  obtain ⟨start, hstart, hrun⟩ := h.run
  have hrun' := hrun.step hstep trivial hadmissible.alone hadmissible.bounded
  refine ⟨⟨start, hstart, hrun'⟩, hadmissible, ?_, ?_⟩
  · rw [h.schema, hrun'.schema_eq, hrun.schema_eq]
  · rw [hquiet]
    exact h.rows

/-- A row goes into both. -/
theorem Corresponds.insert {values : Row} {tree : LSMTree} (h : Corresponds s table)
    (hinsert : LSMStorageEngine.insert s.tree values = .ok tree)
    (hadmissible : Admissible { s with tree := tree, inserted := s.inserted ++ [values] }) :
    Corresponds { s with tree := tree, inserted := s.inserted ++ [values] }
      { table with data := table.data.insert values } := by
  obtain ⟨start, hstart, hrun⟩ := h.run
  have hrun' := hrun.step (.insert hinsert) trivial hadmissible.alone hadmissible.bounded
  refine ⟨⟨start, hstart, hrun'⟩, hadmissible, ?_, ?_⟩
  · have hschema := hrun'.schema_eq
    rw [← hrun.schema_eq] at hschema
    rw [h.schema, hschema]
  · have hkeys := hadmissible.keys
    rw [List.map_append, List.nodup_append] at hkeys
    have hfresh : (table.data.rows.filter fun r => rowKey r ≠ rowKey values) = table.data.rows := by
      apply List.filter_eq_self.mpr
      intro r hr
      apply decide_eq_true
      intro heq
      exact hkeys.2.2 _ (List.mem_map_of_mem (h.rows.mem_iff.mp hr)) _ (by simp) heq
    have hperm := table.data.rows_insert_perm values
    rw [hfresh] at hperm
    exact hperm.trans ((h.rows.cons values).trans (List.perm_append_singleton values _).symm)

/-- A table that was just created, in both. -/
theorem corresponds_new {config : StorageConfig} {tree : LSMTree} (hschema : schema.WellFormed)
    (hcreate : LSMTree.create schema config ⟨fun _ => none, none⟩ = .ok tree)
    (hadmissible : Admissible { tree := tree }) :
    Corresponds { tree := tree } ⟨schema, MemTable.empty⟩ := by
  refine ⟨⟨_, .create hschema hcreate, .start hadmissible.bounded⟩, hadmissible, ?_, ?_⟩
  · obtain ⟨-, -, registry, nextSstId, -, rfl⟩ := tree_of_create hcreate
    rfl
  · exact List.Perm.refl _

theorem createTable_cases (h : SameTables db mock) (tableName : Bytes) (schema : Schema) :
    (db.createTable tableName schema = .error tableAlreadyExists ∧
      MockStorageEngine.createTable mock tableName schema = .error tableAlreadyExists) ∨
    (db.createTable tableName schema =
        (LSMTree.create schema { db.config with rootPath := joinPath db.config.rootPath tableName }
          ⟨fun _ => none, none⟩).map (fun tree => db.setTable tableName { tree := tree }) ∧
      MockStorageEngine.createTable mock tableName schema =
        .ok (Function.update mock tableName (some ⟨schema, MemTable.empty⟩))) := by
  unfold LSMTables.createTable MockStorageEngine.createTable
  rcases h.cases tableName with ⟨hs, htable⟩ | ⟨s, table, hs, htable, -⟩
  · right
    rw [hs, htable]
    exact ⟨rfl, rfl⟩
  · left
    rw [hs, htable]
    exact ⟨rfl, rfl⟩

/-- Both engines accept a row, or both refuse it for the same reason. -/
theorem insert_cases (h : SameTables db mock) (tableName : Bytes) (values : Row) :
    (∃ e, db.insert tableName values = .error e ∧
      MockStorageEngine.insert mock tableName values = .error e) ∨
    ∃ s table tree, Corresponds s table ∧ LSMStorageEngine.insert s.tree values = .ok tree ∧
      db.insert tableName values =
        .ok (db.setTable tableName { s with tree := tree, inserted := s.inserted ++ [values] }) ∧
      MockStorageEngine.insert mock tableName values =
        .ok (Function.update mock tableName
          (some { table with data := table.data.insert values })) := by
  unfold LSMTables.insert MockStorageEngine.insert
  rcases h.cases tableName with ⟨hs, htable⟩ | ⟨s, table, hs, htable, hcorresponds⟩
  · exact Or.inl ⟨tableDoesNotExist, by rw [hs], by rw [htable]⟩
  · obtain ⟨rows, hholds⟩ := hcorresponds.exists_rows
    have hschema := hholds.schema
    rw [← hcorresponds.schema] at hschema
    rw [hs, htable]
    dsimp only
    rw [insertInto_eq hschema, LSMStorageEngine.insert, ← hcorresponds.schema]
    cases hchecked : validateRow table.schema values with
    | error e => exact Or.inl ⟨e, rfl, rfl⟩
    | ok _ =>
      refine Or.inr ⟨s, table, s.tree.insertRow values, hcorresponds, ?_, rfl, rfl⟩
      rw [LSMStorageEngine.insert, ← hcorresponds.schema, hchecked]
      rfl

/-! ## Runs of both -/

/-- What happens to the two engines together: statements that both run, and background work
of the trees at any time. Every table stays admissible. -/
inductive Together (std : StdSort Exception) (fuel : Nat) (config : StorageConfig) :
    LSMTables → MockStorageEngine.Tables → Prop
  | start : Together std fuel config { config := config } fun _ => none
  | statement {db db' : LSMTables} {mock mock' : MockStorageEngine.Tables} {statement : Statement}
    {result result' : ExecutionResult} (h : Together std fuel config db mock)
    (hdb : runStatement std lsmDatabase fuel db statement = .ok (result, db'))
    (hmock : runStatement std mockDatabase fuel mock statement = .ok (result', mock'))
    (hadmissible : ∀ tableName s, db'.tables tableName = some s → Admissible s) :
    Together std fuel config db' mock'
  | work {db : LSMTables} {mock : MockStorageEngine.Tables} {tableName : Bytes} {s s' : Session}
    (h : Together std fuel config db mock) (htable : db.tables tableName = some s)
    (hstep : Session.Step s s') (hquiet : s'.inserted = s.inserted) (hadmissible : Admissible s') :
    Together std fuel config (db.setTable tableName s') mock

/-- A statement that runs on both leaves tables of the same rows. -/
private theorem SameTables.statement {std : StdSort Exception} {fuel : Nat} {db' : LSMTables}
    {mock' : MockStorageEngine.Tables} (h : SameTables db mock) {statement : Statement}
    {result result' : ExecutionResult}
    (hdb : runStatement std lsmDatabase fuel db statement = .ok (result, db'))
    (hmock : runStatement std mockDatabase fuel mock statement = .ok (result', mock'))
    (hadmissible : ∀ tableName s, db'.tables tableName = some s → Admissible s) :
    db'.config = db.config ∧ SameTables db' mock' := by
  obtain ⟨bound, hbound, hdb⟩ := Result.bind_eq_ok.mp hdb
  rw [runStatement, bind_eq h, hbound, Result.ok_bind] at hmock
  cases bound with
  | createTable create =>
    obtain ⟨next, hnext, hdb⟩ := Result.bind_eq_ok.mp hdb
    obtain ⟨nextMock, hnextMock, hmock⟩ := Result.bind_eq_ok.mp hmock
    cases hdb
    cases hmock
    change db.createTable _ _ = _ at hnext
    change MockStorageEngine.createTable _ _ _ = _ at hnextMock
    rcases createTable_cases h create.tableName create.schema with ⟨hfails, -⟩ | ⟨hlsm, hmock⟩
    · rw [hfails] at hnext
      cases hnext
    · rw [hmock] at hnextMock
      cases hnextMock
      rw [hlsm] at hnext
      cases hcreate : LSMTree.create create.schema
          { db.config with rootPath := joinPath db.config.rootPath create.tableName }
          ⟨fun _ => none, none⟩ with
      | error e =>
        rw [hcreate] at hnext
        cases hnext
      | ok tree =>
        rw [hcreate] at hnext
        cases hnext
        have hschema := wellFormed_of_bind hbound
        refine ⟨rfl, h.set create.tableName (corresponds_new hschema hcreate ?_)⟩
        exact hadmissible create.tableName _ (Function.update_self _ _ _)
  | insert insert =>
    obtain ⟨next, hnext, hdb⟩ := Result.bind_eq_ok.mp hdb
    obtain ⟨nextMock, hnextMock, hmock⟩ := Result.bind_eq_ok.mp hmock
    cases hdb
    cases hmock
    change db.insert _ _ = _ at hnext
    change MockStorageEngine.insert _ _ _ = _ at hnextMock
    rcases insert_cases h insert.tableName insert.rowValues with
      ⟨e, hfails, -⟩ | ⟨s, table, tree, hcorresponds, hinsert, hlsm, hmock⟩
    · rw [hfails] at hnext
      cases hnext
    · rw [hmock] at hnextMock
      cases hnextMock
      rw [hlsm] at hnext
      cases hnext
      refine ⟨rfl, h.set insert.tableName (hcorresponds.insert hinsert ?_)⟩
      exact hadmissible insert.tableName _ (Function.update_self _ _ _)
  | select select =>
    obtain ⟨selected, -, hdb⟩ := Result.bind_eq_ok.mp hdb
    obtain ⟨selected', -, hmock⟩ := Result.bind_eq_ok.mp hmock
    cases hdb
    cases hmock
    exact ⟨rfl, h⟩

theorem Together.sameTables {std : StdSort Exception} {fuel : Nat} {config : StorageConfig}
    (h : Together std fuel config db mock) : db.config = config ∧ SameTables db mock := by
  induction h with
  | start => exact ⟨rfl, fun _ => .none⟩
  | statement _ hdb hmock hadmissible ih =>
    obtain ⟨hconfig, hsame⟩ := ih
    obtain ⟨hkept, hsame'⟩ := hsame.statement hdb hmock hadmissible
    exact ⟨hkept.trans hconfig, hsame'⟩
  | @work db mock tableName s s' _ htable hstep hquiet hadmissible ih =>
    obtain ⟨hconfig, hsame⟩ := ih
    refine ⟨hconfig, ?_⟩
    rcases hsame.cases tableName with ⟨hnone, -⟩ | ⟨s₀, table, hs, hmock, hcorresponds⟩
    · rw [hnone] at htable
      cases htable
    · rw [hs, Option.some.injEq] at htable
      subst htable
      have hset := hsame.set tableName (hcorresponds.work hstep hquiet hadmissible)
      rwa [← hmock, Function.update_eq_self] at hset

end

end Htap.Executor
