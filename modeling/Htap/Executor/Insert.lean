import Htap.Executor.Binder

/-!
INSERT: the binder puts the values of the statement in the order of the schema,
NULL where the statement names no column, and checks every cell.
-/

namespace Htap.Executor

open Storage Htap.Parser

def typeMismatch (columnName : Bytes) : Exception :=
  .runtimeError "Invalid value for column: " columnName

structure BoundInsertStatement where
  tableName : Bytes
  schema : Schema
  rowValues : Row
  deriving DecidableEq

/-- `ConvertLiteralExpression`. -/
def convertLiteralExpression : Expression → Result NullableValue
  | .nullLiteral => .ok none
  | .intLiteral value => .ok (some (.int64 value))
  | .doubleLiteral value => .ok (some (.double value))
  | .stringLiteral value => .ok (some (.string value))
  | .column _ | .unary _ _ | .binary _ _ _ | .isNull _ _ =>
    .error (invalidQuery "Expected literal expression")

/-- The row of an INSERT on the way, and the columns that were named. -/
structure InsertRow where
  rowValues : Row
  assigned : List Bool
  deriving DecidableEq

/-- One round of the loop over the columns and values of an INSERT. -/
def assignColumn (schema : Schema) (row : InsertRow) (entry : Bytes × Expression) :
    Result InsertRow :=
  match schema.getColumnIndex entry.1 with
  | none => .error (columnNotFound entry.1)
  | some columnIndex =>
    if row.assigned.getD columnIndex false then
      .error (invalidQuery "Duplicate insert column: " entry.1)
    else do
      let value ← convertLiteralExpression entry.2
      return ⟨row.rowValues.set columnIndex value, row.assigned.set columnIndex true⟩

/-- The pass over the schema behind that loop; the first cell that does not fit its
column is the one that is reported. -/
def checkCells (schema : Schema) (rowValues : Row) : Result Unit :=
  match rowValues.zipIdx.find? fun v => !schema.isValidValue v.2 v.1 with
  | none => .ok ()
  | some v => do
    let column ← schema.getColumn v.2
    .error (typeMismatch column.name)

/-- `BindInsert` over the schema of the table. -/
def bindInsertOver (schema : Schema) (statement : InsertStatement) :
    Result BoundInsertStatement :=
  if statement.columnNames.length ≠ statement.values.length then
    .error (invalidQuery "The number of insert values does not match the number of columns")
  else do
    let row ← (statement.columnNames.zip statement.values).foldlM (assignColumn schema)
      ⟨List.replicate schema.size none, List.replicate schema.size false⟩
    checkCells schema row.rowValues
    return ⟨statement.tableName, schema, row.rowValues⟩

/-- `BindInsert`. -/
def bindInsert {α : Type} (engine : IStorageEngine α) (statement : InsertStatement) :
    Result BoundInsertStatement := do
  let schema ← getSchema engine statement.tableName
  bindInsertOver schema statement

/-! ## The loop -/

variable {schema : Schema} {row row' : InsertRow} {entry : Bytes × Expression}
  {entries : List (Bytes × Expression)}

/-- What one round does. -/
theorem assignColumn_eq_ok : assignColumn schema row entry = .ok row' ↔
    ∃ i value, schema.getColumnIndex entry.1 = some i ∧ row.assigned.getD i false = false ∧
      convertLiteralExpression entry.2 = .ok value ∧
      row' = ⟨row.rowValues.set i value, row.assigned.set i true⟩ := by
  unfold assignColumn
  cases hindex : schema.getColumnIndex entry.1 with
  | none => simp
  | some i =>
    cases hassigned : row.assigned.getD i false with
    | true =>
      dsimp only
      rw [if_pos hassigned]
      refine iff_of_false (by simp) ?_
      rintro ⟨j, value, hj, hfree, -⟩
      rw [← Option.some.inj hj, hassigned] at hfree
      cases hfree
    | false =>
      simp only [hassigned, Bool.false_eq_true, if_false, Result.bind_eq_ok, Result.pure_eq,
        Except.ok.injEq, Option.some.injEq]
      constructor
      · rintro ⟨value, hvalue, rfl⟩
        exact ⟨i, value, rfl, hassigned, hvalue, rfl⟩
      · rintro ⟨j, value, rfl, -, hvalue, rfl⟩
        exact ⟨value, hvalue, rfl⟩

/-- As wide as the schema. -/
def InsertRow.Wide (schema : Schema) (row : InsertRow) : Prop :=
  row.rowValues.length = schema.size ∧ row.assigned.length = schema.size

theorem InsertRow.Wide.set (h : row.Wide schema) (i : Nat) (value : NullableValue) :
    InsertRow.Wide schema ⟨row.rowValues.set i value, row.assigned.set i true⟩ := by
  constructor
  · rw [List.length_set, h.1]
  · rw [List.length_set, h.2]

theorem getColumnIndex_lt {name : Bytes} {i : Nat} (h : schema.getColumnIndex name = some i) :
    i < schema.size := by
  obtain ⟨c, hc, -⟩ := Schema.getColumnIndex_eq_some h
  exact (List.getElem?_eq_some_iff.mp hc).1

theorem getColumnIndex_inj {name name' : Bytes} {i : Nat}
    (h : schema.getColumnIndex name = some i) (h' : schema.getColumnIndex name' = some i) :
    name = name' := by
  obtain ⟨c, hc, rfl⟩ := Schema.getColumnIndex_eq_some h
  obtain ⟨c', hc', rfl⟩ := Schema.getColumnIndex_eq_some h'
  rw [hc, Option.some.injEq] at hc'
  rw [hc']

/-- What the loop over `entries` does to a row: every entry names a column of its own
that was free and puts its literal there, and the other cells stay. -/
structure Assigns (schema : Schema) (row : InsertRow) (entries : List (Bytes × Expression))
    (row' : InsertRow) : Prop where
  wide : row'.Wide schema
  distinct : (entries.map Prod.fst).Nodup
  placed : ∀ e ∈ entries, ∃ i value, schema.getColumnIndex e.1 = some i ∧
    row.assigned.getD i false = false ∧ convertLiteralExpression e.2 = .ok value ∧
    row'.rowValues[i]? = some value
  others : ∀ i, (∀ e ∈ entries, schema.getColumnIndex e.1 ≠ some i) →
    row'.rowValues[i]? = row.rowValues[i]?

theorem assigns_of_foldlM (hwide : row.Wide schema)
    (h : entries.foldlM (assignColumn schema) row = .ok row') :
    Assigns schema row entries row' := by
  induction entries generalizing row with
  | nil =>
    cases h
    refine ⟨hwide, List.nodup_nil, ?_, fun i _ => rfl⟩
    intro e he
    cases he
  | cons entry entries ih =>
    rw [List.foldlM_cons] at h
    obtain ⟨next, hnext, hrest⟩ := Result.bind_eq_ok.mp h
    obtain ⟨i, value, hi, hfree, hvalue, rfl⟩ := assignColumn_eq_ok.mp hnext
    have hassigns := ih (hwide.set i value) hrest
    have hlt := getColumnIndex_lt hi
    -- No later entry names the column of this one.
    have hlater : ∀ e ∈ entries, schema.getColumnIndex e.1 ≠ some i := by
      intro e he hsame
      obtain ⟨j, -, hj, hunassigned, -⟩ := hassigns.placed e he
      obtain rfl : i = j := Option.some.inj (hsame.symm.trans hj)
      rw [List.getD_eq_getElem?_getD, List.getElem?_set_self (by rw [hwide.2]; exact hlt)]
        at hunassigned
      cases hunassigned
    constructor
    · exact hassigns.wide
    · rw [List.map_cons, List.nodup_cons]
      refine ⟨?_, hassigns.distinct⟩
      intro hmem
      obtain ⟨e, he, hname⟩ := List.mem_map.mp hmem
      exact hlater e he (hname ▸ hi)
    · intro e he
      rcases List.mem_cons.mp he with rfl | he
      · refine ⟨i, value, hi, hfree, hvalue, ?_⟩
        rw [hassigns.others i hlater, List.getElem?_set_self (by rw [hwide.1]; exact hlt)]
      · obtain ⟨j, w, hj, hunassigned, hw, hcell⟩ := hassigns.placed e he
        refine ⟨j, w, hj, ?_, hw, hcell⟩
        have hne : i ≠ j := fun hij => hlater e he (hij ▸ hj)
        rwa [List.getD_eq_getElem?_getD, List.getElem?_set_ne hne,
          ← List.getD_eq_getElem?_getD] at hunassigned
    · intro j hj
      have hne : i ≠ j := by
        rintro rfl
        exact hj entry List.mem_cons_self hi
      rw [hassigns.others j fun e he => hj e (List.mem_cons_of_mem entry he),
        List.getElem?_set_ne hne]

/-- Entries that name different columns, all free, and hold literals are assigned. -/
theorem foldlM_assignColumn (hdistinct : (entries.map Prod.fst).Nodup)
    (hentries : ∀ e ∈ entries, ∃ i value, schema.getColumnIndex e.1 = some i ∧
      row.assigned.getD i false = false ∧ convertLiteralExpression e.2 = .ok value) :
    ∃ row', entries.foldlM (assignColumn schema) row = .ok row' := by
  induction entries generalizing row with
  | nil => exact ⟨row, rfl⟩
  | cons entry entries ih =>
    obtain ⟨i, value, hi, hfree, hvalue⟩ := hentries entry List.mem_cons_self
    rw [List.map_cons, List.nodup_cons] at hdistinct
    have hstep : assignColumn schema row entry =
        .ok ⟨row.rowValues.set i value, row.assigned.set i true⟩ :=
      assignColumn_eq_ok.mpr ⟨i, value, hi, hfree, hvalue, rfl⟩
    obtain ⟨row', hrow'⟩ := @ih ⟨row.rowValues.set i value, row.assigned.set i true⟩
      hdistinct.2 (by
        intro e he
        obtain ⟨j, w, hj, hunassigned, hw⟩ := hentries e (List.mem_cons_of_mem entry he)
        refine ⟨j, w, hj, ?_, hw⟩
        have hne : i ≠ j := by
          rintro rfl
          exact hdistinct.1 (List.mem_map.mpr ⟨e, he, getColumnIndex_inj hj hi⟩)
        rwa [List.getD_eq_getElem?_getD, List.getElem?_set_ne hne,
          ← List.getD_eq_getElem?_getD])
    exact ⟨row', by rw [List.foldlM_cons, hstep, Result.ok_bind, hrow']⟩

end Htap.Executor
