import Htap.Executor.Insert
import Htap.Properties.Grouping

/-!
INSERT does not depend on the order of its columns. It is accepted when the
columns exist, differ and take their literals, and the omitted ones may be NULL;
its row then passes the check of the storage engine.
-/

namespace Htap.Properties

open Storage Htap.Parser SSTable Read Cursor Executor

variable {α : Type} {engine : IStorageEngine α} {schema : Schema} {statement : InsertStatement}
  {entries : List (Bytes × Expression)} {bound : BoundInsertStatement} {column : Column} {i : Nat}

/-- A literal that a column takes: one of its type, or NULL if it is nullable. -/
def Takes (column : Column) : Expression → Prop
  | .nullLiteral => column.nullable = true
  | .intLiteral _ => column.type = .int64
  | .doubleLiteral _ => column.type = .double
  | .stringLiteral _ => column.type = .string
  | .column _ | .unary _ _ | .binary _ _ _ | .isNull _ _ => False

/-- The columns and values of an INSERT that the table takes. -/
structure Insertable (schema : Schema) (entries : List (Bytes × Expression)) : Prop where
  exist : ∀ e ∈ entries, ∃ c ∈ schema.columns, c.name = e.1
  distinct : (entries.map Prod.fst).Nodup
  typed : ∀ e ∈ entries, ∀ c ∈ schema.columns, c.name = e.1 → Takes c e.2
  omitted : ∀ c ∈ schema.columns, c.name ∉ entries.map Prod.fst → c.nullable = true

/-- The literals at their columns and NULL elsewhere. -/
structure RowOf (schema : Schema) (entries : List (Bytes × Expression)) (row : Row) : Prop where
  length : row.length = schema.size
  given : ∀ e ∈ entries, ∀ (i : Nat) (c : Column), schema.columns[i]? = some c → c.name = e.1 →
    ∃ value, convertLiteralExpression e.2 = .ok value ∧ row[i]? = some value
  omitted : ∀ (i : Nat) (c : Column), schema.columns[i]? = some c →
    c.name ∉ entries.map Prod.fst → row[i]? = some none

/-! ## Order -/

theorem Insertable.perm {entries' : List (Bytes × Expression)} (h : Insertable schema entries)
    (hperm : entries.Perm entries') : Insertable schema entries' where
  exist e he := h.exist e (hperm.mem_iff.mpr he)
  distinct := (hperm.map Prod.fst).nodup_iff.mp h.distinct
  typed e he := h.typed e (hperm.mem_iff.mpr he)
  omitted c hc hname := h.omitted c hc fun hmem => hname ((hperm.map Prod.fst).mem_iff.mp hmem)

theorem RowOf.perm {entries' : List (Bytes × Expression)} {row : Row} (h : RowOf schema entries row)
    (hperm : entries.Perm entries') : RowOf schema entries' row where
  length := h.length
  given e he := h.given e (hperm.mem_iff.mpr he)
  omitted i c hc hname := h.omitted i c hc fun hmem =>
    hname ((hperm.map Prod.fst).mem_iff.mp hmem)

/-- The entries leave nothing open. -/
theorem RowOf.unique {row row' : Row} (h : RowOf schema entries row)
    (h' : RowOf schema entries row') : row = row' := by
  apply List.ext_getElem?
  intro i
  cases hc : schema.columns[i]? with
  | none =>
    have hsize : schema.size ≤ i := List.getElem?_eq_none_iff.mp hc
    rw [List.getElem?_eq_none (h.length ▸ hsize), List.getElem?_eq_none (h'.length ▸ hsize)]
  | some c =>
    by_cases hname : c.name ∈ entries.map Prod.fst
    · obtain ⟨e, he, heq⟩ := List.mem_map.mp hname
      obtain ⟨value, hvalue, hcell⟩ := h.given e he i c hc heq.symm
      obtain ⟨value', hvalue', hcell'⟩ := h'.given e he i c hc heq.symm
      obtain rfl : value = value' := Except.ok.inj (hvalue.symm.trans hvalue')
      rw [hcell, hcell']
    · rw [h.omitted i c hc hname, h'.omitted i c hc hname]

/-! ## Acceptance -/

/-- With different names, a column is found under its name. -/
theorem getColumnIndex_eq (hnames : (schema.columns.map Column.name).Nodup)
    (hcolumn : schema.columns[i]? = some column) :
    schema.getColumnIndex column.name = some i := by
  obtain ⟨hi, hget⟩ := List.getElem?_eq_some_iff.mp hcolumn
  have hsome := Schema.getColumnIndex_isSome.mpr ⟨column, List.mem_of_getElem? hcolumn, rfl⟩
  obtain ⟨j, hj⟩ := Option.isSome_iff_exists.mp hsome
  obtain ⟨c, hc, hname⟩ := Schema.getColumnIndex_eq_some hj
  obtain ⟨hlt, hgetc⟩ := List.getElem?_eq_some_iff.mp hc
  have hj' : j < (schema.columns.map Column.name).length := by rwa [List.length_map]
  have hi' : i < (schema.columns.map Column.name).length := by rwa [List.length_map]
  have hsame : (schema.columns.map Column.name)[j] =
      (schema.columns.map Column.name)[i] := by
    rw [List.getElem_map, List.getElem_map, hget, hgetc, hname]
  rw [hj, hnames.getElem_inj_iff.mp hsame]

theorem convertLiteralExpression_of_takes {e : Expression} (h : Takes column e) :
    ∃ value, convertLiteralExpression e = .ok value := by
  cases e with
  | nullLiteral | intLiteral _ | doubleLiteral _ | stringLiteral _ => exact ⟨_, rfl⟩
  | column _ | unary _ _ | binary _ _ _ | isNull _ _ => cases h

/-- The check of a cell is whether the column takes the literal. -/
theorem isValidValue_iff (hcolumn : schema.columns[i]? = some column) {e : Expression}
    {value : NullableValue} (hvalue : convertLiteralExpression e = .ok value) :
    schema.isValidValue i value = true ↔ Takes column e := by
  cases e with
  | nullLiteral =>
    cases hvalue
    simp only [Schema.isValidValue, hcolumn, Takes]
  | intLiteral v | doubleLiteral v | stringLiteral v =>
    cases hvalue
    simp only [Schema.isValidValue, hcolumn, Takes, Value.type, beq_iff_eq]
    exact eq_comm
  | column _ | unary _ _ | binary _ _ _ | isNull _ _ => cases hvalue

theorem checkCells_eq_ok {row : Row} : checkCells schema row = .ok () ↔
    ∀ i value, row[i]? = some value → schema.isValidValue i value = true := by
  unfold checkCells
  cases hfind : row.zipIdx.find? fun v => !schema.isValidValue v.2 v.1 with
  | none =>
    refine iff_of_true rfl ?_
    intro i value hcell
    have hvalid := List.find?_eq_none.mp hfind (value, i)
      (List.mk_mem_zipIdx_iff_getElem?.mpr hcell)
    simpa using hvalid
  | some v =>
    refine iff_of_false (by simp [Result.bind_eq_ok]) ?_
    intro h
    have hinvalid := List.find?_some hfind
    have hvalid := h v.2 v.1
      (List.mk_mem_zipIdx_iff_getElem?.mp (List.mem_of_find?_eq_some hfind))
    simp [hvalid] at hinvalid

/-- The row that the loop starts with. -/
private theorem wide_blank (schema : Schema) :
    InsertRow.Wide schema ⟨List.replicate schema.size none, List.replicate schema.size false⟩ :=
  ⟨List.length_replicate, List.length_replicate⟩

private theorem assigned_blank (schema : Schema) (i : Nat) :
    (List.replicate schema.size false).getD i false = false := by
  rw [List.getD_eq_getElem?_getD, List.getElem?_replicate]
  split <;> rfl

private theorem rowOf_assigns (hnames : (schema.columns.map Column.name).Nodup) {row : InsertRow}
    (h : Assigns schema ⟨List.replicate schema.size none, List.replicate schema.size false⟩
      entries row) : RowOf schema entries row.rowValues := by
  constructor
  · exact h.wide.1
  · intro e he i c hc hname
    obtain ⟨j, value, hj, -, hvalue, hcell⟩ := h.placed e he
    rw [← hname, getColumnIndex_eq hnames hc, Option.some.injEq] at hj
    exact ⟨value, hvalue, hj ▸ hcell⟩
  · intro i c hc hname
    have hlt : i < schema.size := (List.getElem?_eq_some_iff.mp hc).1
    rw [h.others i, List.getElem?_replicate, if_pos hlt]
    intro e he hindex
    obtain ⟨c', hc', heq⟩ := Schema.getColumnIndex_eq_some hindex
    rw [hc, Option.some.injEq] at hc'
    exact hname (List.mem_map.mpr ⟨e, he, by rw [hc', heq]⟩)

/-- The cells of the row are valid exactly when the literals fit their columns. -/
private theorem validCells_iff {row : Row} (h : RowOf schema entries row) :
    (∀ i value, row[i]? = some value → schema.isValidValue i value = true) ↔
      (∀ e ∈ entries, ∀ c ∈ schema.columns, c.name = e.1 → Takes c e.2) ∧
        ∀ c ∈ schema.columns, c.name ∉ entries.map Prod.fst → c.nullable = true := by
  constructor
  · intro hvalid
    constructor
    · intro e he c hc hname
      obtain ⟨i, hi⟩ := List.mem_iff_getElem?.mp hc
      obtain ⟨value, hvalue, hcell⟩ := h.given e he i c hi hname
      exact (isValidValue_iff hi hvalue).mp (hvalid i value hcell)
    · intro c hc hname
      obtain ⟨i, hi⟩ := List.mem_iff_getElem?.mp hc
      have hcell := hvalid i none (h.omitted i c hi hname)
      simpa only [Schema.isValidValue, hi] using hcell
  · rintro ⟨htyped, homitted⟩ i value hcell
    have hlt : i < schema.columns.length := by
      have hrow := (List.getElem?_eq_some_iff.mp hcell).1
      rwa [h.length] at hrow
    have hi : schema.columns[i]? = some schema.columns[i] := List.getElem?_eq_getElem hlt
    by_cases hname : schema.columns[i].name ∈ entries.map Prod.fst
    · obtain ⟨e, he, heq⟩ := List.mem_map.mp hname
      obtain ⟨w, hw, hcell'⟩ := h.given e he i _ hi heq.symm
      obtain rfl : value = w := Option.some.inj (hcell.symm.trans hcell')
      exact (isValidValue_iff hi hw).mpr (htyped e he _ (List.getElem_mem hlt) heq.symm)
    · have hnull := h.omitted i _ hi hname
      obtain rfl : value = none := Option.some.inj (hcell.symm.trans hnull)
      simpa only [Schema.isValidValue, hi] using homitted _ (List.getElem_mem hlt) hname

/-- What an accepted INSERT says. -/
theorem of_bindInsertOver (hnames : (schema.columns.map Column.name).Nodup)
    (h : bindInsertOver schema statement = .ok bound) :
    statement.columnNames.length = statement.values.length ∧
      Insertable schema (statement.columnNames.zip statement.values) ∧
      bound.tableName = statement.tableName ∧ bound.schema = schema ∧
      RowOf schema (statement.columnNames.zip statement.values) bound.rowValues := by
  unfold bindInsertOver at h
  split at h
  · cases h
  · rename_i hlength
    obtain ⟨row, hrow, h⟩ := Result.bind_eq_ok.mp h
    obtain ⟨⟨⟩, hcells, h⟩ := Result.bind_eq_ok.mp h
    cases h
    have hassigns := assigns_of_foldlM (wide_blank schema) hrow
    have hrowOf := rowOf_assigns hnames hassigns
    obtain ⟨htyped, homitted⟩ := (validCells_iff hrowOf).mp (checkCells_eq_ok.mp hcells)
    refine ⟨not_not.mp hlength, ⟨?_, hassigns.distinct, htyped, homitted⟩, rfl, rfl, hrowOf⟩
    intro e he
    obtain ⟨i, -, hi, -⟩ := hassigns.placed e he
    obtain ⟨c, hc, hname⟩ := Schema.getColumnIndex_eq_some hi
    exact ⟨c, List.mem_of_getElem? hc, hname⟩

/-- An INSERT that the table takes is accepted. -/
theorem exists_bindInsertOver (hnames : (schema.columns.map Column.name).Nodup)
    (hlength : statement.columnNames.length = statement.values.length)
    (h : Insertable schema (statement.columnNames.zip statement.values)) :
    ∃ bound, bindInsertOver schema statement = .ok bound := by
  have hplaceable : ∀ e ∈ statement.columnNames.zip statement.values, ∃ i value,
      schema.getColumnIndex e.1 = some i ∧
        (List.replicate schema.size false).getD i false = false ∧
        convertLiteralExpression e.2 = .ok value := by
    intro e he
    obtain ⟨c, hc, hname⟩ := h.exist e he
    obtain ⟨i, hi⟩ := List.mem_iff_getElem?.mp hc
    obtain ⟨value, hvalue⟩ := convertLiteralExpression_of_takes (h.typed e he c hc hname)
    exact ⟨i, value, hname ▸ getColumnIndex_eq hnames hi, assigned_blank schema i, hvalue⟩
  obtain ⟨row, hrow⟩ := @foldlM_assignColumn schema
    ⟨List.replicate schema.size none, List.replicate schema.size false⟩ _ h.distinct hplaceable
  have hplaced := rowOf_assigns hnames (assigns_of_foldlM (wide_blank schema) hrow)
  have hcells := checkCells_eq_ok.mpr ((validCells_iff hplaced).mpr ⟨h.typed, h.omitted⟩)
  refine ⟨⟨statement.tableName, schema, row.rowValues⟩, ?_⟩
  rw [bindInsertOver, if_neg (not_not_intro hlength), hrow, Result.ok_bind, hcells,
    Result.ok_bind, Result.pure_eq]

/-- The same columns and values in another order make the same row. -/
theorem bindInsertOver_perm (hnames : (schema.columns.map Column.name).Nodup)
    {statement' : InsertStatement} (htable : statement'.tableName = statement.tableName)
    (hlength : statement'.columnNames.length = statement'.values.length)
    (hperm : (statement.columnNames.zip statement.values).Perm
      (statement'.columnNames.zip statement'.values))
    (h : bindInsertOver schema statement = .ok bound) :
    bindInsertOver schema statement' = .ok bound := by
  obtain ⟨-, hinsertable, hname, hschema, hrow⟩ := of_bindInsertOver hnames h
  obtain ⟨bound', hbound'⟩ := exists_bindInsertOver hnames hlength (hinsertable.perm hperm)
  obtain ⟨-, -, hname', hschema', hrow'⟩ := of_bindInsertOver hnames hbound'
  have hsame : bound' = bound := by
    obtain ⟨tableName, schema, rowValues⟩ := bound
    obtain ⟨tableName', schema', rowValues'⟩ := bound'
    dsimp only at hname hname' hschema hschema' hrow hrow'
    rw [hname, hname', hschema, hschema', htable, (hrow.perm hperm).unique hrow']
  rw [hbound', hsame]

/-- The storage engine accepts the row of an accepted INSERT. -/
theorem validateRow_of_insertable (hschema : schema.WellFormed) {row : Row}
    (hinsertable : Insertable schema entries) (hrow : RowOf schema entries row) :
    validateRow schema row = .ok () := by
  have hcells := (validCells_iff hrow).mpr ⟨hinsertable.typed, hinsertable.omitted⟩
  have hall : (row.zipIdx.all fun v => schema.isValidValue v.2 v.1) = true := by
    rw [List.all_eq_true]
    rintro ⟨value, i⟩ hmem
    exact hcells i value (List.mk_mem_zipIdx_iff_getElem?.mp hmem)
  obtain ⟨c, rest, hcolumns, -, -, hnull, -⟩ := hschema.keyFirst
  have hkey : (row[keyColumnIndex]?.join).isNone = false := by
    have hfirst : schema.columns[keyColumnIndex]? = some c := by
      rw [hcolumns]
      rfl
    have hlt : keyColumnIndex < row.length := by
      rw [hrow.length]
      exact (List.getElem?_eq_some_iff.mp hfirst).1
    have hget := List.getElem?_eq_getElem hlt
    cases hcell : row[keyColumnIndex] with
    | none =>
      have hvalid := hcells keyColumnIndex none (by rw [hget, hcell])
      simp only [Schema.isValidValue, hfirst, hnull] at hvalid
      cases hvalid
    | some v =>
      rw [hget, hcell]
      rfl
  rw [validateRow, if_neg (not_not_intro hrow.length), hall, hkey]
  rfl

/-- INSERT over a schema of the builder: the order of its columns does not matter, it is
accepted exactly when the table takes it, and its row is valid. Which error is thrown may
depend on the order, as the first one is. -/
theorem insert_binding (hschema : schema.FromBuilder)
    (hget : getSchema engine statement.tableName = .ok schema) :
    (∀ statement' : InsertStatement, statement'.tableName = statement.tableName →
        statement.columnNames.length = statement.values.length →
        statement'.columnNames.length = statement'.values.length →
        (statement.columnNames.zip statement.values).Perm
          (statement'.columnNames.zip statement'.values) →
        ∀ bound, bindInsert engine statement = .ok bound ↔
          bindInsert engine statement' = .ok bound) ∧
      ((∃ bound, bindInsert engine statement = .ok bound) ↔
        statement.columnNames.length = statement.values.length ∧
          Insertable schema (statement.columnNames.zip statement.values)) ∧
      (∀ bound, bindInsert engine statement = .ok bound →
        bound.tableName = statement.tableName ∧ bound.schema = schema ∧
          RowOf schema (statement.columnNames.zip statement.values) bound.rowValues ∧
          validateRow schema bound.rowValues = .ok ()) := by
  have hnames := hschema.nodup_names
  have hover : ∀ {s : InsertStatement}, s.tableName = statement.tableName →
      bindInsert engine s = bindInsertOver schema s := by
    intro s hs
    rw [bindInsert, hs, hget, Result.ok_bind]
  refine ⟨?_, ?_, ?_⟩
  · intro statement' htable hlength hlength' hperm bound
    rw [hover rfl, hover htable]
    constructor
    · exact bindInsertOver_perm hnames htable hlength' hperm
    · exact bindInsertOver_perm hnames htable.symm hlength hperm.symm
  · rw [hover rfl]
    constructor
    · rintro ⟨bound, hbound⟩
      obtain ⟨hlength, hinsertable, -⟩ := of_bindInsertOver hnames hbound
      exact ⟨hlength, hinsertable⟩
    · rintro ⟨hlength, hinsertable⟩
      exact exists_bindInsertOver hnames hlength hinsertable
  · intro bound hbound
    rw [hover rfl] at hbound
    obtain ⟨-, hinsertable, htable, hbound, hrow⟩ := of_bindInsertOver hnames hbound
    exact ⟨htable, hbound, hrow,
      validateRow_of_insertable hschema.wellFormed hinsertable hrow⟩

/-- `INSERT INTO t (v, id) VALUES (7, 1)`. -/
def insertPair : InsertStatement where
  tableName := pairTable
  columnNames := [[118], [105, 100]]
  values := [.intLiteral 7, .intLiteral 1]

theorem insert_binding_pair :
    (∀ statement' : InsertStatement, statement'.tableName = insertPair.tableName →
        insertPair.columnNames.length = insertPair.values.length →
        statement'.columnNames.length = statement'.values.length →
        (insertPair.columnNames.zip insertPair.values).Perm
          (statement'.columnNames.zip statement'.values) →
        ∀ bound, bindInsert (pairEngine []) insertPair = .ok bound ↔
          bindInsert (pairEngine []) statement' = .ok bound) ∧
      ((∃ bound, bindInsert (pairEngine []) insertPair = .ok bound) ↔
        insertPair.columnNames.length = insertPair.values.length ∧
          Insertable pairSchema (insertPair.columnNames.zip insertPair.values)) ∧
      (∀ bound, bindInsert (pairEngine []) insertPair = .ok bound →
        bound.tableName = insertPair.tableName ∧ bound.schema = pairSchema ∧
          RowOf pairSchema (insertPair.columnNames.zip insertPair.values) bound.rowValues ∧
          validateRow pairSchema bound.rowValues = .ok ()) :=
  insert_binding pairSchema_fromBuilder rfl

example : bindInsert (pairEngine []) insertPair =
    .ok ⟨pairTable, pairSchema, [some (.int64 1), some (.int64 7)]⟩ := by
  rfl

end Htap.Properties
