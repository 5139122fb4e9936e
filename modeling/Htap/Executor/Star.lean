import Htap.Executor.SkippingSelect

/-!
`SELECT *` without clauses: its columns are those of the table, and it makes of every row
the row itself.
-/

namespace Htap.Executor

open Storage Htap.Parser SSTable Read Cursor

/-- `SELECT * FROM` a table. -/
def everythingFrom (tableName : Bytes) : SelectStatement where
  tableName := tableName
  selectItems := [.star]

/-- The same, bound. -/
def boundEverythingFrom (tableName : Bytes) (schema : Schema) : BoundSelectStatement where
  tableName := tableName
  schema := schema
  selectItems := schema.columns.zipIdx.map fun c => .expression (.column c.2 c.1.type)

/-- The cells of a row as values of a result. -/
def resultRow (row : Row) : ResultRow := row.map (Option.map resultValue)

variable {tableName : Bytes} {schema : Schema} {row : Row} {rows : List Row}

theorem plain_everything :
    hasAggregateSelectItems (boundEverythingFrom tableName schema) = false := by
  rw [hasAggregateSelectItems, List.any_eq_false]
  intro item hitem
  obtain ⟨c, -, rfl⟩ := List.mem_map.mp hitem
  simp [BoundSelectItem.isAggregate]

theorem bind_everything : bindSelectOver schema (everythingFrom tableName) =
    .ok (boundEverythingFrom tableName schema) := by
  have hgrouped : validateGroupedSelect (boundEverythingFrom tableName schema) = .ok () := by
    unfold validateGroupedSelect
    simp only [plain_everything]
    rfl
  have hitems : [SelectItem.star].mapM (bindSelectItem schema) =
      .ok [(boundEverythingFrom tableName schema).selectItems] := rfl
  rw [bindSelectOver, everythingFrom, hitems, Result.ok_bind]
  have hflat : [(boundEverythingFrom tableName schema).selectItems].flatten =
      (boundEverythingFrom tableName schema).selectItems := by
    simp
  dsimp only
  rw [hflat]
  change (do
    validateGroupedSelect (boundEverythingFrom tableName schema)
    return boundEverythingFrom tableName schema) = _
  rw [hgrouped]
  rfl

/-- The columns of the result have the names of the table's. -/
theorem names_everything : buildSelectColumnNames (boundEverythingFrom tableName schema) =
    .ok (schema.columns.map Column.name) := by
  have hitems : (boundEverythingFrom tableName schema).selectItems.zipIdx =
      schema.columns.zipIdx.map fun c => (.expression (.column c.2 c.1.type), c.2) := by
    apply List.ext_getElem
    · simp [boundEverythingFrom]
    · intro i hi hi'
      simp [boundEverythingFrom]
  have hnames : schema.columns.map Column.name = schema.columns.zipIdx.map fun c => c.1.name := by
    apply List.ext_getElem
    · simp
    · intro i hi hi'
      simp
  rw [buildSelectColumnNames, hitems, hnames, Result.mapM_eq_ok, List.forall₂_map_left_iff,
    List.forall₂_map_right_iff, List.forall₂_same]
  rintro ⟨c, i⟩ hc
  have hcolumn : schema.getColumn i = .ok c := by
    rw [Schema.getColumn, List.mem_zipIdx_iff_getElem?.mp hc]
  change (schema.getColumn i >>= fun column => pure column.name) = _
  rw [hcolumn]
  rfl

theorem output_everything (h : ValidRow schema row) :
    output (boundEverythingFrom tableName schema) row = resultRow row := by
  have hcells : (boundEverythingFrom tableName schema).selectItems.mapM (plainItem (rowValue row)) =
      .ok (schema.columns.zipIdx.map fun c => (cell row c.2).map resultValue) := by
    rw [Result.mapM_eq_ok, boundEverythingFrom, List.forall₂_map_left_iff,
      List.forall₂_map_right_iff, List.forall₂_same]
    intro c hc
    rfl
  have hlength : row.length = schema.columns.length := h.length
  rw [output, hcells]
  apply List.ext_getElem
  · simp [valueOr, resultRow, hlength]
  · intro i hi hi'
    have hlt : i < row.length := by
      simpa [resultRow] using hi'
    simp [valueOr, resultRow, cell, hlt]

/-- No row raises an error. -/
theorem goodRow_everything (h : ValidRow schema row) (hnan : NoNaN row) :
    GoodRow schema (boundEverythingFrom tableName schema) row := by
  refine ⟨h, hnan, ?_⟩
  intro e he
  have hcolumn : e ∈ (boundEverythingFrom tableName schema).selectItems.map
      BoundSelectItem.argument := by
    simpa [BoundSelectStatement.expressions, boundEverythingFrom] using he
  obtain ⟨item, hitem, rfl⟩ := List.mem_map.mp hcolumn
  obtain ⟨c, -, rfl⟩ := List.mem_map.mp hitem
  exact ⟨_, rfl⟩

/-- Every row passes, and comes out as it is. -/
theorem outputs_everything (hvalid : ∀ row ∈ rows, ValidRow schema row) :
    (passing (boundEverythingFrom tableName schema) rows).map
      (output (boundEverythingFrom tableName schema)) = rows.map resultRow := by
  have hall : passing (boundEverythingFrom tableName schema) rows = rows := by
    apply List.filter_eq_self.mpr
    intro row hrow
    rfl
  rw [hall]
  apply List.map_congr_left
  intro row hrow
  exact output_everything (hvalid row hrow)

end Htap.Executor
