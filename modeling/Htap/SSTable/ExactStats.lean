import Htap.SSTable.NumericStats

/-!
The statistics of a column are exact: they report a value when there is one,
and then the least and the greatest value that is neither NULL nor NaN.
-/

namespace Htap.SSTable

open Storage

/-- A cell that statistics take notice of: not NULL and not NaN. -/
def Counted (cell : NullableValue) : Prop :=
  ∃ v, cell = some v ∧ ∀ d, v = .double d → d.isNaN = false

/-- A bound as the value it was taken from. -/
def NumericStatsValue.value : NumericStatsValue → Value
  | .int64 v => .int64 v
  | .double v => .double v

namespace NumericBlockStats

/-- What the statistics say of the cells of a column. -/
structure Exact (stats : NumericBlockStats) (cells : List NullableValue) : Prop where
  hasValue : stats.hasValue = true ↔ ∃ cell ∈ cells, Counted cell
  minAttained : stats.hasValue = true → some stats.minValue.value ∈ cells
  maxAttained : stats.hasValue = true → some stats.maxValue.value ∈ cells
  covers : ∀ cell ∈ cells, Counted cell → stats.Covers cell

theorem exact_initial (columnIdx : Nat) (type : ValueType) : (initial columnIdx type).Exact [] where
  hasValue := by simp [initial]
  minAttained := fun h => nomatch h
  maxAttained := fun h => nomatch h
  covers := by simp

/-- NULL and NaN leave no trace. -/
private theorem note_of_not_counted {stats : NumericBlockStats} {cell : NullableValue}
    (hcell : HasType stats.type cell) (h : ¬ Counted cell) : stats.note cell = stats := by
  cases cell with
  | none => rfl
  | some v =>
    have htype := hcell v rfl
    cases v with
    | int64 v => exact absurd ⟨_, rfl, fun d hd => nomatch hd⟩ h
    | string v => exact absurd ⟨_, rfl, fun d hd => nomatch hd⟩ h
    | double d =>
      have hnan : d.isNaN = true := by
        by_contra hnot
        refine h ⟨_, rfl, fun e he => ?_⟩
        cases he
        exact Bool.not_eq_true _ ▸ hnot
      obtain ⟨columnIdx, type, hasValue, minValue, maxValue⟩ := stats
      cases htype
      simp [note, update, getDouble, hnan]

/-- After a counted cell each bound is that cell's or what it was. -/
private theorem note_of_counted {stats : NumericBlockStats} {v : Value} (htyped : stats.Typed)
    (hcell : HasType stats.type (some v)) (h : Counted (some v)) :
    (stats.note (some v)).hasValue = true ∧
      ((stats.note (some v)).minValue.value = v ∨
        stats.hasValue = true ∧ (stats.note (some v)).minValue = stats.minValue) ∧
      ((stats.note (some v)).maxValue.value = v ∨
        stats.hasValue = true ∧ (stats.note (some v)).maxValue = stats.maxValue) := by
  obtain ⟨columnIdx, type, hasValue, minValue, maxValue⟩ := stats
  obtain ⟨hnumeric, hmin, hmax⟩ := htyped
  simp only at hnumeric hmin hmax hcell
  have hv := hcell v rfl
  cases type with
  | string => cases hnumeric
  | int64 =>
    cases v <;> cases hv
    rename_i current
    cases minValue <;> cases hmin
    rename_i low
    cases maxValue <;> cases hmax
    rename_i high
    cases hasValue with
    | false => exact ⟨rfl, Or.inl rfl, Or.inl rfl⟩
    | true =>
      refine ⟨rfl, ?_, ?_⟩
      · rcases min_choice low current with hlow | hlow
        · exact Or.inr ⟨rfl, congrArg NumericStatsValue.int64 hlow⟩
        · exact Or.inl (congrArg Value.int64 hlow)
      · rcases max_choice high current with hhigh | hhigh
        · exact Or.inr ⟨rfl, congrArg NumericStatsValue.int64 hhigh⟩
        · exact Or.inl (congrArg Value.int64 hhigh)
  | double =>
    cases v <;> cases hv
    rename_i current
    obtain ⟨_, hsome, hnan⟩ := h
    cases hsome
    have hcurrent := hnan current rfl
    cases minValue <;> cases hmin
    rename_i low
    cases maxValue <;> cases hmax
    rename_i high
    cases hasValue with
    | false =>
      simp [note, update, getDouble, hcurrent, NumericStatsValue.value]
    | true =>
      have hnote : NumericBlockStats.note ⟨columnIdx, .double, true, .double low, .double high⟩
          (some (.double current)) =
          ⟨columnIdx, .double, true, .double (Binary64.min low current),
            .double (Binary64.max high current)⟩ := by
        simp [note, update, getDouble, NumericStatsValue.getDouble, hcurrent]
      rw [hnote]
      refine ⟨rfl, ?_, ?_⟩
      · unfold Binary64.min
        split
        · exact Or.inl rfl
        · exact Or.inr ⟨rfl, rfl⟩
      · unfold Binary64.max
        split
        · exact Or.inl rfl
        · exact Or.inr ⟨rfl, rfl⟩

/-- One more cell. -/
private theorem Exact.note {stats : NumericBlockStats} {cells : List NullableValue}
    (h : stats.Exact cells) (htyped : stats.Typed) (hproper : stats.Proper)
    {cell : NullableValue} (hcell : HasType stats.type cell) :
    (stats.note cell).Exact (cells ++ [cell]) ∧ (stats.note cell).Proper := by
  by_cases hcounted : Counted cell
  · obtain ⟨v, rfl, hnan⟩ := id hcounted
    obtain ⟨hproper', hcovers, hkept⟩ := covers_note htyped hproper hcell fun d hd => by
      cases hd
      exact hnan d rfl
    obtain ⟨hvalue, hlow, hhigh⟩ := note_of_counted htyped hcell hcounted
    refine ⟨⟨⟨fun _ => ⟨_, by simp, hcounted⟩, fun _ => hvalue⟩, fun _ => ?_, fun _ => ?_, ?_⟩,
      hproper'⟩
    · rcases hlow with heq | ⟨hhas, heq⟩
      · simp [heq]
      · rw [heq]
        exact List.mem_append_left _ (h.minAttained hhas)
    · rcases hhigh with heq | ⟨hhas, heq⟩
      · simp [heq]
      · rw [heq]
        exact List.mem_append_left _ (h.maxAttained hhas)
    · intro other hother hcount
      rcases List.mem_append.mp hother with hin | hin
      · exact hkept other (h.covers other hin hcount)
      · rw [List.mem_singleton.mp hin]
        exact hcovers
  · rw [note_of_not_counted hcell hcounted]
    have hsame : (∃ other ∈ cells ++ [cell], Counted other) ↔ ∃ other ∈ cells, Counted other := by
      simp [or_and_right, exists_or, hcounted]
    refine ⟨⟨h.hasValue.trans hsame.symm, fun hhas => ?_, fun hhas => ?_, ?_⟩, hproper⟩
    · exact List.mem_append_left _ (h.minAttained hhas)
    · exact List.mem_append_left _ (h.maxAttained hhas)
    · intro other hother hcount
      rcases List.mem_append.mp hother with hin | hin
      · exact h.covers other hin hcount
      · rw [List.mem_singleton.mp hin] at hcount
        exact absurd hcount hcounted

end NumericBlockStats

/-- The statistics of valid rows are exact, NULL and NaN cells included. -/
theorem exact_columnStats {schema : Schema} {rows : List Row} {column : Nat × ValueType}
    (hcolumn : column ∈ statsColumns schema) (hrows : ∀ row ∈ rows, ValidRow schema row) :
    (columnStats rows column).Exact (rows.map fun row => row.getD column.1 none) ∧
      (columnStats rows column).Proper := by
  obtain ⟨c, hget, -, htype, -⟩ := mem_statsColumns.mp hcolumn
  induction rows using List.reverseRecOn with
  | nil => exact ⟨NumericBlockStats.exact_initial _ _, NumericBlockStats.proper_initial _ _⟩
  | append_singleton rows row ih =>
    have hbefore : ∀ r ∈ rows, ValidRow schema r := fun r hr => hrows r (List.mem_append_left _ hr)
    obtain ⟨hexact, hproper⟩ := ih hbefore
    obtain ⟨htyped, htypeEq, -⟩ := typed_columnStats hcolumn hbefore
    have hcell := hasType_of_valid (hrows row (by simp)) hget
    rw [htype] at hcell
    rw [columnStats_append, List.map_append]
    exact hexact.note htyped hproper (htypeEq ▸ hcell)

/-- Statistics without a value are as they were reset. -/
theorem columnStats_of_hasNoValue {schema : Schema} {rows : List Row} {column : Nat × ValueType}
    (hcolumn : column ∈ statsColumns schema) (hrows : ∀ row ∈ rows, ValidRow schema row)
    (h : (columnStats rows column).hasValue = false) :
    columnStats rows column = NumericBlockStats.initial column.1 column.2 := by
  obtain ⟨c, hget, -, htype, -⟩ := mem_statsColumns.mp hcolumn
  induction rows using List.reverseRecOn with
  | nil => rfl
  | append_singleton rows row ih =>
    have hbefore : ∀ r ∈ rows, ValidRow schema r := fun r hr => hrows r (List.mem_append_left _ hr)
    have hnone : ¬ Counted (row.getD column.1 none) := by
      intro hcounted
      have hexact := (exact_columnStats hcolumn hrows).1
      rw [hexact.hasValue.mpr ⟨_, by simp, hcounted⟩] at h
      cases h
    obtain ⟨-, htypeEq, -⟩ := typed_columnStats hcolumn hbefore
    have hcell := hasType_of_valid (hrows row (by simp)) hget
    rw [htype] at hcell
    rw [columnStats_append, NumericBlockStats.note_of_not_counted (htypeEq ▸ hcell) hnone] at h ⊢
    exact ih hbefore h

end Htap.SSTable
