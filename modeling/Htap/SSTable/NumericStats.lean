import Htap.SSTable.Format

/-!
Per-block minima and maxima of the numeric columns: how the block builders
keep them and how `write_stats_file` lays them out.
-/

namespace Htap.SSTable

open Storage ByteFormat Words

inductive NumericStatsValue where
  | int64 (v : Int64)
  | double (v : Binary64)
  deriving DecidableEq

namespace NumericStatsValue

def getInt64 : NumericStatsValue → Result Int64
  | .int64 v => .ok v
  | .double _ => .error .badVariantAccess

def getDouble : NumericStatsValue → Result Binary64
  | .double v => .ok v
  | .int64 _ => .error .badVariantAccess

def type : NumericStatsValue → ValueType
  | .int64 _ => .int64
  | .double _ => .double

def bytes : NumericStatsValue → Bytes
  | .int64 v => i64Bytes v
  | .double v => doubleBytes v

end NumericStatsValue

structure NumericBlockStats where
  columnIdx : Nat
  type : ValueType
  hasValue : Bool := false
  minValue : NumericStatsValue
  maxValue : NumericStatsValue
  deriving DecidableEq

namespace NumericBlockStats

/-- `reset_numeric_stats` for one column. -/
def initial (columnIdx : Nat) (type : ValueType) : NumericBlockStats :=
  let zero := if type = .double then NumericStatsValue.double Binary64.zero else .int64 0
  { columnIdx, type, minValue := zero, maxValue := zero }

def getInt64 : Value → Result Int64
  | .int64 v => .ok v
  | _ => .error .badVariantAccess

def getDouble : Value → Result Binary64
  | .double v => .ok v
  | _ => .error .badVariantAccess

/-- `update_numeric_stats` for one column and one cell; NaN leaves no trace. -/
def update (stats : NumericBlockStats) (value : NullableValue) : Result NumericBlockStats :=
  match value with
  | none => .ok stats
  | some value =>
    match stats.type with
    | .int64 => do
      let current ← getInt64 value
      if !stats.hasValue then
        return { stats with
          hasValue := true
          minValue := .int64 current
          maxValue := .int64 current }
      let minValue ← stats.minValue.getInt64
      let maxValue ← stats.maxValue.getInt64
      return { stats with
        minValue := .int64 (min minValue current)
        maxValue := .int64 (max maxValue current) }
    | .double => do
      let current ← getDouble value
      if current.isNaN then return stats
      if !stats.hasValue then
        return { stats with
          hasValue := true, minValue := .double current, maxValue := .double current }
      let minValue ← stats.minValue.getDouble
      let maxValue ← stats.maxValue.getDouble
      return { stats with
        minValue := .double (Binary64.min minValue current)
        maxValue := .double (Binary64.max maxValue current) }
    | .string => .ok stats

/-- The bounds are numbers of the column's type. -/
structure Typed (stats : NumericBlockStats) : Prop where
  numeric : stats.type.isNumeric = true
  minValue : stats.minValue.type = stats.type
  maxValue : stats.maxValue.type = stats.type

theorem typed_initial {columnIdx : Nat} {type : ValueType} (h : type.isNumeric = true) :
    (initial columnIdx type).Typed := by
  cases type with
  | int64 => exact ⟨rfl, rfl, rfl⟩
  | double => exact ⟨rfl, rfl, rfl⟩
  | string => cases h

/-- What an update computes when the cell has the column's type. -/
def note (stats : NumericBlockStats) (value : NullableValue) : NumericBlockStats :=
  match stats.update value with
  | .ok next => next
  | .error _ => stats

/-- Cells of the column's type never make an update throw. -/
theorem update_eq_note {stats : NumericBlockStats} {value : NullableValue}
    (htyped : stats.Typed) (hvalue : HasType stats.type value) :
    stats.update value = .ok (stats.note value) ∧ (stats.note value).Typed ∧
      (stats.note value).type = stats.type ∧ (stats.note value).columnIdx = stats.columnIdx := by
  obtain ⟨columnIdx, type, hasValue, minValue, maxValue⟩ := stats
  obtain ⟨hnumeric, hmin, hmax⟩ := htyped
  simp only at hnumeric hmin hmax hvalue
  cases value with
  | none => exact ⟨rfl, ⟨hnumeric, hmin, hmax⟩, rfl, rfl⟩
  | some v =>
    have hv := hvalue v rfl
    cases type with
    | string => cases hnumeric
    | int64 =>
      cases v <;> cases hv
      cases minValue <;> cases hmin
      cases maxValue <;> cases hmax
      cases hasValue <;> exact ⟨rfl, ⟨rfl, rfl, rfl⟩, rfl, rfl⟩
    | double =>
      cases v <;> cases hv
      rename_i d
      cases minValue <;> cases hmin
      cases maxValue <;> cases hmax
      cases hnan : d.isNaN <;> cases hasValue <;>
        simp [update, note, getDouble, NumericStatsValue.getDouble, hnan] <;>
        exact ⟨rfl, rfl, rfl⟩

/-- A cell is within the bounds the statistics report. -/
def Covers (stats : NumericBlockStats) (value : NullableValue) : Prop :=
  ∀ v ∈ value, stats.hasValue = true ∧
    match v, stats.minValue, stats.maxValue with
    | .int64 v, .int64 low, .int64 high => low ≤ v ∧ v ≤ high
    | .double v, .double low, .double high =>
      low.isNaN = false ∧ high.isNaN = false ∧ low.rank ≤ v.rank ∧ v.rank ≤ high.rank
    | _, _, _ => False

/-- The bounds of statistics that saw a value are never NaN. -/
def Proper (stats : NumericBlockStats) : Prop :=
  stats.hasValue = true → match stats.minValue, stats.maxValue with
    | .double low, .double high => low.isNaN = false ∧ high.isNaN = false
    | _, _ => True

theorem proper_initial (columnIdx : Nat) (type : ValueType) :
    (initial columnIdx type).Proper := by
  intro h
  cases h

/-- An update covers its cell and everything covered before. -/
theorem covers_note {stats : NumericBlockStats} {value : NullableValue} (htyped : stats.Typed)
    (hproper : stats.Proper) (hvalue : HasType stats.type value)
    (hnan : ∀ d, value = some (.double d) → d.isNaN = false) :
    (stats.note value).Proper ∧ (stats.note value).Covers value ∧
      ∀ earlier, stats.Covers earlier → (stats.note value).Covers earlier := by
  obtain ⟨columnIdx, type, hasValue, minValue, maxValue⟩ := stats
  obtain ⟨hnumeric, hmin, hmax⟩ := htyped
  simp only at hnumeric hmin hmax hvalue
  cases value with
  | none => exact ⟨hproper, by simp [Covers], fun earlier h => h⟩
  | some v =>
    have hv := hvalue v rfl
    cases type with
    | string => cases hnumeric
    | int64 =>
      cases v <;> cases hv
      rename_i current
      cases minValue <;> cases hmin
      rename_i low
      cases maxValue <;> cases hmax
      rename_i high
      cases hasValue with
      | false =>
        refine ⟨fun _ => trivial, ?_, ?_⟩
        · intro w hw
          cases hw
          exact ⟨rfl, le_rfl, le_rfl⟩
        · intro earlier h w hw
          cases (h w hw).1
      | true =>
        refine ⟨fun _ => trivial, ?_, ?_⟩
        · intro w hw
          cases hw
          exact ⟨rfl, min_le_right _ _, le_max_right _ _⟩
        · intro earlier h w hw
          obtain ⟨-, hbounds⟩ := h w hw
          cases w with
          | int64 w => exact ⟨rfl, (min_le_left _ _).trans hbounds.1,
              hbounds.2.trans (le_max_left _ _)⟩
          | double w => cases hbounds
          | string w => cases hbounds
    | double =>
      cases v <;> cases hv
      rename_i current
      have hcurrent := hnan current rfl
      cases minValue <;> cases hmin
      rename_i low
      cases maxValue <;> cases hmax
      rename_i high
      cases hasValue with
      | false =>
        have hnote : NumericBlockStats.note ⟨columnIdx, .double, false, .double low, .double high⟩
            (some (.double current)) =
            ⟨columnIdx, .double, true, .double current, .double current⟩ := by
          simp [note, update, getDouble, hcurrent]
        rw [hnote]
        refine ⟨fun _ => ⟨hcurrent, hcurrent⟩, ?_, ?_⟩
        · intro w hw
          cases hw
          exact ⟨rfl, hcurrent, hcurrent, le_rfl, le_rfl⟩
        · intro earlier h w hw
          cases (h w hw).1
      | true =>
        obtain ⟨hlow, hhigh⟩ : low.isNaN = false ∧ high.isNaN = false := hproper rfl
        have hnote : NumericBlockStats.note ⟨columnIdx, .double, true, .double low, .double high⟩
            (some (.double current)) =
            ⟨columnIdx, .double, true, .double (Binary64.min low current),
              .double (Binary64.max high current)⟩ := by
          simp [note, update, getDouble, NumericStatsValue.getDouble, hcurrent]
        have hminNaN := Binary64.isNaN_min hlow hcurrent
        have hmaxNaN := Binary64.isNaN_max hhigh hcurrent
        rw [hnote]
        refine ⟨fun _ => ⟨hminNaN, hmaxNaN⟩, ?_, ?_⟩
        · intro w hw
          cases hw
          refine ⟨rfl, hminNaN, hmaxNaN, ?_, ?_⟩
          · rw [Binary64.rank_min hlow hcurrent]
            exact min_le_right _ _
          · rw [Binary64.rank_max hhigh hcurrent]
            exact le_max_right _ _
        · intro earlier h w hw
          obtain ⟨-, hbounds⟩ := h w hw
          cases w with
          | double w =>
            obtain ⟨-, -, h1, h2⟩ := hbounds
            refine ⟨rfl, hminNaN, hmaxNaN, ?_, ?_⟩
            · rw [Binary64.rank_min hlow hcurrent]
              exact (min_le_left _ _).trans h1
            · rw [Binary64.rank_max hhigh hcurrent]
              exact h2.trans (le_max_left _ _)
          | int64 w => cases hbounds
          | string w => cases hbounds

end NumericBlockStats

/-! ## The statistics of a block -/

/-- The columns that carry statistics, in schema order: numeric and not the key. -/
def statsColumns (schema : Schema) : List (Nat × ValueType) :=
  (schema.columns.zipIdx.filter fun c => !c.1.isKey && c.1.type.isNumeric).map
    fun c => (c.2, c.1.type)

theorem numeric_of_mem_statsColumns {schema : Schema} {c : Nat × ValueType}
    (hc : c ∈ statsColumns schema) : c.2.isNumeric = true := by
  obtain ⟨d, hd, rfl⟩ := List.mem_map.mp hc
  have := (List.mem_filter.mp hd).2
  simp only [Bool.and_eq_true] at this
  exact this.2

theorem mem_statsColumns {schema : Schema} {i : Nat} {type : ValueType} :
    (i, type) ∈ statsColumns schema ↔ ∃ c, schema.columns[i]? = some c ∧ c.isKey = false ∧
      c.type = type ∧ type.isNumeric = true := by
  constructor
  · intro h
    obtain ⟨⟨c, j⟩, hc, heq⟩ := List.mem_map.mp h
    obtain ⟨hmem, hkeep⟩ := List.mem_filter.mp hc
    cases heq
    simp only [Bool.and_eq_true, Bool.not_eq_true'] at hkeep
    exact ⟨c, List.mk_mem_zipIdx_iff_getElem?.mp hmem, hkeep.1, rfl, hkeep.2⟩
  · rintro ⟨c, hget, hkey, rfl, hnumeric⟩
    refine List.mem_map.mpr ⟨(c, i), List.mem_filter.mpr ⟨?_, by simp [hkey, hnumeric]⟩, rfl⟩
    exact List.mk_mem_zipIdx_iff_getElem?.mpr hget

/-- The statistics of one column over the rows of a block. -/
def columnStats (rows : List Row) (column : Nat × ValueType) : NumericBlockStats :=
  rows.foldl (fun stats row => stats.note (row.getD column.1 none))
    (NumericBlockStats.initial column.1 column.2)

/-- The statistics a block builder ends up with. -/
def blockStats (schema : Schema) (rows : List Row) : List NumericBlockStats :=
  (statsColumns schema).map (columnStats rows)

/-- A valid row has a cell of the right type in every column. -/
theorem hasType_of_valid {schema : Schema} {row : Row} (hrow : ValidRow schema row) {i : Nat}
    {c : Column} (hc : schema.columns[i]? = some c) : HasType c.type (row.getD i none) := by
  obtain ⟨hi, hget⟩ := List.getElem?_eq_some_iff.mp hc
  have htypes : i < schema.types.length := by simpa [Schema.types] using hi
  have hrowlt : i < row.length := by
    rw [hrow.length]
    exact hi
  have h := (List.forall₂_iff_get.mp hrow.typed).2 i htypes hrowlt
  have htype : schema.types.get ⟨i, htypes⟩ = c.type := by
    simp [Schema.types, hget]
  rw [htype] at h
  simpa [List.getD_eq_getElem?_getD, List.getElem?_eq_getElem hrowlt] using h

theorem columnStats_append (rows : List Row) (row : Row) (column : Nat × ValueType) :
    columnStats (rows ++ [row]) column = (columnStats rows column).note
      (row.getD column.1 none) := by
  simp [columnStats, List.foldl_append]

/-- Statistics of valid rows are well typed and belong to their column. -/
theorem typed_columnStats {schema : Schema} {rows : List Row} {column : Nat × ValueType}
    (hcolumn : column ∈ statsColumns schema) (hrows : ∀ row ∈ rows, ValidRow schema row) :
    (columnStats rows column).Typed ∧ (columnStats rows column).type = column.2 ∧
      (columnStats rows column).columnIdx = column.1 := by
  obtain ⟨c, hget, -, htype, hnumeric⟩ := mem_statsColumns.mp hcolumn
  induction rows using List.reverseRecOn with
  | nil => exact ⟨NumericBlockStats.typed_initial hnumeric, rfl, rfl⟩
  | append_singleton rows row ih =>
    obtain ⟨htyped, htypeEq, hidx⟩ := ih fun r hr => hrows r (List.mem_append_left _ hr)
    have hcell := hasType_of_valid (hrows row (by simp)) hget
    rw [htype] at hcell
    have hupdate := NumericBlockStats.update_eq_note htyped (htypeEq ▸ hcell)
    rw [columnStats_append]
    exact ⟨hupdate.2.1, hupdate.2.2.1.trans htypeEq, hupdate.2.2.2.trans hidx⟩

/-- Statistics of rows without NaN cover every cell of their column. -/
theorem covers_columnStats {schema : Schema} {rows : List Row} {column : Nat × ValueType}
    (hcolumn : column ∈ statsColumns schema) (hrows : ∀ row ∈ rows, ValidRow schema row)
    (hnan : ∀ row ∈ rows, ∀ d, row.getD column.1 none = some (.double d) → d.isNaN = false) :
    (columnStats rows column).Proper ∧
      ∀ row ∈ rows, (columnStats rows column).Covers (row.getD column.1 none) := by
  obtain ⟨c, hget, -, htype, -⟩ := mem_statsColumns.mp hcolumn
  induction rows using List.reverseRecOn with
  | nil => exact ⟨NumericBlockStats.proper_initial _ _, by simp⟩
  | append_singleton rows row ih =>
    have hbefore : ∀ r ∈ rows, ValidRow schema r := fun r hr => hrows r (List.mem_append_left _ hr)
    obtain ⟨hproper, hcovers⟩ := ih hbefore fun r hr => hnan r (List.mem_append_left _ hr)
    obtain ⟨htyped, htypeEq, -⟩ := typed_columnStats hcolumn hbefore
    have hcell := hasType_of_valid (hrows row (by simp)) hget
    rw [htype] at hcell
    obtain ⟨h1, h2, h3⟩ := NumericBlockStats.covers_note htyped hproper (htypeEq ▸ hcell)
      (hnan row (by simp))
    rw [columnStats_append]
    refine ⟨h1, ?_⟩
    intro r hr
    rcases List.mem_append.mp hr with hin | hin
    · exact h3 _ (hcovers r hin)
    · rw [List.mem_singleton.mp hin]
      exact h2

/-! ## The stats file -/

def statsMagic : Nat := 0x53544154

def statsVersion : Nat := 1

def statsHeaderSize : Nat := 16

def statsColumnDescriptorSize : Nat := 17

def numericStatsEntrySize : Nat := 17

/-- One entry: the flag and both bounds, zeros when the block has no value. -/
def encodeStatsEntry (type : ValueType) (stats : Option NumericBlockStats) : Result Bytes :=
  match stats.filter (·.hasValue) with
  | some stats =>
    match type with
    | .int64 => do
      let minValue ← stats.minValue.getInt64
      let maxValue ← stats.maxValue.getInt64
      return leBytes 1 1 ++ (i64Bytes minValue ++ i64Bytes maxValue)
    | .double => do
      let minValue ← stats.minValue.getDouble
      let maxValue ← stats.maxValue.getDouble
      return leBytes 1 1 ++ (doubleBytes minValue ++ doubleBytes maxValue)
    | .string => .ok (leBytes 1 1)
  | none =>
    match type with
    | .int64 => .ok (leBytes 1 0 ++ (i64Bytes 0 ++ i64Bytes 0))
    | .double => .ok (leBytes 1 0 ++ (doubleBytes Binary64.zero ++ doubleBytes Binary64.zero))
    | .string => .ok (leBytes 1 0)

/-- The descriptor of the `i`-th column with statistics. -/
def statsDescriptor (dataStart numBlocks i : Nat) (column : Nat × ValueType) : Bytes :=
  leBytes 4 column.1 ++ (leBytes 1 column.2.code ++
    (leBytes 8 (dataStart + i * numBlocks * numericStatsEntrySize) ++
      leBytes 4 numericStatsEntrySize))

/-- `write_stats_file`: the header, one descriptor a column, and for each column
an entry for every block. -/
def statsFile (schema : Schema) (blocks : List (List NumericBlockStats)) : Result Bytes := do
  let columns := statsColumns schema
  let numBlocks := u32 blocks.length
  let numStatsColumns := u32 columns.length
  let dataStart := statsHeaderSize + numStatsColumns * statsColumnDescriptorSize
  let header := leBytes 4 statsMagic ++ (leBytes 4 statsVersion ++
    (leBytes 4 numBlocks ++ leBytes 4 numStatsColumns))
  let descriptors := ((columns.take numStatsColumns).zipIdx.map fun c =>
    statsDescriptor dataStart numBlocks c.2 c.1).flatten
  let entries ← columns.mapM fun column =>
    blocks.mapM fun block =>
      encodeStatsEntry column.2 (block.find? fun stats => stats.columnIdx = column.1)
  return header ++ (descriptors ++ (entries.map List.flatten).flatten)

/-- The entry of well-typed statistics. -/
def statsEntryBytes (stats : NumericBlockStats) : Bytes :=
  if stats.hasValue then leBytes 1 1 ++ (stats.minValue.bytes ++ stats.maxValue.bytes)
  else leBytes 1 0 ++ (leBytes 8 0 ++ leBytes 8 0)

theorem encodeStatsEntry_of_typed {stats : NumericBlockStats} (h : stats.Typed) :
    encodeStatsEntry stats.type (some stats) = .ok (statsEntryBytes stats) := by
  obtain ⟨columnIdx, type, hasValue, minValue, maxValue⟩ := stats
  obtain ⟨hnumeric, hmin, hmax⟩ := h
  simp only at hnumeric hmin hmax
  cases type with
  | string => cases hnumeric
  | int64 =>
    cases minValue <;> cases hmin
    cases maxValue <;> cases hmax
    cases hasValue <;> rfl
  | double =>
    cases minValue <;> cases hmin
    cases maxValue <;> cases hmax
    cases hasValue <;> rfl

theorem nodup_statsColumns (schema : Schema) : ((statsColumns schema).map Prod.fst).Nodup := by
  have hsub : ((statsColumns schema).map Prod.fst).Sublist
      (schema.columns.zipIdx.map Prod.snd) := by
    simp only [statsColumns, List.map_map]
    exact List.filter_sublist.map _
  refine hsub.nodup ?_
  rw [List.zipIdx_map_snd]
  exact List.nodup_range'

/-- Every column with statistics finds its own entry in a block's statistics. -/
theorem find?_blockStats {schema : Schema} {rows : List Row} {column : Nat × ValueType}
    (hcolumn : column ∈ statsColumns schema) (hrows : ∀ row ∈ rows, ValidRow schema row) :
    (blockStats schema rows).find? (fun stats => stats.columnIdx = column.1) =
      some (columnStats rows column) := by
  have hnodup := nodup_statsColumns schema
  have hidx : ∀ c ∈ statsColumns schema, (columnStats rows c).columnIdx = c.1 := fun c hc =>
    (typed_columnStats hc hrows).2.2
  unfold blockStats
  generalize statsColumns schema = columns at hcolumn hnodup hidx
  induction columns with
  | nil => simp at hcolumn
  | cons c columns ih =>
    rw [List.map_cons, List.find?_cons]
    have hc := hidx c List.mem_cons_self
    rw [List.map_cons, List.nodup_cons] at hnodup
    rcases List.mem_cons.mp hcolumn with rfl | hin
    · simp [hc]
    · have hne : c.1 ≠ column.1 := by
        intro heq
        exact hnodup.1 (heq ▸ List.mem_map_of_mem hin)
      simp only [hc, hne, decide_false]
      exact ih hin hnodup.2 fun d hd => hidx d (List.mem_cons_of_mem c hd)

/-- The stats file of blocks of valid rows, without the getters. -/
def statsFileBytes (schema : Schema) (blocks : List (List Row)) : Bytes :=
  let columns := statsColumns schema
  let numBlocks := u32 blocks.length
  let numStatsColumns := u32 columns.length
  let dataStart := statsHeaderSize + numStatsColumns * statsColumnDescriptorSize
  leBytes 4 statsMagic ++ (leBytes 4 statsVersion ++
    (leBytes 4 numBlocks ++ leBytes 4 numStatsColumns)) ++
  (((columns.take numStatsColumns).zipIdx.map fun c =>
    statsDescriptor dataStart numBlocks c.2 c.1).flatten ++
  columns.flatMap fun column => blocks.flatMap
      fun rows => statsEntryBytes (columnStats rows column))

theorem statsFile_of_valid {schema : Schema} (blocks : List (List Row))
    (hrows : ∀ rows ∈ blocks, ∀ row ∈ rows, ValidRow schema row) :
    statsFile schema (blocks.map (blockStats schema)) = .ok (statsFileBytes schema blocks) := by
  have hentry : ∀ column ∈ statsColumns schema,
      (blocks.map (blockStats schema)).mapM (fun block =>
        encodeStatsEntry column.2 (block.find? fun stats => stats.columnIdx = column.1)) =
      .ok (blocks.map fun rows => statsEntryBytes (columnStats rows column)) := by
    intro column hcolumn
    rw [List.mapM_map]
    apply Result.mapM_eq_map
    intro rows hrowsMem
    obtain ⟨htyped, htype, -⟩ := typed_columnStats hcolumn (hrows rows hrowsMem)
    simp only [Function.comp]
    rw [find?_blockStats hcolumn (hrows rows hrowsMem), ← htype]
    exact encodeStatsEntry_of_typed htyped
  have hall := Result.mapM_eq_map (statsColumns schema) hentry
  unfold statsFile statsFileBytes
  simp only [List.length_map, hall, Result.ok_bind, Result.pure_eq]
  simp [List.flatMap, List.map_map, Function.comp_def]

end Htap.SSTable
