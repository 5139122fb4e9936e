import Htap.SSTable.RowBuilder

/-!
`ColumnSSTBlockBuilder` and `ColumnSSTableBuilder`, and the SSTable they
produce: every logical block is a block of packed keys followed by one block of
NULL bitmap and values for each other column.
-/

namespace Htap.SSTable

open Storage ByteFormat Words

/-! ## Column blocks -/

structure ColumnSSTBlockBuilder where
  column : Column
  columnId : Nat
  targetBlockSizeBytes : Nat
  buffer : Bytes
  nullBitmap : Bytes
  minKey : Key
  maxKey : Key
  valuesCount : Nat
  full : Bool
  numericStats : List NumericBlockStats

structure ColumnSSTBlockResult where
  data : Bytes
  minKey : Key
  maxKey : Key
  valuesCount : Nat
  numericStats : List NumericBlockStats

namespace ColumnSSTBlockBuilder

def resetNumericStats (column : Column) (columnId : Nat) : List NumericBlockStats :=
  if columnId = keyColumnIndex || !column.type.isNumeric then []
  else [NumericBlockStats.initial columnId column.type]

def reset (column : Column) (columnId targetBlockSizeBytes : Nat) : ColumnSSTBlockBuilder where
  column := column
  columnId := columnId
  targetBlockSizeBytes := targetBlockSizeBytes
  buffer := []
  nullBitmap := []
  minKey := Int64.maxValue
  maxKey := Int64.minValue
  valuesCount := 0
  full := false
  numericStats := resetNumericStats column columnId

def create (column : Column) (columnId targetBlockSizeBytes : Nat) :
    Result ColumnSSTBlockBuilder :=
  if targetBlockSizeBytes = 0 then
    .error (.runtimeError "ColumnSSTBlockBuilder: target block size must be positive")
  else
    .ok (reset column columnId targetBlockSizeBytes)

/-- Only the front entry exists, if any does. -/
def updateNumericStats (stats : List NumericBlockStats) (value : NullableValue) :
    Result (List NumericBlockStats) :=
  match stats with
  | [] => .ok []
  | front :: rest => do
    let front ← front.update value
    return front :: rest

def add (b : ColumnSSTBlockBuilder) (row : Row) : Result ColumnSSTBlockBuilder :=
  if b.full then .error (.runtimeError "Column block already full")
  else if u16 row.length ≤ b.columnId then
    .error (.runtimeError "ColumnSSTBlockBuilder: column_id out of range")
  else do
    let value := row.getD b.columnId none
    let encoded ← encodeValue value b.column.type
    let numericStats ← updateNumericStats b.numericStats value
    let nullBitmap := Bitmap.push b.nullBitmap b.valuesCount value.isNone
    let buffer := b.buffer ++ encoded
    return { b with
      minKey := min b.minKey (rowKey row)
      maxKey := max b.maxKey (rowKey row)
      nullBitmap := nullBitmap
      buffer := buffer
      numericStats := numericStats
      valuesCount := u32 (b.valuesCount + 1)
      full := decide (b.targetBlockSizeBytes ≤ buffer.length + nullBitmap.length) }

/-- The finished block and the reset builder. -/
def finish (b : ColumnSSTBlockBuilder) : Result (ColumnSSTBlockResult × ColumnSSTBlockBuilder) :=
  if b.valuesCount = 0 then .error (.runtimeError "Cannot finish empty column block")
  else
    .ok ({
      data := b.nullBitmap ++ b.buffer
      minKey := b.minKey
      maxKey := b.maxKey
      valuesCount := b.valuesCount
      numericStats := b.numericStats }, reset b.column b.columnId b.targetBlockSizeBytes)

end ColumnSSTBlockBuilder

/-! ## Column SSTables -/

/-- The data and metadata files being written and `data_offset_`, which stays
below the file size limit. -/
structure ColumnOutput where
  data : Bytes := []
  metadata : Bytes := []
  dataOffset : Nat := 0

/-- Write one physical block of `size` bytes and its metadata record. -/
def ColumnOutput.writeBlock (out : ColumnOutput) (bytes : Bytes) (size : Nat)
    (blockMeta : ColumnBlockMeta) : Result ColumnOutput := do
  let data ← writeBytes out.data bytes
  let metadata ← writeBytes out.metadata blockMeta.encode
  return { data := data, metadata := metadata, dataOffset := out.dataOffset + size }

structure ColumnSSTableBuilder where
  schema : Schema
  sparseIndexOptions : SparseIndexOptions
  targetBlockRows : Nat
  colBuilders : List ColumnSSTBlockBuilder
  keyBuffer : List Key := []
  out : ColumnOutput := {}
  index : Bytes := []
  info : Bytes := []
  stats : Bytes := []
  blockNumericStats : List (List NumericBlockStats) := []
  sparseIndexCandidates : List SparseIndexEntry := []
  blockId : Nat := 0
  finished : Bool := false
  globalMin : Key := Int64.maxValue
  globalMax : Key := Int64.minValue
  lastKey : Key := 0
  firstRow : Bool := true

namespace ColumnSSTableBuilder

def create (schema : Schema) (options : SparseIndexOptions)
    (targetBlockRows columnBlockTargetBytes : Nat) : Result ColumnSSTableBuilder :=
  if schema.size = 0 then
    .error (.runtimeError "ColumnSSTableBuilder: schema must not be empty")
  else if options.minStep = 0 then
    .error (.runtimeError "ColumnSSTableBuilder: sparse index min step must be positive")
  else if options.maxStep < options.minStep then
    .error (.runtimeError "ColumnSSTableBuilder: sparse index max step must be >= min step")
  else if targetBlockRows = 0 then
    .error (.runtimeError "ColumnSSTableBuilder: target block rows must be positive")
  else if columnBlockTargetBytes = 0 then
    .error (.runtimeError "ColumnSSTableBuilder: column block target bytes must be positive")
  else do
    let colBuilders ← schema.columns.zipIdx.tail.mapM fun c =>
      ColumnSSTBlockBuilder.create c.1 (u16 c.2) columnBlockTargetBytes
    return {
      schema := schema
      sparseIndexOptions := options
      targetBlockRows := targetBlockRows
      colBuilders := colBuilders }

def anyColBuilderFull (b : ColumnSSTableBuilder) : Bool := b.colBuilders.any (·.full)

/-- The loop of `flush_block` over the builders of columns `columnIdx`, .. . -/
def flushColumns (blockId columnIdx : Nat) (out : ColumnOutput) :
    List ColumnSSTBlockBuilder →
    Result (List ColumnSSTBlockBuilder × ColumnOutput × List NumericBlockStats)
  | [] => .ok ([], out, [])
  | builder :: builders => do
    let (result, builder) ← builder.finish
    let out ← out.writeBlock result.data result.data.length {
      minKey := result.minKey
      maxKey := result.maxKey
      offset := out.dataOffset
      size := result.data.length
      valuesCount := result.valuesCount
      blockId := blockId
      columnIdx := u32 columnIdx }
    let (builders, out, stats) ← flushColumns blockId (columnIdx + 1) out builders
    return (builder :: builders, out, result.numericStats ++ stats)

def flushBlock (b : ColumnSSTableBuilder) : Result ColumnSSTableBuilder :=
  match b.keyBuffer with
  | [] => .ok b
  | blockMin :: keys => do
    let rowCount := u32 b.keyBuffer.length
    let blockMax := keys.getLastD blockMin
    let out ← b.out.writeBlock (b.keyBuffer.flatMap i64Bytes) (8 * rowCount) {
      minKey := blockMin
      maxKey := blockMax
      offset := b.out.dataOffset
      size := 8 * rowCount
      valuesCount := rowCount
      blockId := b.blockId
      columnIdx := keyColumnIndex }
    let (colBuilders, out, logicalBlockStats) ← flushColumns b.blockId 1 out b.colBuilders
    return { b with
      colBuilders := colBuilders
      out := out
      blockNumericStats := b.blockNumericStats ++ [logicalBlockStats]
      sparseIndexCandidates := b.sparseIndexCandidates ++ [⟨blockMin, b.blockId⟩]
      keyBuffer := []
      blockId := u32 (b.blockId + 1) }

def add (b : ColumnSSTableBuilder) (row : Row) : Result ColumnSSTableBuilder :=
  if b.finished then .error (.runtimeError "ColumnSSTableBuilder: already finished")
  else
    let key := rowKey row
    if !b.firstRow && decide (key < b.lastKey) then
      .error (.runtimeError "ColumnSSTableBuilder: rows must be sorted by key")
    else do
      let b ←
        (if decide (b.targetBlockRows ≤ b.keyBuffer.length) || b.anyColBuilderFull then
          b.flushBlock
        else .ok b : Result ColumnSSTableBuilder)
      let colBuilders ← b.colBuilders.mapM fun builder => builder.add row
      return { b with
        keyBuffer := b.keyBuffer ++ [key]
        colBuilders := colBuilders
        firstRow := false
        lastKey := key
        globalMin := min b.globalMin key
        globalMax := max b.globalMax key }

def finish (b : ColumnSSTableBuilder) : Result (SSTableBuildResult × ColumnSSTableBuilder) :=
  if b.finished then .error (.runtimeError "ColumnSSTableBuilder: already finished")
  else if b.firstRow then
    .error (.runtimeError "ColumnSSTableBuilder: cannot create empty SSTable")
  else do
    let b ← b.flushBlock
    let info ← writeBytes [] (infoFile b.blockId b.globalMin b.globalMax .column)
    let index ← writeBytes []
      (sparseIndexFile b.blockId b.sparseIndexOptions b.sparseIndexCandidates)
    let statsBytes ← statsFile b.schema b.blockNumericStats
    let stats ← writeBytes [] statsBytes
    return ({ minKey := b.globalMin, maxKey := b.globalMax, numBlocks := b.blockId },
      { b with info := info, index := index, stats := stats, finished := true })

def files (b : ColumnSSTableBuilder) : SSTableFiles :=
  { data := b.out.data, metadata := b.out.metadata, index := b.index, info := b.info,
    stats := b.stats }

end ColumnSSTableBuilder

/-- A whole build: open the files, add the rows, finish. -/
def buildColumnSSTable (schema : Schema) (options : SparseIndexOptions)
    (targetBlockRows columnBlockTargetBytes : Nat) (rows : List Row) :
    Result (SSTableBuildResult × SSTableFiles) := do
  let b ← ColumnSSTableBuilder.create schema options targetBlockRows columnBlockTargetBytes
  let b ← rows.foldlM ColumnSSTableBuilder.add b
  let (result, b) ← b.finish
  return (result, b.files)

/-! ## What a build produces -/

def columnAt (schema : Schema) (i : Nat) : Column :=
  schema.columns.getD i { name := [], type := .int64 }

def cell (row : Row) (i : Nat) : NullableValue := row.getD i none

/-- The NULL bitmap and the values of one column over the rows of a block. -/
def columnBlockBytes (i : Nat) (rows : List Row) : Bytes :=
  Bitmap.ofFlags (rows.map fun row => (cell row i).isNone) ++
    rows.flatMap fun row => valueBytes (cell row i)

/-- The physical block of column `i`; column 0 is the key column. -/
def physicalBlockBytes (rows : List Row) (i : Nat) : Bytes :=
  if i = keyColumnIndex then rows.flatMap fun row => i64Bytes (rowKey row)
  else columnBlockBytes i rows

theorem physicalBlockBytes_key (rows : List Row) :
    physicalBlockBytes rows 0 = rows.flatMap fun row => i64Bytes (rowKey row) := rfl

/-- All physical blocks of a logical block. -/
def logicalBlockBytes (schema : Schema) (rows : List Row) : Bytes :=
  (List.range schema.size).flatMap (physicalBlockBytes rows)

/-- The metadata record of column `i` of a logical block that starts at `base`. -/
def columnBlockMeta (base blockId : Nat) (rows : List Row) (i : Nat) : ColumnBlockMeta where
  minKey := minKeyOf rows
  maxKey := maxKeyOf rows
  offset := base + ((List.range i).flatMap (physicalBlockBytes rows)).length
  size := (physicalBlockBytes rows i).length
  valuesCount := u32 rows.length
  blockId := blockId
  columnIdx := i

def logicalBlockMetas (schema : Schema) (earlier : List (List Row)) (rows : List Row) :
    List ColumnBlockMeta :=
  (List.range schema.size).map
    (columnBlockMeta (earlier.flatMap (logicalBlockBytes schema)).length (u32 earlier.length) rows)

def columnMetas (schema : Schema) (blocks : List (List Row)) : List (List ColumnBlockMeta) :=
  Splitting.mapPrefix (logicalBlockMetas schema) [] blocks

/-- The files of a column SSTable with these logical blocks. -/
def columnSSTable (schema : Schema) (options : SparseIndexOptions) (blocks : List (List Row)) :
    SSTableFiles where
  data := blocks.flatMap (logicalBlockBytes schema)
  metadata := (columnMetas schema blocks).flatten.flatMap ColumnBlockMeta.encode
  index := sparseIndexFile (u32 blocks.length) options (indexCandidates blocks)
  info := infoFile (u32 blocks.length) (minKeyOf blocks.flatten) (maxKeyOf blocks.flatten) .column
  stats := statsFileBytes schema blocks

/-- A logical block that takes no more rows. -/
def columnBlockFull (schema : Schema) (targetBlockRows columnBlockTargetBytes : Nat)
    (rows : List Row) : Bool :=
  decide (targetBlockRows ≤ rows.length) ||
    (List.range' 1 (schema.size - 1)).any fun i =>
      decide (columnBlockTargetBytes ≤ (columnBlockBytes i rows).length)

namespace ColumnSSTBlockBuilder

/-- The state of the builder of column `i` that holds `rows`. -/
def holding (schema : Schema) (target : Nat) (rows : List Row) (i : Nat) :
    ColumnSSTBlockBuilder where
  column := columnAt schema i
  columnId := i
  targetBlockSizeBytes := target
  buffer := rows.flatMap fun row => valueBytes (cell row i)
  nullBitmap := Bitmap.ofFlags (rows.map fun row => (cell row i).isNone)
  minKey := minKeyOf rows
  maxKey := maxKeyOf rows
  valuesCount := u32 rows.length
  full := decide (target ≤ (columnBlockBytes i rows).length)
  numericStats :=
    if (columnAt schema i).type.isNumeric then [columnStats rows (i, (columnAt schema i).type)]
    else []

theorem reset_eq_holding (schema : Schema) {target i : Nat} (htarget : 0 < target) (hi : 0 < i) :
    reset (columnAt schema i) i target = holding schema target [] i := by
  have hfull : decide (target ≤ (columnBlockBytes i []).length) = false := by
    simpa [columnBlockBytes, Bitmap.ofFlags, Bitmap.pushAll] using htarget.ne'
  have hkey : ¬ i = keyColumnIndex := by
    unfold keyColumnIndex
    omega
  unfold reset holding resetNumericStats
  rw [hfull]
  cases (columnAt schema i).type.isNumeric with
  | false =>
    simp only [hkey, Bool.not_false, decide_false, Bool.false_or, if_true, Bool.false_eq_true,
      if_false]
    rfl
  | true =>
    simp only [hkey, Bool.not_true, decide_false, Bool.or_false, Bool.false_eq_true, if_false,
      if_true]
    rfl

theorem finish_holding {schema : Schema} {target i : Nat} {rows : List Row}
    (hcount : 0 < u32 rows.length) :
    (holding schema target rows i).finish = .ok
      ({ data := columnBlockBytes i rows
         minKey := minKeyOf rows
         maxKey := maxKeyOf rows
         valuesCount := u32 rows.length
         numericStats := (holding schema target rows i).numericStats },
        reset (columnAt schema i) i target) := by
  unfold finish
  have hne : ¬ (holding schema target rows i).valuesCount = 0 := hcount.ne'
  rw [if_neg hne]
  rfl

private theorem columnAt_of_lt {schema : Schema} {i : Nat} (hi : i < schema.size) :
    schema.columns[i]? = some (columnAt schema i) := by
  unfold Schema.size at hi
  simp [columnAt, List.getD_eq_getElem?_getD, List.getElem?_eq_getElem hi]

/-- Adding a valid row to a column builder that is not full. -/
theorem add_holding {schema : Schema} (hschema : schema.WellFormed) {target i : Nat}
    {rows : List Row} {row : Row} (hi : 0 < i) (hsize : i < schema.size)
    (hcolumns : schema.size < 2 ^ 16) (hlength : rows.length < 2 ^ 32)
    (hrows : ∀ r ∈ rows, ValidRow schema r) (hrow : ValidRow schema row)
    (hroom : decide (target ≤ (columnBlockBytes i rows).length) = false) :
    (holding schema target rows i).add row = .ok (holding schema target (rows ++ [row]) i) := by
  have hcolumn := columnAt_of_lt hsize
  have hcell : HasType (columnAt schema i).type (cell row i) := hasType_of_valid hrow hcolumn
  have hbitmap : Bitmap.push (Bitmap.ofFlags (rows.map fun r => (cell r i).isNone)) rows.length
      (cell row i).isNone =
      Bitmap.ofFlags ((rows ++ [row]).map fun r => (cell r i).isNone) := by
    rw [List.map_append, Bitmap.ofFlags, Bitmap.ofFlags, Bitmap.pushAll_append, List.length_map,
      Nat.zero_add]
    rfl
  have hstats : updateNumericStats (holding schema target rows i).numericStats (cell row i) =
      .ok (holding schema target (rows ++ [row]) i).numericStats := by
    simp only [holding]
    cases hnumeric : (columnAt schema i).type.isNumeric with
    | false => rfl
    | true =>
      have hnotKey : (columnAt schema i).isKey = false := by
        obtain ⟨c, rest, hcols, -, -, -, hothers⟩ := hschema.keyFirst
        rw [hcols] at hcolumn
        obtain ⟨j, rfl⟩ : ∃ j, i = j + 1 := ⟨i - 1, by omega⟩
        rw [List.getElem?_cons_succ] at hcolumn
        exact hothers _ (List.mem_of_getElem? hcolumn)
      have hmem : (i, (columnAt schema i).type) ∈ statsColumns schema :=
        mem_statsColumns.mpr ⟨_, hcolumn, hnotKey, rfl, hnumeric⟩
      obtain ⟨htyped, htypeEq, -⟩ := typed_columnStats hmem hrows
      have hvalue : HasType (columnStats rows (i, (columnAt schema i).type)).type (cell row i) := by
        rw [htypeEq]
        exact hcell
      have hupdate := (NumericBlockStats.update_eq_note htyped hvalue).1
      simp only [if_true, updateNumericStats, hupdate, Result.ok_bind, Result.pure_eq,
        columnStats_append]
      rfl
  have hbytes : (columnBlockBytes i (rows ++ [row])).length =
      (rows.flatMap (fun r => valueBytes (cell r i)) ++ valueBytes (cell row i)).length +
        (Bitmap.ofFlags ((rows ++ [row]).map fun r => (cell r i).isNone)).length := by
    rw [columnBlockBytes, List.length_append, Nat.add_comm]
    simp
  have hid : ¬ u16 row.length ≤ (holding schema target rows i).columnId := by
    rw [hrow.length, u16_of_lt hcolumns]
    exact not_le.mpr hsize
  unfold add
  rw [if_neg (by simpa [holding] using hroom), if_neg hid]
  dsimp only
  rw [show row.getD (holding schema target rows i).columnId none = cell row i from rfl,
    show (holding schema target rows i).column = columnAt schema i from rfl,
    encodeValue_of_hasType hcell, Result.ok_bind, hstats, Result.ok_bind]
  simp only [Result.pure_eq, holding, u32_of_lt hlength, hbitmap, hbytes, minKeyOf_append,
    maxKeyOf_append, min_comm (minKeyOf _), max_comm (maxKeyOf _), List.flatMap_append,
    List.flatMap_cons, List.flatMap_nil, List.append_nil, List.length_append,
    List.length_singleton]

end ColumnSSTBlockBuilder

/-! ## Facts about sorted blocks -/

theorem minKeyOf_sorted {row : Row} {rest : List Row} (h : SortedRows (row :: rest)) :
    minKeyOf (row :: rest) = rowKey row := by
  obtain ⟨r, hr, heq⟩ := exists_minKeyOf (List.cons_ne_nil row rest)
  refine le_antisymm (minKeyOf_le List.mem_cons_self) ?_
  rw [heq]
  rcases List.mem_cons.mp hr with rfl | hin
  · exact le_rfl
  · exact (List.pairwise_cons.mp h).1 r hin

theorem maxKeyOf_sorted {front : List Row} {row : Row} (h : SortedRows (front ++ [row])) :
    maxKeyOf (front ++ [row]) = rowKey row := by
  obtain ⟨r, hr, heq⟩ := exists_maxKeyOf (by simp : front ++ [row] ≠ [])
  refine le_antisymm ?_ (le_maxKeyOf (by simp))
  rw [heq]
  rcases List.mem_append.mp hr with hin | hin
  · exact (List.pairwise_append.mp h).2.2 r hin row (by simp)
  · rw [List.mem_singleton.mp hin]

/-- The last key of a sorted block is its greatest. -/
theorem getLastD_sorted {row : Row} {rest : List Row} (h : SortedRows (row :: rest)) :
    (rest.map rowKey).getLastD (rowKey row) = maxKeyOf (row :: rest) := by
  rcases List.eq_nil_or_concat' rest with rfl | ⟨front, last, rfl⟩
  · have hmax : maxKeyOf ([] ++ [row]) = rowKey row := maxKeyOf_sorted h
    exact hmax.symm
  · rw [← List.cons_append] at h ⊢
    rw [maxKeyOf_sorted h]
    simp

/-! ## The column builder's states -/

namespace ColumnSSTableBuilder

/-- The state of a builder that wrote the blocks `closed` and holds `current`. -/
def holding (schema : Schema) (options : SparseIndexOptions) (targetRows targetBytes : Nat)
    (closed : List (List Row)) (current : List Row) : ColumnSSTableBuilder where
  schema := schema
  sparseIndexOptions := options
  targetBlockRows := targetRows
  colBuilders := (List.range' 1 (schema.size - 1)).map
    (ColumnSSTBlockBuilder.holding schema targetBytes current)
  keyBuffer := current.map rowKey
  out := {
    data := closed.flatMap (logicalBlockBytes schema)
    metadata := (columnMetas schema closed).flatten.flatMap ColumnBlockMeta.encode
    dataOffset := (closed.flatMap (logicalBlockBytes schema)).length }
  blockNumericStats := closed.map (blockStats schema)
  sparseIndexCandidates := indexCandidates closed
  blockId := u32 closed.length
  globalMin := minKeyOf (closed.flatten ++ current)
  globalMax := maxKeyOf (closed.flatten ++ current)
  lastKey := lastKeyOf (closed.flatten ++ current)
  firstRow := (closed.flatten ++ current).isEmpty

variable {schema : Schema} {options : SparseIndexOptions} {targetRows targetBytes : Nat}

private theorem tail_zipIdx (columns : List Column) :
    columns.zipIdx.tail = (List.range' 1 (columns.length - 1)).map fun i =>
      (columns.getD i { name := [], type := .int64 }, i) := by
  apply List.ext_getElem
  · simp
  · intro j h1 h2
    have hj : j + 1 < columns.length := by
      simp only [List.length_tail, List.length_zipIdx] at h1
      omega
    simp [List.getD_eq_getElem?_getD, List.getElem?_eq_getElem hj, Nat.add_comm 1 j]

private theorem mapM_map_ok {α β γ : Type} {f : β → Result γ} {g : α → β} {k : α → γ}
    (items : List α) (h : ∀ a ∈ items, f (g a) = .ok (k a)) :
    (items.map g).mapM f = .ok (items.map k) := by
  rw [Result.mapM_eq_ok, List.forall₂_map_left_iff, List.forall₂_map_right_iff, List.forall₂_same]
  exact h

private theorem create_eq (hschema : schema.WellFormed) (hcolumns : schema.size < 2 ^ 16)
    (hoptions : options.Accepted) (hrowsTarget : 0 < targetRows) (hbytes : 0 < targetBytes) :
    create schema options targetRows targetBytes =
      .ok (holding schema options targetRows targetBytes [] []) := by
  have hsize : schema.size ≠ 0 := by
    obtain ⟨c, rest, hcols, -⟩ := hschema.keyFirst
    simp [Schema.size, hcols]
  have hbuilders : (schema.columns.zipIdx.tail.mapM fun c =>
      ColumnSSTBlockBuilder.create c.1 (u16 c.2) targetBytes) =
      .ok ((List.range' 1 (schema.size - 1)).map
        (ColumnSSTBlockBuilder.holding schema targetBytes [])) := by
    rw [tail_zipIdx]
    apply mapM_map_ok
    intro i hi
    obtain ⟨h1, h2⟩ := List.mem_range'_1.mp hi
    have hlt : i < schema.size := by
      unfold Schema.size
      omega
    rw [ColumnSSTBlockBuilder.create, if_neg hbytes.ne', u16_of_lt (hlt.trans hcolumns)]
    exact congrArg Except.ok
      (ColumnSSTBlockBuilder.reset_eq_holding schema hbytes (by omega : 0 < i))
  unfold create
  rw [if_neg hsize, if_neg hoptions.1.ne', if_neg (not_lt.mpr hoptions.2),
    if_neg hrowsTarget.ne', if_neg hbytes.ne', hbuilders]
  rfl

/-- The statistics of the column builders, put together, are the block's. -/
private theorem flatMap_numericStats (hschema : schema.WellFormed) (rows : List Row) :
    ((List.range' 1 (schema.size - 1)).flatMap fun i =>
      (ColumnSSTBlockBuilder.holding schema targetBytes rows i).numericStats) =
      blockStats schema rows := by
  obtain ⟨c, rest, hcols, -, hkey, -, hothers⟩ := hschema.keyFirst
  have hgeneral : ∀ (columns : List Column) (start : Nat), (∀ d ∈ columns, d.isKey = false) →
      (((columns.zipIdx start).filter fun c => !c.1.isKey && c.1.type.isNumeric).map
        fun c => columnStats rows (c.2, c.1.type)) =
      (columns.zipIdx start).flatMap fun c =>
        if c.1.type.isNumeric then [columnStats rows (c.2, c.1.type)] else [] := by
    intro columns
    induction columns with
    | nil => simp
    | cons d columns ih =>
      intro start hnotKey
      have hrest := ih (start + 1) fun e he => hnotKey e (List.mem_cons_of_mem d he)
      have hd := hnotKey d List.mem_cons_self
      rw [List.zipIdx_cons, List.flatMap_cons, ← hrest]
      cases hnumeric : d.type.isNumeric <;> simp [hd, hnumeric]
  have htail : schema.columns.zipIdx.tail = rest.zipIdx 1 := by
    rw [hcols]
    rfl
  have hrange := tail_zipIdx schema.columns
  rw [htail] at hrange
  unfold blockStats statsColumns
  rw [List.map_map, hcols, List.zipIdx_cons, List.filter_cons]
  simp only [hkey, Bool.not_true, Bool.false_and, Bool.false_eq_true, if_false, Nat.zero_add]
  refine Eq.trans ?_ (hgeneral rest 1 hothers).symm
  rw [hrange, List.flatMap_map]
  rfl

private theorem flushColumns_returns {rows : List Row} (hcount : 0 < u32 rows.length)
    (hcolumns : schema.size < 2 ^ 16) (hbytes : 0 < targetBytes) (base blockId count : Nat) :
    ∀ (start : Nat) (out : ColumnOutput), 0 < start → start + count ≤ schema.size →
      out.dataOffset = base + ((List.range start).flatMap (physicalBlockBytes rows)).length →
      Result.Returns
        (flushColumns blockId start out ((List.range' start count).map
          (ColumnSSTBlockBuilder.holding schema targetBytes rows)))
        ((List.range' start count).map (ColumnSSTBlockBuilder.holding schema targetBytes []),
          { data := out.data ++ (List.range' start count).flatMap (physicalBlockBytes rows)
            metadata := out.metadata ++ ((List.range' start count).map
              (columnBlockMeta base blockId rows)).flatMap ColumnBlockMeta.encode
            dataOffset := base +
              ((List.range (start + count)).flatMap (physicalBlockBytes rows)).length },
          (List.range' start count).flatMap fun i =>
            (ColumnSSTBlockBuilder.holding schema targetBytes rows i).numericStats) := by
  induction count with
  | zero =>
    intro start out _ _ hoffset
    refine Or.inl ?_
    simp only [List.range'_zero, List.map_nil, flushColumns, List.flatMap_nil, List.append_nil,
      Nat.add_zero, ← hoffset]
  | succ count ih =>
    intro start out hstart hsize hoffset
    have hphysical : physicalBlockBytes rows start = columnBlockBytes start rows := by
      rw [physicalBlockBytes, if_neg]
      unfold keyColumnIndex
      omega
    have hnext : base + ((List.range (start + 1)).flatMap (physicalBlockBytes rows)).length =
        out.dataOffset + (columnBlockBytes start rows).length := by
      rw [hoffset, List.range_succ, List.flatMap_append, List.length_append,
        List.flatMap_cons, List.flatMap_nil, List.append_nil, hphysical, Nat.add_assoc]
    have hmeta : columnBlockMeta base blockId rows start = {
        minKey := minKeyOf rows
        maxKey := maxKeyOf rows
        offset := out.dataOffset
        size := (columnBlockBytes start rows).length
        valuesCount := u32 rows.length
        blockId := blockId
        columnIdx := u32 start } := by
      rw [columnBlockMeta, hphysical, hoffset, u32_of_lt (by omega : start < 2 ^ 32)]
    rw [List.range'_succ, List.map_cons, flushColumns,
      ColumnSSTBlockBuilder.finish_holding hcount, Result.ok_bind]
    dsimp only
    rw [← hmeta, ColumnSSTBlockBuilder.reset_eq_holding schema hbytes hstart]
    have hwrite : Result.Returns
        (out.writeBlock (columnBlockBytes start rows) (columnBlockBytes start rows).length
          (columnBlockMeta base blockId rows start))
        { data := out.data ++ columnBlockBytes start rows
          metadata := out.metadata ++ (columnBlockMeta base blockId rows start).encode
          dataOffset := out.dataOffset + (columnBlockBytes start rows).length } :=
      (writeBytes_returns _ _).bind ((writeBytes_returns _ _).bind (Or.inl rfl))
    refine hwrite.bind ((ih (start + 1) _ (by omega) (by omega) hnext.symm).bind (Or.inl ?_))
    simp only [Result.pure_eq, List.map_cons, List.flatMap_cons, hphysical, List.append_assoc,
      Nat.add_assoc, Nat.add_comm 1 count]

private theorem range_eq_cons (hschema : schema.WellFormed) :
    List.range schema.size = 0 :: List.range' 1 (schema.size - 1) := by
  obtain ⟨c, rest, hcols, -⟩ := hschema.keyFirst
  have hsize : schema.size = rest.length + 1 := by simp [Schema.size, hcols]
  rw [hsize, List.range_eq_range', List.range'_succ]
  rfl

private theorem flushBlock_holding (hschema : schema.WellFormed) (hcolumns : schema.size < 2 ^ 16)
    (hbytes : 0 < targetBytes) {closed : List (List Row)} {current : List Row}
    (hne : current ≠ []) (hsorted : SortedRows current) (hlength : current.length < 2 ^ 32) :
    Result.Returns (holding schema options targetRows targetBytes closed current).flushBlock
      (holding schema options targetRows targetBytes (closed ++ [current]) []) := by
  obtain ⟨row, rest, rfl⟩ := List.exists_cons_of_ne_nil hne
  have hcount : 0 < u32 (row :: rest).length := by
    rw [u32_of_lt hlength]
    simp
  have hpositive : 1 + (schema.size - 1) = schema.size := by
    obtain ⟨c, others, hcols, -⟩ := hschema.keyFirst
    simp [Schema.size, hcols, Nat.add_comm]
  let base := (closed.flatMap (logicalBlockBytes schema)).length
  have hkeys : ((row :: rest).map rowKey).flatMap i64Bytes =
      physicalBlockBytes (row :: rest) 0 := by
    rw [List.flatMap_map, physicalBlockBytes_key]
  have hkeysLength : 8 * u32 (row :: rest).length =
    (physicalBlockBytes (row :: rest) 0).length := by
    rw [u32_of_lt hlength, physicalBlockBytes_key,
      ByteFormat.length_records (row :: rest) fun r _ => length_i64Bytes (rowKey r)]
    omega
  have hmeta : columnBlockMeta base (u32 closed.length) (row :: rest) 0 = {
      minKey := rowKey row
      maxKey := (rest.map rowKey).getLastD (rowKey row)
      offset := base
      size := 8 * u32 (row :: rest).length
      valuesCount := u32 (row :: rest).length
      blockId := u32 closed.length
      columnIdx := keyColumnIndex } := by
    rw [columnBlockMeta, minKeyOf_sorted hsorted, getLastD_sorted hsorted, hkeysLength]
    rfl
  have hwrite : Result.Returns
      ((holding schema options targetRows targetBytes closed (row :: rest)).out.writeBlock
        (((row :: rest).map rowKey).flatMap i64Bytes) (8 * u32 (row :: rest).length)
        (columnBlockMeta base (u32 closed.length) (row :: rest) 0))
      { data := closed.flatMap (logicalBlockBytes schema) ++ physicalBlockBytes (row :: rest) 0
        metadata := (columnMetas schema closed).flatten.flatMap ColumnBlockMeta.encode ++
          (columnBlockMeta base (u32 closed.length) (row :: rest) 0).encode
        dataOffset := base + (physicalBlockBytes (row :: rest) 0).length } := by
    rw [hkeys, hkeysLength]
    exact (writeBytes_returns _ _).bind ((writeBytes_returns _ _).bind (Or.inl rfl))
  have hloop := flushColumns_returns hcount hcolumns hbytes base (u32 closed.length)
    (schema.size - 1) 1
    { data := closed.flatMap (logicalBlockBytes schema) ++ physicalBlockBytes (row :: rest) 0
      metadata := (columnMetas schema closed).flatten.flatMap ColumnBlockMeta.encode ++
        (columnBlockMeta base (u32 closed.length) (row :: rest) 0).encode
      dataOffset := base + (physicalBlockBytes (row :: rest) 0).length }
    Nat.one_pos hpositive.le (by simp)
  unfold flushBlock
  simp only [holding, List.map_cons] at hwrite ⊢
  rw [List.length_cons, List.length_map, show rest.length + 1 = (row :: rest).length from rfl,
    ← hmeta]
  refine hwrite.bind (hloop.bind (Or.inl ?_))
  have hlogical : logicalBlockBytes schema (row :: rest) =
      physicalBlockBytes (row :: rest) 0 ++
        (List.range' 1 (schema.size - 1)).flatMap (physicalBlockBytes (row :: rest)) := by
    rw [logicalBlockBytes, range_eq_cons hschema, List.flatMap_cons]
  have hmetas : logicalBlockMetas schema closed (row :: rest) =
      columnBlockMeta base (u32 closed.length) (row :: rest) 0 ::
        (List.range' 1 (schema.size - 1)).map
          (columnBlockMeta base (u32 closed.length) (row :: rest)) := by
    rw [logicalBlockMetas, range_eq_cons hschema, List.map_cons]
  have hmetadata : (columnMetas schema (closed ++ [row :: rest])).flatten.flatMap
        ColumnBlockMeta.encode =
      (columnMetas schema closed).flatten.flatMap ColumnBlockMeta.encode ++
        ((columnBlockMeta base (u32 closed.length) (row :: rest) 0).encode ++
          ((List.range' 1 (schema.size - 1)).map
            (columnBlockMeta base (u32 closed.length) (row :: rest))).flatMap
              ColumnBlockMeta.encode) := by
    rw [columnMetas, Splitting.mapPrefix_append, List.flatten_append, List.flatMap_append,
      List.nil_append]
    simp only [Splitting.mapPrefix, hmetas, List.flatten_cons, List.flatten_nil, List.append_nil,
      List.flatMap_cons]
    rfl
  have hdata : (closed ++ [row :: rest]).flatMap (logicalBlockBytes schema) =
      closed.flatMap (logicalBlockBytes schema) ++ (physicalBlockBytes (row :: rest) 0 ++
        (List.range' 1 (schema.size - 1)).flatMap (physicalBlockBytes (row :: rest))) := by
    rw [List.flatMap_append, List.flatMap_cons, List.flatMap_nil, List.append_nil, hlogical]
  have hoffset : ((closed ++ [row :: rest]).flatMap (logicalBlockBytes schema)).length =
      base + ((List.range (1 + (schema.size - 1))).flatMap
        (physicalBlockBytes (row :: rest))).length := by
    rw [hpositive, List.flatMap_append, List.length_append, List.flatMap_cons, List.flatMap_nil,
      List.append_nil]
    rfl
  have hcandidates : indexCandidates (closed ++ [row :: rest]) =
      indexCandidates closed ++ [⟨rowKey row, u32 closed.length⟩] := by
    rw [indexCandidates, Splitting.mapPrefix_append, Splitting.mapPrefix, Splitting.mapPrefix,
      minKeyOf_sorted hsorted, List.nil_append]
    rfl
  have hstats : ((closed ++ [row :: rest]).map (blockStats schema)) =
      closed.map (blockStats schema) ++ [(List.range' 1 (schema.size - 1)).flatMap fun i =>
        (ColumnSSTBlockBuilder.holding schema targetBytes (row :: rest) i).numericStats] := by
    rw [flatMap_numericStats hschema, List.map_append, List.map_cons, List.map_nil]
  have hrows : (closed ++ [row :: rest]).flatten ++ [] = closed.flatten ++ row :: rest := by simp
  have hid : u32 (closed ++ [row :: rest]).length = u32 (u32 closed.length + 1) := by
    rw [u32_add_one, List.length_append, List.length_singleton]
  rw [hstats, hmetadata, hoffset, hdata, hcandidates, hrows, hid]
  simp only [Result.pure_eq, List.append_assoc, List.map_nil]

/-- A block takes another row exactly when none of its limits is reached. -/
private theorem any_full (rows : List Row) (closed : List (List Row)) :
    (decide (targetRows ≤
        (holding schema options targetRows targetBytes closed rows).keyBuffer.length) ||
      (holding schema options targetRows targetBytes closed rows).anyColBuilderFull) =
      columnBlockFull schema targetRows targetBytes rows := by
  simp only [holding, anyColBuilderFull, List.length_map, List.any_map, columnBlockFull]
  rfl

private theorem colBuilders_add (hschema : schema.WellFormed) (hcolumns : schema.size < 2 ^ 16)
    {rows : List Row} {row : Row} (hlength : rows.length < 2 ^ 32)
    (hrows : ∀ r ∈ rows, ValidRow schema r) (hrow : ValidRow schema row)
    (hroom : columnBlockFull schema targetRows targetBytes rows = false) :
    ((List.range' 1 (schema.size - 1)).map
        (ColumnSSTBlockBuilder.holding schema targetBytes rows)).mapM
          (fun builder => builder.add row) =
      .ok ((List.range' 1 (schema.size - 1)).map
        (ColumnSSTBlockBuilder.holding schema targetBytes (rows ++ [row]))) := by
  apply mapM_map_ok
  intro i hi
  obtain ⟨h1, h2⟩ := List.mem_range'_1.mp hi
  rw [columnBlockFull, Bool.or_eq_false_iff, List.any_eq_false] at hroom
  have hfull := hroom.2 i hi
  rw [Bool.not_eq_true] at hfull
  exact ColumnSSTBlockBuilder.add_holding hschema (by omega) (by omega) hcolumns hlength hrows hrow
    hfull

/-- The key of a row to add is not below any key added before. -/
private theorem in_order {closed : List (List Row)} {current : List Row} {row : Row}
    (hsorted : ∀ r ∈ closed.flatten ++ current, rowKey r ≤ rowKey row) :
    (!(closed.flatten ++ current).isEmpty &&
      decide (rowKey row < lastKeyOf (closed.flatten ++ current))) = false := by
  rcases eq_or_ne (closed.flatten ++ current) [] with hnil | hne
  · rw [hnil]
    rfl
  · obtain ⟨last, hlast, heq⟩ := exists_lastKeyOf hne
    have hle := hsorted last hlast
    simp [heq, hle]

/-- After an optional flush, the row goes into the builder's current block. -/
private theorem add_after {b : ColumnSSTableBuilder} (hschema : schema.WellFormed)
    (hcolumns : schema.size < 2 ^ 16) {closed : List (List Row)} {current : List Row} {row : Row}
    (hfinished : b.finished = false)
    (horder : (!b.firstRow && decide (rowKey row < b.lastKey)) = false)
    (hflush : Result.Returns
      (if decide (b.targetBlockRows ≤ b.keyBuffer.length) || b.anyColBuilderFull then b.flushBlock
        else .ok b)
      (holding schema options targetRows targetBytes closed current))
    (hlength : current.length < 2 ^ 32) (hrows : ∀ r ∈ current, ValidRow schema r)
    (hrow : ValidRow schema row)
    (hroom : columnBlockFull schema targetRows targetBytes current = false) :
    Result.Returns (b.add row)
      (holding schema options targetRows targetBytes closed (current ++ [row])) := by
  unfold add
  rw [if_neg (by simp [hfinished])]
  dsimp only
  rw [if_neg (by simp [horder])]
  refine hflush.bind ?_
  have hadd := colBuilders_add hschema hcolumns hlength hrows hrow hroom
  rw [show (holding schema options targetRows targetBytes closed current).colBuilders =
    (List.range' 1 (schema.size - 1)).map
      (ColumnSSTBlockBuilder.holding schema targetBytes current) from rfl, hadd, Result.ok_bind]
  refine Or.inl ?_
  have hempty : (closed.flatten ++ current ++ [row]).isEmpty = false := by simp
  simp only [Result.pure_eq, holding, ← List.append_assoc, minKeyOf_append, maxKeyOf_append,
    lastKeyOf_append, hempty, min_comm (minKeyOf _), max_comm (maxKeyOf _), List.map_append,
    List.map_cons, List.map_nil]

/-- The builder wrote some blocks and holds the next one; with the rows to come
they are the blocks of the whole input. -/
private def Good (schema : Schema) (options : SparseIndexOptions) (targetRows targetBytes : Nat)
    (rows : List Row) (b : ColumnSSTableBuilder) (rest : List Row) : Prop :=
  ∃ closed current, b = holding schema options targetRows targetBytes closed current ∧
    closed.flatten ++ current ++ rest = rows ∧
    closed ++ Splitting.splitFrom (columnBlockFull schema targetRows targetBytes) current rest =
      Splitting.split (columnBlockFull schema targetRows targetBytes) rows ∧
    (current = [] → closed = [])

private theorem not_full_nil (hrowsTarget : 0 < targetRows) (hbytes : 0 < targetBytes) :
    columnBlockFull schema targetRows targetBytes [] = false := by
  have h1 : decide (targetRows ≤ ([] : List Row).length) = false := by
    simpa using hrowsTarget.ne'
  have h2 : ∀ i, decide (targetBytes ≤ (columnBlockBytes i []).length) = false := by
    intro i
    simpa [columnBlockBytes, Bitmap.ofFlags, Bitmap.pushAll] using hbytes.ne'
  rw [columnBlockFull, h1, Bool.false_or, List.any_eq_false]
  intro i _
  simp [h2 i]

private theorem good_add (hschema : schema.WellFormed) (hcolumns : schema.size < 2 ^ 16)
    (hrowsTarget : 0 < targetRows) (hbytes : 0 < targetBytes) {rows : List Row}
    (hrows : ∀ r ∈ rows, ValidRow schema r) (hsorted : SortedRows rows)
    (hcount : ∀ block ∈ Splitting.split (columnBlockFull schema targetRows targetBytes) rows,
      block.length < 2 ^ 32)
    (b : ColumnSSTableBuilder) (row : Row) (rest : List Row)
    (hgood : Good schema options targetRows targetBytes rows b (row :: rest)) :
    ∃ b', Result.Returns (b.add row) b' ∧
      Good schema options targetRows targetBytes rows b' rest := by
  obtain ⟨closed, current, rfl, hflat, hsplit, hempty⟩ := hgood
  have hrow : ValidRow schema row := hrows row (by simp [← hflat])
  have hbefore : ∀ r ∈ closed.flatten ++ current, rowKey r ≤ rowKey row := by
    rw [← hflat] at hsorted
    intro r hr
    exact (List.pairwise_append.mp hsorted).2.2 r hr row List.mem_cons_self
  have hcurrent : ∀ r ∈ current, ValidRow schema r := fun r hr => hrows r (by simp [← hflat, hr])
  have hcurrentLength : current.length < 2 ^ 32 := by
    rcases eq_or_ne current [] with rfl | hne
    · norm_num
    · obtain ⟨block, hblock, hprefix⟩ := Splitting.exists_mem_splitFrom
        (columnBlockFull schema targetRows targetBytes) hne (row :: rest)
      have hmem := List.mem_append_right closed hblock
      rw [hsplit] at hmem
      exact hprefix.length_le.trans_lt (hcount block hmem)
  rw [Splitting.splitFrom] at hsplit
  cases hfull : columnBlockFull schema targetRows targetBytes current with
  | false =>
    simp only [hfull, Bool.and_false, Bool.false_eq_true, if_false] at hsplit
    have hstay : Result.Returns
        (if decide ((holding schema options targetRows targetBytes closed current).targetBlockRows ≤
            (holding schema options targetRows targetBytes closed current).keyBuffer.length) ||
            (holding schema options targetRows targetBytes closed current).anyColBuilderFull then
          (holding schema options targetRows targetBytes closed current).flushBlock
        else .ok (holding schema options targetRows targetBytes closed current))
        (holding schema options targetRows targetBytes closed current) := by
      rw [if_neg]
      · exact Result.ReturnsIf.of_ok _
      · rw [Bool.not_eq_true]
        exact (any_full current closed).trans hfull
    exact ⟨_, add_after hschema hcolumns rfl (in_order hbefore) hstay hcurrentLength hcurrent hrow
      hfull, closed, current ++ [row], rfl, by simp [← hflat], hsplit, by simp⟩
  | true =>
    have hne : current ≠ [] := by
      rintro rfl
      rw [not_full_nil hrowsTarget hbytes] at hfull
      cases hfull
    have hclose : (!current.isEmpty && columnBlockFull schema targetRows targetBytes current) =
        true := by
      simp [hfull, hne]
    rw [if_pos hclose] at hsplit
    have hcurrentSorted : SortedRows current := by
      rw [← hflat] at hsorted
      exact (List.pairwise_append.mp (List.pairwise_append.mp hsorted).1).2.1
    have hflush : Result.Returns
        (if decide ((holding schema options targetRows targetBytes closed current).targetBlockRows ≤
            (holding schema options targetRows targetBytes closed current).keyBuffer.length) ||
            (holding schema options targetRows targetBytes closed current).anyColBuilderFull then
          (holding schema options targetRows targetBytes closed current).flushBlock
        else .ok (holding schema options targetRows targetBytes closed current))
        (holding schema options targetRows targetBytes (closed ++ [current]) []) := by
      rw [if_pos]
      · exact flushBlock_holding hschema hcolumns hbytes hne hcurrentSorted hcurrentLength
      · exact (any_full current closed).trans hfull
    exact ⟨_, add_after hschema hcolumns rfl (in_order hbefore) hflush (by norm_num) (by simp) hrow
      (not_full_nil hrowsTarget hbytes), closed ++ [current], [row], rfl, by simp [← hflat],
      by simpa using hsplit, by simp⟩

private theorem finish_returns (hschema : schema.WellFormed) (hcolumns : schema.size < 2 ^ 16)
    (hbytes : 0 < targetBytes) {rows : List Row} (hne : rows ≠ [])
    (hrows : ∀ r ∈ rows, ValidRow schema r) (hsorted : SortedRows rows)
    (hcount : ∀ block ∈ Splitting.split (columnBlockFull schema targetRows targetBytes) rows,
      block.length < 2 ^ 32) {b : ColumnSSTableBuilder}
    (hgood : Good schema options targetRows targetBytes rows b []) :
    ∃ last : ColumnSSTableBuilder, Result.Returns b.finish
        (buildResult (Splitting.split (columnBlockFull schema targetRows targetBytes) rows), last) ∧
      last.files = columnSSTable schema options
        (Splitting.split (columnBlockFull schema targetRows targetBytes) rows) := by
  obtain ⟨closed, current, rfl, hflat, hsplit, hempty⟩ := hgood
  have hcurrent : current ≠ [] := by
    rintro rfl
    rw [hempty rfl] at hflat
    exact hne (by simpa using hflat.symm)
  rw [Splitting.splitFrom, if_neg (by simpa using hcurrent)] at hsplit
  have hvalid : ∀ block ∈ closed ++ [current], ∀ r ∈ block, ValidRow schema r := by
    intro block hblock r hr
    rw [hsplit] at hblock
    exact hrows r (Splitting.mem_of_mem_split hblock hr)
  have hcurrentSorted : SortedRows current := by
    rw [← hflat] at hsorted
    exact (List.pairwise_append.mp (List.pairwise_append.mp hsorted).1).2.1
  have hcurrentLength : current.length < 2 ^ 32 := by
    apply hcount
    rw [← hsplit]
    exact List.mem_append_right closed (List.mem_singleton_self current)
  have hfirst : (holding schema options targetRows targetBytes closed current).firstRow =
      false := by
    simp [holding, hcurrent]
  have hflatten : (closed ++ [current]).flatten = rows := by simp [← hflat]
  refine ⟨{ holding schema options targetRows targetBytes (closed ++ [current]) [] with
      info := infoFile (u32 (closed ++ [current]).length) (minKeyOf rows) (maxKeyOf rows) .column
      index := sparseIndexFile (u32 (closed ++ [current]).length) options
        (indexCandidates (closed ++ [current]))
      stats := statsFileBytes schema (closed ++ [current])
      finished := true }, ?_, ?_⟩
  · unfold finish
    rw [if_neg (by simp [holding]), if_neg (by simp [hfirst])]
    refine (flushBlock_holding hschema hcolumns hbytes hcurrent hcurrentSorted
      hcurrentLength).bind ?_
    refine (writeBytes_returns _ _).bind ((writeBytes_returns _ _).bind ?_)
    have hstats := statsFile_of_valid (closed ++ [current]) hvalid
    rw [show (holding schema options targetRows targetBytes (closed ++ [current])
        []).blockNumericStats = (closed ++ [current]).map (blockStats schema) from rfl,
      show (holding schema options targetRows targetBytes (closed ++ [current]) []).schema =
        schema from rfl, hstats, Result.ok_bind]
    refine (writeBytes_returns _ _).bind (Or.inl ?_)
    simp only [Result.pure_eq, ← hsplit, buildResult, hflatten, holding, List.append_nil,
      List.nil_append]
  · rw [← hsplit]
    simp only [files, columnSSTable, hflatten]
    rfl

end ColumnSSTableBuilder

/-- Sorted valid rows build into the SSTable of their logical blocks, unless a
write fails. -/
theorem buildColumnSSTable_returns {schema : Schema} {options : SparseIndexOptions}
    {targetRows targetBytes : Nat} {rows : List Row} (hschema : schema.WellFormed)
    (hcolumns : schema.size < 2 ^ 16) (hoptions : options.Accepted) (hrowsTarget : 0 < targetRows)
    (hbytes : 0 < targetBytes) (hne : rows ≠ []) (hrows : ∀ r ∈ rows, ValidRow schema r)
    (hsorted : SortedRows rows)
    (hcount : ∀ block ∈ Splitting.split (columnBlockFull schema targetRows targetBytes) rows,
      block.length < 2 ^ 32) :
    Result.Returns (buildColumnSSTable schema options targetRows targetBytes rows)
      (buildResult (Splitting.split (columnBlockFull schema targetRows targetBytes) rows),
        columnSSTable schema options
          (Splitting.split (columnBlockFull schema targetRows targetBytes) rows)) := by
  have hstart : ColumnSSTableBuilder.Good schema options targetRows targetBytes rows
      (ColumnSSTableBuilder.holding schema options targetRows targetBytes [] []) rows :=
    ⟨[], [], rfl, by simp, by simp [Splitting.split], by simp⟩
  obtain ⟨b, hb, hgood⟩ := Result.foldlM_returns _
    (ColumnSSTableBuilder.good_add hschema hcolumns hrowsTarget hbytes hrows hsorted hcount)
    rows _ hstart
  obtain ⟨last, hlast, hfiles⟩ := ColumnSSTableBuilder.finish_returns hschema hcolumns hbytes hne
    hrows hsorted hcount hgood
  unfold buildColumnSSTable
  rw [ColumnSSTableBuilder.create_eq hschema hcolumns hoptions hrowsTarget hbytes, Result.ok_bind]
  refine hb.bind (hlast.bind (Or.inl ?_))
  rw [← hfiles]
  rfl

/-! ## Limits -/

section FileSize

variable {b b' : ColumnSSTableBuilder}

private theorem length_data_writeBlock {out out' : ColumnOutput} {bytes : Bytes} {size : Nat}
    {blockMeta : ColumnBlockMeta} (h : out.writeBlock bytes size blockMeta = .ok out') :
    out'.data.length ≤ maxFileSize := by
  unfold ColumnOutput.writeBlock at h
  obtain ⟨data, hdata, h⟩ := Result.bind_eq_ok.mp h
  obtain ⟨metadata, -, h⟩ := Result.bind_eq_ok.mp h
  cases h
  exact (length_of_writeBytes hdata).2

private theorem length_data_flushColumns {blockId : Nat} {builders : List ColumnSSTBlockBuilder}
    {columnIdx : Nat} {out : ColumnOutput}
    {result : List ColumnSSTBlockBuilder × ColumnOutput × List NumericBlockStats}
    (hout : out.data.length ≤ maxFileSize)
    (h : ColumnSSTableBuilder.flushColumns blockId columnIdx out builders = .ok result) :
    result.2.1.data.length ≤ maxFileSize := by
  induction builders generalizing columnIdx out result with
  | nil =>
    cases h
    exact hout
  | cons builder builders ih =>
    rw [ColumnSSTableBuilder.flushColumns] at h
    obtain ⟨⟨block, builder'⟩, -, h⟩ := Result.bind_eq_ok.mp h
    obtain ⟨written, hwritten, h⟩ := Result.bind_eq_ok.mp h
    obtain ⟨last, hlast, h⟩ := Result.bind_eq_ok.mp h
    have hlength := ih (length_data_writeBlock hwritten) hlast
    cases h
    exact hlength

private theorem length_columnData_flushBlock (hb : b.out.data.length ≤ maxFileSize)
    (h : b.flushBlock = .ok b') : b'.out.data.length ≤ maxFileSize := by
  unfold ColumnSSTableBuilder.flushBlock at h
  split at h
  · cases h
    exact hb
  · obtain ⟨out, hout, h⟩ := Result.bind_eq_ok.mp h
    obtain ⟨last, hlast, h⟩ := Result.bind_eq_ok.mp h
    have hlength := length_data_flushColumns (length_data_writeBlock hout) hlast
    cases h
    exact hlength

private theorem length_columnData_add (row : Row) (hb : b.out.data.length ≤ maxFileSize)
    (h : b.add row = .ok b') : b'.out.data.length ≤ maxFileSize := by
  unfold ColumnSSTableBuilder.add at h
  split at h
  · cases h
  · dsimp only at h
    split at h
    · cases h
    · obtain ⟨flushed, hflushed, h⟩ := Result.bind_eq_ok.mp h
      obtain ⟨colBuilders, -, h⟩ := Result.bind_eq_ok.mp h
      have hlength : flushed.out.data.length ≤ maxFileSize := by
        split at hflushed
        · exact length_columnData_flushBlock hb hflushed
        · cases hflushed
          exact hb
      cases h
      exact hlength

private theorem length_columnData_finish {result : SSTableBuildResult}
    (hb : b.out.data.length ≤ maxFileSize) (h : b.finish = .ok (result, b')) :
    b'.out.data.length ≤ maxFileSize := by
  unfold ColumnSSTableBuilder.finish at h
  split at h
  · cases h
  · split at h
    · cases h
    · obtain ⟨flushed, hflushed, h⟩ := Result.bind_eq_ok.mp h
      obtain ⟨info, -, h⟩ := Result.bind_eq_ok.mp h
      obtain ⟨index, -, h⟩ := Result.bind_eq_ok.mp h
      obtain ⟨statsBytes, -, h⟩ := Result.bind_eq_ok.mp h
      obtain ⟨stats, -, h⟩ := Result.bind_eq_ok.mp h
      have hlength := length_columnData_flushBlock hb hflushed
      cases h
      exact hlength

private theorem length_data_create {schema : Schema} {options : SparseIndexOptions}
    {targetRows targetBytes : Nat}
    (h : ColumnSSTableBuilder.create schema options targetRows targetBytes = .ok b) :
    b.out.data.length ≤ maxFileSize ∧ b.keyBuffer = [] ∧ b.firstRow = true ∧
      b.finished = false ∧ b.targetBlockRows ≠ 0 ∧
      (schema.columns.zipIdx.tail.mapM fun c =>
        ColumnSSTBlockBuilder.create c.1 (u16 c.2) targetBytes) = .ok b.colBuilders := by
  unfold ColumnSSTableBuilder.create at h
  split at h
  · cases h
  split at h
  · cases h
  split at h
  · cases h
  split at h
  · cases h
  split at h
  · cases h
  rename_i hrows _
  obtain ⟨colBuilders, hbuilders, h⟩ := Result.bind_eq_ok.mp h
  cases h
  exact ⟨Nat.zero_le _, rfl, rfl, rfl, hrows, hbuilders⟩

end FileSize

/-- The data file of a successful build keeps the file size limit. -/
theorem length_data_of_buildColumnSSTable {schema : Schema} {options : SparseIndexOptions}
    {targetRows targetBytes : Nat} {rows : List Row} {result : SSTableBuildResult}
    {files : SSTableFiles}
    (h : buildColumnSSTable schema options targetRows targetBytes rows = .ok (result, files)) :
    files.data.length ≤ maxFileSize := by
  unfold buildColumnSSTable at h
  obtain ⟨b, hcreate, h⟩ := Result.bind_eq_ok.mp h
  obtain ⟨filled, hfilled, h⟩ := Result.bind_eq_ok.mp h
  obtain ⟨⟨r, last⟩, hfinish, h⟩ := Result.bind_eq_ok.mp h
  cases h
  have hkept := Result.foldlM_invariant
    (fun b : ColumnSSTableBuilder => b.out.data.length ≤ maxFileSize)
    (fun b row b' hb h => length_columnData_add row hb h) rows
    (length_data_create hcreate).1 hfilled
  exact length_columnData_finish hkept hfinish

private theorem created_of_create {column : Column} {columnId target : Nat}
    {b : ColumnSSTBlockBuilder} (h : ColumnSSTBlockBuilder.create column columnId target = .ok b) :
    b.full = false ∧ b.columnId = columnId := by
  unfold ColumnSSTBlockBuilder.create at h
  split at h
  · cases h
  · cases h
    exact ⟨rfl, rfl⟩

/-- No column SSTable is ever written for 65536 columns or more: the column
id of one builder is then out of the truncated range of the row size. -/
theorem buildColumnSSTable_too_wide {schema : Schema} {options : SparseIndexOptions}
    {targetRows targetBytes : Nat} {rows : List Row} (hwide : 2 ^ 16 ≤ schema.size)
    (hrows : ∀ r ∈ rows, ValidRow schema r) (built : SSTableBuildResult × SSTableFiles) :
    buildColumnSSTable schema options targetRows targetBytes rows ≠ .ok built := by
  intro h
  unfold buildColumnSSTable at h
  obtain ⟨b, hcreate, h⟩ := Result.bind_eq_ok.mp h
  obtain ⟨-, hkeys, hfirst, hfinished, htarget, hbuilders⟩ := length_data_create hcreate
  obtain ⟨filled, hfilled, h⟩ := Result.bind_eq_ok.mp h
  cases rows with
  | nil =>
    cases hfilled
    obtain ⟨last, hlast, -⟩ := Result.bind_eq_ok.mp h
    rw [ColumnSSTableBuilder.finish, if_neg (by simp [hfinished]), if_pos hfirst] at hlast
    cases hlast
  | cons row rows =>
    rw [List.foldlM_cons] at hfilled
    obtain ⟨added, hadded, -⟩ := Result.bind_eq_ok.mp hfilled
    have hforall := Result.mapM_eq_ok.mp hbuilders
    have hopen : b.anyColBuilderFull = false := by
      rw [ColumnSSTableBuilder.anyColBuilderFull, List.any_eq_false]
      intro builder hbuilder
      obtain ⟨i, hi, rfl⟩ := List.mem_iff_getElem.mp hbuilder
      have hlt : i < schema.columns.zipIdx.tail.length := by rwa [hforall.length_eq]
      have hcreated := (created_of_create ((List.forall₂_iff_get.mp hforall).2 i hlt hi)).1
      rw [List.get_eq_getElem] at hcreated
      simp only [hcreated, Bool.false_eq_true, not_false_eq_true]
    -- the builder of column 65535 refuses every row of this width
    have hrefuse : ∃ builder ∈ b.colBuilders, ∀ next, builder.add row ≠ .ok next := by
      have hcolumn : (columnAt schema 65535, 65535) ∈ schema.columns.zipIdx.tail := by
        rw [ColumnSSTableBuilder.tail_zipIdx]
        refine List.mem_map.mpr ⟨65535, List.mem_range'_1.mpr ⟨by omega, ?_⟩, rfl⟩
        unfold Schema.size at hwide
        omega
      obtain ⟨i, hi, hget⟩ := List.mem_iff_getElem.mp hcolumn
      have hlt : i < b.colBuilders.length := by rwa [← hforall.length_eq]
      have hcreated := (List.forall₂_iff_get.mp hforall).2 i hi hlt
      have hget' : schema.columns.zipIdx.tail.get ⟨i, hi⟩ = (columnAt schema 65535, 65535) := hget
      rw [hget'] at hcreated
      refine ⟨_, List.getElem_mem hlt, ?_⟩
      intro next hnext
      have hid : (b.colBuilders[i]).columnId = 65535 := (created_of_create hcreated).2
      have hwidth : u16 row.length ≤ 65535 := Nat.le_of_lt_succ (Nat.mod_lt _ (by norm_num))
      unfold ColumnSSTBlockBuilder.add at hnext
      rw [if_neg (by simpa using (created_of_create hcreated).1), hid, if_pos hwidth] at hnext
      cases hnext
    obtain ⟨builder, hmem, hnever⟩ := hrefuse
    have hfull : (decide (b.targetBlockRows ≤ b.keyBuffer.length) || b.anyColBuilderFull) =
        false := by
      simp [hkeys, hopen, htarget]
    unfold ColumnSSTableBuilder.add at hadded
    rw [if_neg (by simp [hfinished])] at hadded
    dsimp only at hadded
    rw [if_neg (by simp [hfirst]), if_neg (by simp [hfull]), Result.ok_bind] at hadded
    obtain ⟨colBuilders, hall, -⟩ := Result.bind_eq_ok.mp hadded
    exact Result.mapM_ne_ok hmem hnever colBuilders hall

end Htap.SSTable
