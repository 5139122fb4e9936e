import Htap.Basis.Splitting
import Htap.SSTable.NumericStats

/-!
`RowSSTBlockBuilder` and `RowSSTableBuilder`, and the SSTable they produce: the
rows cut into blocks by `Splitting.split`, one metadata record a block, and the
sparse index and statistics over the blocks.
-/

namespace Htap.SSTable

open Storage ByteFormat Words

/-! ## Rows -/

/-- `encode_row`: the key, the NULL bitmap of the other columns, their values. -/
def encodeRow (schema : Schema) (row : Row) : Result Bytes := do
  let bitmap := Bitmap.mark (List.replicate (Bitmap.byteCount (schema.size - 1)) 0) 0
    (row.tail.map Option.isNone)
  let values ← (row.tail.zip schema.types.tail).mapM fun c => encodeValue c.1 c.2
  return i64Bytes (rowKey row) ++ (bitmap ++ values.flatten)

/-- What a valid row occupies in a row block. -/
def rowBytes (row : Row) : Bytes :=
  i64Bytes (rowKey row) ++
    (Bitmap.mark (List.replicate (Bitmap.byteCount row.tail.length) 0) 0
      (row.tail.map Option.isNone) ++ row.tail.flatMap valueBytes)

theorem mapM_encodeValue {types : List ValueType} {cells : List NullableValue}
    (h : List.Forall₂ HasType types cells) :
    (cells.zip types).mapM (fun c => encodeValue c.1 c.2) = .ok (cells.map valueBytes) := by
  induction h with
  | nil => rfl
  | cons hcell _ ih => simp [List.mapM_cons, encodeValue_of_hasType hcell, ih]

theorem encodeRow_of_valid {schema : Schema} {row : Row} (hrow : ValidRow schema row) :
    encodeRow schema row = .ok (rowBytes row) := by
  have htyped : List.Forall₂ HasType schema.types.tail row.tail := by
    have h := hrow.typed
    generalize schema.types = types at h ⊢
    cases h with
    | nil => exact List.Forall₂.nil
    | cons _ htail => exact htail
  have hsize : schema.size - 1 = row.tail.length := by
    rw [List.length_tail, hrow.length]
  unfold encodeRow rowBytes
  rw [mapM_encodeValue htyped, hsize]
  rfl

theorem length_rowBytes_pos (row : Row) : 8 ≤ (rowBytes row).length := by
  simp [rowBytes]

/-! ## Row blocks -/

structure RowSSTBlockBuilder where
  schema : Schema
  targetBlockSizeBytes : Nat
  buffer : Bytes
  minKey : Key
  maxKey : Key
  rowCount : Nat
  full : Bool
  numericStats : List NumericBlockStats

structure RowSSTBlockResult where
  data : Bytes
  blockMeta : RowBlockMeta
  numericStats : List NumericBlockStats

namespace RowSSTBlockBuilder

def resetNumericStats (schema : Schema) : List NumericBlockStats :=
  (statsColumns schema).map fun c => NumericBlockStats.initial c.1 c.2

def reset (schema : Schema) (targetBlockSizeBytes : Nat) : RowSSTBlockBuilder where
  schema := schema
  targetBlockSizeBytes := targetBlockSizeBytes
  buffer := []
  minKey := Int64.maxValue
  maxKey := Int64.minValue
  rowCount := 0
  full := false
  numericStats := resetNumericStats schema

def create (schema : Schema) (targetBlockSizeBytes : Nat) : Result RowSSTBlockBuilder :=
  if targetBlockSizeBytes = 0 then
    .error (.runtimeError "RowSSTBlockBuilder: target block size must be positive")
  else
    .ok (reset schema targetBlockSizeBytes)

def updateNumericStats (stats : List NumericBlockStats) (row : Row) :
    Result (List NumericBlockStats) :=
  stats.mapM fun s =>
    if row.length ≤ s.columnIdx then
      .error (.runtimeError "RowSSTBlockBuilder: row size mismatch schema")
    else
      s.update (row.getD s.columnIdx none)

def add (b : RowSSTBlockBuilder) (row : Row) : Result RowSSTBlockBuilder :=
  if b.full then .error (.runtimeError "Block is already full")
  else do
    let encoded ← encodeRow b.schema row
    let numericStats ← updateNumericStats b.numericStats row
    let buffer := b.buffer ++ encoded
    return { b with
      minKey := min (rowKey row) b.minKey
      maxKey := max (rowKey row) b.maxKey
      buffer := buffer
      numericStats := numericStats
      rowCount := u32 (b.rowCount + 1)
      full := b.full || decide (b.targetBlockSizeBytes ≤ buffer.length) }

/-- The finished block and the reset builder. -/
def finish (b : RowSSTBlockBuilder) : Result (RowSSTBlockResult × RowSSTBlockBuilder) :=
  if b.rowCount = 0 then .error (.runtimeError "Cannot finish empty SST block")
  else
    let blockMeta : RowBlockMeta := {
      minKey := b.minKey
      maxKey := b.maxKey
      offset := 0
      size := b.buffer.length
      rowCount := b.rowCount
      blockId := 0 }
    .ok ({ data := b.buffer, blockMeta := blockMeta, numericStats := b.numericStats },
      reset b.schema b.targetBlockSizeBytes)

end RowSSTBlockBuilder

def minKeyOf (rows : List Row) : Key :=
  rows.foldl (fun k row => min (rowKey row) k) Int64.maxValue

def maxKeyOf (rows : List Row) : Key :=
  rows.foldl (fun k row => max (rowKey row) k) Int64.minValue

theorem minKeyOf_append (rows : List Row) (row : Row) :
    minKeyOf (rows ++ [row]) = min (rowKey row) (minKeyOf rows) := by
  simp [minKeyOf, List.foldl_append]

theorem maxKeyOf_append (rows : List Row) (row : Row) :
    maxKeyOf (rows ++ [row]) = max (rowKey row) (maxKeyOf rows) := by
  simp [maxKeyOf, List.foldl_append]

theorem minKeyOf_le {rows : List Row} {row : Row} (h : row ∈ rows) :
    minKeyOf rows ≤ rowKey row := by
  induction rows using List.reverseRecOn with
  | nil => simp at h
  | append_singleton rows r ih =>
    rw [minKeyOf_append]
    rcases List.mem_append.mp h with hin | hin
    · exact (min_le_right _ _).trans (ih hin)
    · rw [List.mem_singleton.mp hin]
      exact min_le_left _ _

theorem le_maxKeyOf {rows : List Row} {row : Row} (h : row ∈ rows) :
    rowKey row ≤ maxKeyOf rows := by
  induction rows using List.reverseRecOn with
  | nil => simp at h
  | append_singleton rows r ih =>
    rw [maxKeyOf_append]
    rcases List.mem_append.mp h with hin | hin
    · exact (ih hin).trans (le_max_right _ _)
    · rw [List.mem_singleton.mp hin]
      exact le_max_left _ _

/-- Both bounds of a non-empty list of rows are attained. -/
theorem exists_minKeyOf {rows : List Row} (h : rows ≠ []) :
    ∃ row ∈ rows, minKeyOf rows = rowKey row := by
  induction rows using List.reverseRecOn with
  | nil => exact absurd rfl h
  | append_singleton rows r ih =>
    rw [minKeyOf_append]
    rcases eq_or_ne rows [] with rfl | hne
    · refine ⟨r, by simp, ?_⟩
      exact min_eq_left (le_maxValue _)
    · obtain ⟨row, hrow, heq⟩ := ih hne
      rcases le_total (rowKey r) (minKeyOf rows) with hle | hle
      · exact ⟨r, by simp, min_eq_left hle⟩
      · exact ⟨row, List.mem_append_left _ hrow, (min_eq_right hle).trans heq⟩

theorem exists_maxKeyOf {rows : List Row} (h : rows ≠ []) :
    ∃ row ∈ rows, maxKeyOf rows = rowKey row := by
  induction rows using List.reverseRecOn with
  | nil => exact absurd rfl h
  | append_singleton rows r ih =>
    rw [maxKeyOf_append]
    rcases eq_or_ne rows [] with rfl | hne
    · refine ⟨r, by simp, ?_⟩
      exact max_eq_left (minValue_le _)
    · obtain ⟨row, hrow, heq⟩ := ih hne
      rcases le_total (rowKey r) (maxKeyOf rows) with hle | hle
      · exact ⟨row, List.mem_append_left _ hrow, (max_eq_right hle).trans heq⟩
      · exact ⟨r, by simp, max_eq_left hle⟩

/-- The key added last, 0 at first. -/
def lastKeyOf (rows : List Row) : Key := rows.foldl (fun _ row => rowKey row) 0

theorem lastKeyOf_append (rows : List Row) (row : Row) :
    lastKeyOf (rows ++ [row]) = rowKey row := by
  simp [lastKeyOf, List.foldl_append]

theorem exists_lastKeyOf {rows : List Row} (h : rows ≠ []) :
    ∃ row ∈ rows, lastKeyOf rows = rowKey row := by
  obtain ⟨front, last, rfl⟩ := List.eq_nil_or_concat' rows |>.resolve_left h
  exact ⟨last, by simp, lastKeyOf_append front last⟩

/-- The bytes of a row block. -/
def rowBlockBytes (rows : List Row) : Bytes := rows.flatMap rowBytes

/-- A row block that takes no more rows. -/
def rowBlockFull (targetBlockSizeBytes : Nat) (rows : List Row) : Bool :=
  decide (targetBlockSizeBytes ≤ (rowBlockBytes rows).length)

namespace RowSSTBlockBuilder

/-- The state of a builder that holds `rows`. -/
def holding (schema : Schema) (target : Nat) (rows : List Row) : RowSSTBlockBuilder where
  schema := schema
  targetBlockSizeBytes := target
  buffer := rowBlockBytes rows
  minKey := minKeyOf rows
  maxKey := maxKeyOf rows
  rowCount := u32 rows.length
  full := rowBlockFull target rows
  numericStats := blockStats schema rows

theorem reset_eq_holding (schema : Schema) {target : Nat} (htarget : 0 < target) :
    reset schema target = holding schema target [] := by
  have hfull : rowBlockFull target [] = false := by
    simpa [rowBlockFull, rowBlockBytes] using htarget.ne'
  simp only [reset, holding, hfull]
  rfl

private theorem updateNumericStats_of_valid {schema : Schema} {rows : List Row} {row : Row}
    (hrows : ∀ r ∈ rows, ValidRow schema r) (hrow : ValidRow schema row) :
    updateNumericStats (blockStats schema rows) row = .ok (blockStats schema (rows ++ [row])) := by
  unfold updateNumericStats blockStats
  rw [List.mapM_map]
  have hcolumn : ∀ column ∈ statsColumns schema,
      (if row.length ≤ (columnStats rows column).columnIdx then
        (.error (.runtimeError "RowSSTBlockBuilder: row size mismatch schema") :
          Result NumericBlockStats)
      else
        (columnStats rows column).update
          (row.getD (columnStats rows column).columnIdx none)) =
      .ok (columnStats (rows ++ [row]) column) := by
    intro column hmem
    obtain ⟨c, hget, -, htype, -⟩ := mem_statsColumns.mp hmem
    obtain ⟨htyped, htypeEq, hidx⟩ := typed_columnStats hmem hrows
    have hlt : column.1 < row.length := by
      rw [hrow.length]
      exact (List.getElem?_eq_some_iff.mp hget).1
    have hcell := hasType_of_valid hrow hget
    rw [htype, ← htypeEq] at hcell
    rw [hidx, if_neg (not_le.mpr hlt), columnStats_append]
    exact (NumericBlockStats.update_eq_note htyped hcell).1
  generalize statsColumns schema = columns at hcolumn
  induction columns with
  | nil => rfl
  | cons column columns ih =>
    have hrest := ih fun c hc => hcolumn c (List.mem_cons_of_mem _ hc)
    have hhead := hcolumn column List.mem_cons_self
    simp only [List.mapM_cons, List.map_cons, Function.comp] at hrest ⊢
    rw [hhead, hrest]
    rfl

/-- Adding a valid row to a builder that is not full. -/
theorem add_holding {schema : Schema} {target : Nat} {rows : List Row} {row : Row}
    (hrows : ∀ r ∈ rows, ValidRow schema r) (hrow : ValidRow schema row)
    (hroom : rowBlockFull target rows = false) :
    (holding schema target rows).add row = .ok (holding schema target (rows ++ [row])) := by
  have hbytes : rowBlockBytes (rows ++ [row]) = rowBlockBytes rows ++ rowBytes row := by
    simp [rowBlockBytes]
  have hfull : rowBlockFull target (rows ++ [row]) =
      (rowBlockFull target rows ||
        decide (target ≤ (rowBlockBytes rows ++ rowBytes row).length)) := by
    rw [hroom, rowBlockFull, hbytes, Bool.false_or]
  unfold add
  rw [if_neg (by simp [holding, hroom])]
  simp only [holding, encodeRow_of_valid hrow, updateNumericStats_of_valid hrows hrow,
    Result.ok_bind, Result.pure_eq, u32_add_one, minKeyOf_append, maxKeyOf_append, hbytes, hfull,
    List.length_append, List.length_singleton]

theorem finish_holding {schema : Schema} {target : Nat} {rows : List Row}
    (hcount : 0 < u32 rows.length) :
    (holding schema target rows).finish = .ok
      ({ data := rowBlockBytes rows
         blockMeta := {
           minKey := minKeyOf rows
           maxKey := maxKeyOf rows
           offset := 0
           size := (rowBlockBytes rows).length
           rowCount := u32 rows.length
           blockId := 0 }
         numericStats := blockStats schema rows }, reset schema target) := by
  unfold finish
  have hne : ¬ (holding schema target rows).rowCount = 0 := hcount.ne'
  rw [if_neg hne]
  rfl

end RowSSTBlockBuilder

/-! ## Row SSTables -/

structure SSTableBuildResult where
  minKey : Key
  maxKey : Key
  numBlocks : Nat

/-- `write_info_file`. -/
def infoFile (numBlocks : Nat) (minKey maxKey : Key) (layout : SSTLayout) : Bytes :=
  leBytes 4 numBlocks ++ (i64Bytes minKey ++ (i64Bytes maxKey ++ leBytes 1 layout.code.toNat))

/-- The candidates `write_sparse_index_file` keeps. -/
def sparseIndexEntries (numBlocks : Nat) (options : SparseIndexOptions)
    (candidates : List SparseIndexEntry) : List SparseIndexEntry :=
  candidates.filter fun entry => entry.blockId % chooseSparseIndexStep numBlocks options == 0

/-- `write_sparse_index_file`. -/
def sparseIndexFile (numBlocks : Nat) (options : SparseIndexOptions)
    (candidates : List SparseIndexEntry) : Bytes :=
  (sparseIndexEntries numBlocks options candidates).flatMap SparseIndexEntry.encode

structure RowSSTableBuilder where
  schema : Schema
  sparseIndexOptions : SparseIndexOptions
  blockBuilder : RowSSTBlockBuilder
  data : Bytes := []
  metadata : Bytes := []
  index : Bytes := []
  info : Bytes := []
  stats : Bytes := []
  blockNumericStats : List (List NumericBlockStats) := []
  sparseIndexCandidates : List SparseIndexEntry := []
  dataOffset : Nat := 0
  blockId : Nat := 0
  finished : Bool := false
  globalMin : Key := Int64.maxValue
  globalMax : Key := Int64.minValue
  lastKey : Key := 0
  firstRow : Bool := true

namespace RowSSTableBuilder

def create (schema : Schema) (options : SparseIndexOptions) (rowBlockTargetBytes : Nat) :
    Result RowSSTableBuilder := do
  let blockBuilder ← RowSSTBlockBuilder.create schema rowBlockTargetBytes
  if options.minStep = 0 then
    .error (.runtimeError "RowSSTableBuilder: sparse index min step must be positive")
  else if options.maxStep < options.minStep then
    .error (.runtimeError "RowSSTableBuilder: sparse index max step must be >= min step")
  else
    .ok { schema := schema, sparseIndexOptions := options, blockBuilder := blockBuilder }

/-- `data_offset_` stays below the file size limit, so it never wraps. -/
def flushBlock (b : RowSSTableBuilder) : Result RowSSTableBuilder := do
  let (result, blockBuilder) ← b.blockBuilder.finish
  let data ← writeBytes b.data result.data
  let blockMeta := { result.blockMeta with offset := b.dataOffset, blockId := b.blockId }
  let metadata ← writeBytes b.metadata blockMeta.encode
  return { b with
    blockBuilder := blockBuilder
    data := data
    dataOffset := b.dataOffset + result.data.length
    metadata := metadata
    blockNumericStats := b.blockNumericStats ++ [result.numericStats]
    sparseIndexCandidates := b.sparseIndexCandidates ++ [⟨blockMeta.minKey, blockMeta.blockId⟩]
    blockId := u32 (b.blockId + 1) }

def add (b : RowSSTableBuilder) (row : Row) : Result RowSSTableBuilder :=
  if b.finished then .error (.runtimeError "SSTable already finished")
  else do
    let b ← (if b.blockBuilder.full then b.flushBlock else .ok b : Result RowSSTableBuilder)
    let key := rowKey row
    if !b.firstRow && decide (key < b.lastKey) then
      .error (.runtimeError "SSTableBuilder: rows must be sorted by key")
    else do
      let blockBuilder ← b.blockBuilder.add row
      return { b with
        blockBuilder := blockBuilder
        firstRow := false
        lastKey := key
        globalMin := min b.globalMin key
        globalMax := max b.globalMax key }

def finish (b : RowSSTableBuilder) : Result (SSTableBuildResult × RowSSTableBuilder) :=
  if b.finished then .error (.runtimeError "Already finished building SSTable")
  else if b.firstRow then .error (.runtimeError "Cannot create empty SSTable")
  else do
    let b ←
      (if b.blockBuilder.buffer.length > 0 then b.flushBlock else .ok b : Result RowSSTableBuilder)
    let info ← writeBytes [] (infoFile b.blockId b.globalMin b.globalMax .row)
    let index ← writeBytes []
      (sparseIndexFile b.blockId b.sparseIndexOptions b.sparseIndexCandidates)
    let statsBytes ← statsFile b.schema b.blockNumericStats
    let stats ← writeBytes [] statsBytes
    return ({ minKey := b.globalMin, maxKey := b.globalMax, numBlocks := b.blockId },
      { b with info := info, index := index, stats := stats, finished := true })

def files (b : RowSSTableBuilder) : SSTableFiles :=
  { data := b.data, metadata := b.metadata, index := b.index, info := b.info, stats := b.stats }

end RowSSTableBuilder

/-- A whole build: open the files, add the rows, finish. -/
def buildRowSSTable (schema : Schema) (options : SparseIndexOptions) (rowBlockTargetBytes : Nat)
    (rows : List Row) : Result (SSTableBuildResult × SSTableFiles) := do
  let b ← RowSSTableBuilder.create schema options rowBlockTargetBytes
  let b ← rows.foldlM RowSSTableBuilder.add b
  let (result, b) ← b.finish
  return (result, b.files)

/-! ## What a build produces -/

/-- The metadata record of a block that follows the blocks `earlier`. -/
def rowBlockMeta (earlier : List (List Row)) (rows : List Row) : RowBlockMeta where
  minKey := minKeyOf rows
  maxKey := maxKeyOf rows
  offset := (earlier.flatMap rowBlockBytes).length
  size := (rowBlockBytes rows).length
  rowCount := u32 rows.length
  blockId := u32 earlier.length

def rowMetas (blocks : List (List Row)) : List RowBlockMeta :=
  Splitting.mapPrefix rowBlockMeta [] blocks

/-- Both layouts put the first key of every block into the sparse index. -/
def indexCandidates (blocks : List (List Row)) : List SparseIndexEntry :=
  Splitting.mapPrefix (fun earlier rows => ⟨minKeyOf rows, u32 earlier.length⟩) [] blocks

/-- The files of a row SSTable with these blocks. -/
def rowSSTable (schema : Schema) (options : SparseIndexOptions) (blocks : List (List Row)) :
    SSTableFiles where
  data := blocks.flatMap rowBlockBytes
  metadata := (rowMetas blocks).flatMap RowBlockMeta.encode
  index := sparseIndexFile (u32 blocks.length) options (indexCandidates blocks)
  info := infoFile (u32 blocks.length) (minKeyOf blocks.flatten) (maxKeyOf blocks.flatten) .row
  stats := statsFileBytes schema blocks

/-- What the registry is told about an SSTable of these rows. -/
def buildResult (blocks : List (List Row)) : SSTableBuildResult where
  minKey := minKeyOf blocks.flatten
  maxKey := maxKeyOf blocks.flatten
  numBlocks := u32 blocks.length

/-- The step bounds both builders insist on. -/
def SparseIndexOptions.Accepted (options : SparseIndexOptions) : Prop :=
  0 < options.minStep ∧ options.minStep ≤ options.maxStep

instance (options : SparseIndexOptions) : Decidable options.Accepted :=
  inferInstanceAs (Decidable (_ ∧ _))

/-- Rows in key order; several rows may share a key. -/
def SortedRows (rows : List Row) : Prop := rows.Pairwise fun a b => rowKey a ≤ rowKey b

namespace RowSSTableBuilder

/-- The state of a builder that wrote the blocks `closed` and holds `current`. -/
def holding (schema : Schema) (options : SparseIndexOptions) (target : Nat)
    (closed : List (List Row)) (current : List Row) : RowSSTableBuilder where
  schema := schema
  sparseIndexOptions := options
  blockBuilder := RowSSTBlockBuilder.holding schema target current
  data := closed.flatMap rowBlockBytes
  metadata := (rowMetas closed).flatMap RowBlockMeta.encode
  blockNumericStats := closed.map (blockStats schema)
  sparseIndexCandidates := indexCandidates closed
  dataOffset := (closed.flatMap rowBlockBytes).length
  blockId := u32 closed.length
  globalMin := minKeyOf (closed.flatten ++ current)
  globalMax := maxKeyOf (closed.flatten ++ current)
  lastKey := lastKeyOf (closed.flatten ++ current)
  firstRow := (closed.flatten ++ current).isEmpty

variable {schema : Schema} {options : SparseIndexOptions} {target : Nat} {fits : Prop}

private theorem create_eq (hoptions : options.Accepted) (htarget : 0 < target) :
    create schema options target = .ok (holding schema options target [] []) := by
  have hcreate : RowSSTBlockBuilder.create schema target =
      .ok (RowSSTBlockBuilder.holding schema target []) := by
    rw [RowSSTBlockBuilder.create, if_neg htarget.ne',
      RowSSTBlockBuilder.reset_eq_holding schema htarget]
  unfold create
  rw [hcreate, Result.ok_bind, if_neg hoptions.1.ne', if_neg (not_lt.mpr hoptions.2)]
  rfl

private theorem flushBlock_holding (htarget : 0 < target) {closed : List (List Row)}
    {current : List Row} (hcount : 0 < u32 current.length)
    (hdata : fits → ((closed ++ [current]).flatMap rowBlockBytes).length ≤ maxFileSize)
    (hmetadata : fits →
      ((rowMetas (closed ++ [current])).flatMap RowBlockMeta.encode).length ≤ maxFileSize) :
    Result.ReturnsIf fits (holding schema options target closed current).flushBlock
      (holding schema options target (closed ++ [current]) []) := by
  unfold flushBlock
  rw [show (holding schema options target closed current).blockBuilder =
    RowSSTBlockBuilder.holding schema target current from rfl,
    RowSSTBlockBuilder.finish_holding hcount, Result.ok_bind]
  refine (writeBytes_returnsIf fun h => ?_).bind ((writeBytes_returnsIf fun h => ?_).bind
    (Or.inl ?_))
  · simpa [holding] using hdata h
  · simpa [holding, rowMetas, Splitting.mapPrefix_append, Splitting.mapPrefix, rowBlockMeta]
      using hmetadata h
  simp only [Result.pure_eq, holding, RowSSTBlockBuilder.reset_eq_holding schema htarget,
    rowMetas, indexCandidates, Splitting.mapPrefix_append, Splitting.mapPrefix, rowBlockMeta,
    u32_add_one, List.flatMap_append, List.flatMap_cons, List.flatMap_nil, List.append_nil,
    List.nil_append, List.map_append, List.map_cons, List.map_nil, List.length_append,
    List.length_singleton, List.flatten_append, List.flatten_cons, List.flatten_nil]

private theorem add_of_room {closed : List (List Row)} {current : List Row} {row : Row}
    (hrows : ∀ r ∈ current, ValidRow schema r) (hrow : ValidRow schema row)
    (hsorted : ∀ r ∈ closed.flatten ++ current, rowKey r ≤ rowKey row)
    (hroom : rowBlockFull target current = false) :
    (holding schema options target closed current).add row =
      .ok (holding schema options target closed (current ++ [row])) := by
  have horder : (!(closed.flatten ++ current).isEmpty &&
      decide (rowKey row < lastKeyOf (closed.flatten ++ current))) = false := by
    rcases eq_or_ne (closed.flatten ++ current) [] with hnil | hne
    · rw [hnil]
      rfl
    · obtain ⟨last, hlast, heq⟩ := exists_lastKeyOf hne
      have hle := hsorted last hlast
      simp [heq, hle]
  unfold add
  have hfull : (holding schema options target closed current).blockBuilder.full = false := hroom
  rw [if_neg (by simp [holding]), hfull]
  simp only [Bool.false_eq_true, if_false, Result.ok_bind]
  rw [if_neg (by simpa [holding] using horder)]
  have hadd := RowSSTBlockBuilder.add_holding hrows hrow hroom
  rw [show (holding schema options target closed current).blockBuilder =
    RowSSTBlockBuilder.holding schema target current from rfl, hadd]
  have hempty : (closed.flatten ++ current ++ [row]).isEmpty = false := by simp
  simp only [Result.ok_bind, Result.pure_eq, holding, ← List.append_assoc, minKeyOf_append,
    maxKeyOf_append, lastKeyOf_append, hempty, min_comm (minKeyOf _), max_comm (maxKeyOf _)]

/-- A full block is closed first; the row then goes into an empty block. -/
private theorem add_of_full {b b' : RowSSTableBuilder} {row : Row}
    (hfinished : b.finished = false) (hfull : b.blockBuilder.full = true)
    (hflush : Result.ReturnsIf fits b.flushBlock b') (hfinished' : b'.finished = false)
    (hroom : b'.blockBuilder.full = false) {after : RowSSTableBuilder}
    (hadd : b'.add row = .ok after) : Result.ReturnsIf fits (b.add row) after := by
  rw [add, if_neg (by simp [hfinished']), hroom] at hadd
  rw [add, if_neg (by simp [hfinished]), hfull]
  simp only [Bool.false_eq_true, if_false, if_true, Result.ok_bind] at hadd ⊢
  exact hflush.bind (Or.inl hadd)

/-- The builder wrote some blocks and holds the next one; with the rows to come
they are the blocks of the whole input. -/
private def Good (schema : Schema) (options : SparseIndexOptions) (target : Nat)
    (rows : List Row) (b : RowSSTableBuilder) (rest : List Row) : Prop :=
  ∃ closed current, b = holding schema options target closed current ∧
    closed.flatten ++ current ++ rest = rows ∧
    closed ++ Splitting.splitFrom (rowBlockFull target) current rest =
      Splitting.split (rowBlockFull target) rows ∧
    (current = [] → closed = [])

/-- The blocks written so far are no more than the blocks of the whole input. -/
private theorem fits_closed {rows : List Row} {closed later : List (List Row)}
    (hfits : fits → (rowSSTable schema options (Splitting.split (rowBlockFull target) rows)).Fit)
    (hsplit : closed ++ later = Splitting.split (rowBlockFull target) rows) (h : fits) :
    (closed.flatMap rowBlockBytes).length ≤ maxFileSize ∧
      ((rowMetas closed).flatMap RowBlockMeta.encode).length ≤ maxFileSize := by
  have hfit := hfits h
  have hdata := hfit.data
  have hmetadata := hfit.metadata
  simp only [rowSSTable, ← hsplit, rowMetas, Splitting.mapPrefix_append, List.flatMap_append,
    List.length_append] at hdata hmetadata
  rw [rowMetas]
  omega

private theorem good_add (htarget : 0 < target) {rows : List Row}
    (hrows : ∀ r ∈ rows, ValidRow schema r) (hsorted : SortedRows rows)
    (hcount : ∀ block ∈ Splitting.split (rowBlockFull target) rows, 0 < u32 block.length)
    (hfits : fits → (rowSSTable schema options (Splitting.split (rowBlockFull target) rows)).Fit)
    (b : RowSSTableBuilder) (row : Row) (rest : List Row)
    (hgood : Good schema options target rows b (row :: rest)) :
    ∃ b', Result.ReturnsIf fits (b.add row) b' ∧ Good schema options target rows b' rest := by
  obtain ⟨closed, current, rfl, hflat, hsplit, hempty⟩ := hgood
  have hrow : ValidRow schema row := hrows row (by simp [← hflat])
  have hbefore : ∀ r ∈ closed.flatten ++ current, rowKey r ≤ rowKey row := by
    rw [← hflat] at hsorted
    intro r hr
    exact (List.pairwise_append.mp hsorted).2.2 r hr row List.mem_cons_self
  have hcurrent : ∀ r ∈ current, ValidRow schema r := fun r hr => hrows r (by simp [← hflat, hr])
  rw [Splitting.splitFrom] at hsplit
  cases hfull : rowBlockFull target current with
  | false =>
    simp only [hfull, Bool.and_false, Bool.false_eq_true, if_false] at hsplit
    exact ⟨_, Or.inl (add_of_room hcurrent hrow hbefore hfull), closed, current ++ [row], rfl,
      by simp [← hflat], hsplit, by simp⟩
  | true =>
    have hne : current ≠ [] := by
      rintro rfl
      have : target = 0 := by simpa [rowBlockFull, rowBlockBytes] using hfull
      omega
    have hclose : (!current.isEmpty && rowBlockFull target current) = true := by
      simp [hfull, hne]
    rw [if_pos hclose] at hsplit
    have hpos := hcount current (by rw [← hsplit]; simp)
    have hroom : rowBlockFull target [] = false := by
      simpa [rowBlockFull, rowBlockBytes] using htarget.ne'
    have hadd : (holding schema options target (closed ++ [current]) []).add row =
        .ok (holding schema options target (closed ++ [current]) [row]) :=
      add_of_room (by simp) hrow (by simpa using hbefore) hroom
    have hflush : Result.ReturnsIf fits
      (holding schema options target closed current).flushBlock _ :=
      flushBlock_holding htarget hpos
        (fun h => (fits_closed hfits (by simpa using hsplit) h).1)
        fun h => (fits_closed hfits (by simpa using hsplit) h).2
    exact ⟨_, add_of_full rfl hfull hflush rfl hroom hadd, closed ++ [current], [row], rfl,
      by simp [← hflat], by simpa using hsplit, by simp⟩

private theorem finish_returns (htarget : 0 < target) {rows : List Row} (hne : rows ≠ [])
    (hrows : ∀ r ∈ rows, ValidRow schema r)
    (hcount : ∀ block ∈ Splitting.split (rowBlockFull target) rows, 0 < u32 block.length)
    (hfits : fits → (rowSSTable schema options (Splitting.split (rowBlockFull target) rows)).Fit)
    {b : RowSSTableBuilder} (hgood : Good schema options target rows b []) :
    ∃ last : RowSSTableBuilder, Result.ReturnsIf fits b.finish
        (buildResult (Splitting.split (rowBlockFull target) rows), last) ∧
      last.files = rowSSTable schema options (Splitting.split (rowBlockFull target) rows) := by
  obtain ⟨closed, current, rfl, hflat, hsplit, hempty⟩ := hgood
  have hcurrent : current ≠ [] := by
    rintro rfl
    rw [hempty rfl] at hflat
    exact hne (by simpa using hflat.symm)
  rw [Splitting.splitFrom, if_neg (by simpa using hcurrent)] at hsplit
  have hpos := hcount current (by rw [← hsplit]; simp)
  have hvalid : ∀ block ∈ closed ++ [current], ∀ r ∈ block, ValidRow schema r := by
    intro block hblock r hr
    rw [hsplit] at hblock
    exact hrows r (Splitting.mem_of_mem_split hblock hr)
  have hbuffer : (holding schema options target closed current).blockBuilder.buffer.length > 0 := by
    obtain ⟨row, rest, rfl⟩ := List.exists_cons_of_ne_nil hcurrent
    have := length_rowBytes_pos row
    simp only [holding, RowSSTBlockBuilder.holding, rowBlockBytes, List.flatMap_cons,
      List.length_append]
    omega
  have hfirst : (holding schema options target closed current).firstRow = false := by
    simp [holding, hcurrent]
  have hflatten : (closed ++ [current]).flatten = rows := by simp [← hflat]
  refine ⟨{ holding schema options target (closed ++ [current]) [] with
      info := infoFile (u32 (closed ++ [current]).length) (minKeyOf rows) (maxKeyOf rows) .row
      index := sparseIndexFile (u32 (closed ++ [current]).length) options
        (indexCandidates (closed ++ [current]))
      stats := statsFileBytes schema (closed ++ [current])
      finished := true }, ?_, ?_⟩
  · unfold finish
    rw [if_neg (by simp [holding]), if_neg (by simp [hfirst]), if_pos hbuffer]
    have hclosed : closed ++ [current] ++ [] = Splitting.split (rowBlockFull target) rows := by
      rw [List.append_nil, hsplit]
    refine (flushBlock_holding htarget hpos (fun h => (fits_closed hfits hclosed h).1)
      fun h => (fits_closed hfits hclosed h).2).bind ?_
    refine (writeBytes_returnsIf fun h => ?_).bind ((writeBytes_returnsIf fun h => ?_).bind ?_)
    · have hinfo := (hfits h).info
      rw [← hsplit] at hinfo
      simpa [rowSSTable, infoFile] using hinfo
    · have hindex := (hfits h).index
      rw [← hsplit] at hindex
      exact hindex
    have hstats := statsFile_of_valid (closed ++ [current]) hvalid
    rw [show (holding schema options target (closed ++ [current]) []).blockNumericStats =
      (closed ++ [current]).map (blockStats schema) from rfl,
      show (holding schema options target (closed ++ [current]) []).schema = schema from rfl,
      hstats, Result.ok_bind]
    refine (writeBytes_returnsIf fun h => ?_).bind (Or.inl ?_)
    · have hstatsFit := (hfits h).stats
      rw [← hsplit] at hstatsFit
      exact hstatsFit
    simp only [Result.pure_eq, ← hsplit, buildResult, hflatten, holding, List.append_nil,
      List.nil_append]
  · rw [← hsplit]
    simp only [files, rowSSTable, hflatten]
    rfl

end RowSSTableBuilder

/-- Sorted valid rows build into the SSTable of their blocks, unless a file
grows too large. -/
theorem buildRowSSTable_returns {schema : Schema} {options : SparseIndexOptions} {target : Nat}
    {rows : List Row} (hoptions : options.Accepted) (htarget : 0 < target) (hne : rows ≠ [])
    (hrows : ∀ r ∈ rows, ValidRow schema r) (hsorted : SortedRows rows)
    (hcount : ∀ block ∈ Splitting.split (rowBlockFull target) rows, 0 < u32 block.length) :
    Result.ReturnsIf
      (rowSSTable schema options (Splitting.split (rowBlockFull target) rows)).Fit
      (buildRowSSTable schema options target rows)
      (buildResult (Splitting.split (rowBlockFull target) rows),
        rowSSTable schema options (Splitting.split (rowBlockFull target) rows)) := by
  have hstart : RowSSTableBuilder.Good schema options target rows
      (RowSSTableBuilder.holding schema options target [] []) rows :=
    ⟨[], [], rfl, by simp, by simp [Splitting.split], by simp⟩
  obtain ⟨b, hb, hgood⟩ := Result.foldlM_returns _
    (RowSSTableBuilder.good_add htarget hrows hsorted hcount id) rows _ hstart
  obtain ⟨last, hlast, hfiles⟩ :=
    RowSSTableBuilder.finish_returns htarget hne hrows hcount id hgood
  unfold buildRowSSTable
  rw [RowSSTableBuilder.create_eq hoptions htarget, Result.ok_bind]
  refine hb.bind (hlast.bind (Or.inl ?_))
  rw [← hfiles]
  rfl

section FileSize

variable {b b' : RowSSTableBuilder}

private theorem length_data_flushBlock (h : b.flushBlock = .ok b') :
    b'.data.length ≤ maxFileSize := by
  unfold RowSSTableBuilder.flushBlock at h
  obtain ⟨⟨result, blockBuilder⟩, -, h⟩ := Result.bind_eq_ok.mp h
  obtain ⟨data, hdata, h⟩ := Result.bind_eq_ok.mp h
  obtain ⟨metadata, -, h⟩ := Result.bind_eq_ok.mp h
  cases h
  exact (length_of_writeBytes hdata).2

private theorem length_data_flushIf {c : Prop} [Decidable c] {b b' : RowSSTableBuilder}
    (hb : b.data.length ≤ maxFileSize)
    (h : (if c then b.flushBlock else .ok b) = .ok b') : b'.data.length ≤ maxFileSize := by
  split at h
  · exact length_data_flushBlock h
  · cases h
    exact hb

private theorem length_data_add (row : Row) (hb : b.data.length ≤ maxFileSize)
    (h : b.add row = .ok b') : b'.data.length ≤ maxFileSize := by
  unfold RowSSTableBuilder.add at h
  split at h
  · cases h
  · obtain ⟨flushed, hflushed, h⟩ := Result.bind_eq_ok.mp h
    dsimp only at h
    split at h
    · cases h
    · obtain ⟨blockBuilder, -, h⟩ := Result.bind_eq_ok.mp h
      have hlength := length_data_flushIf hb hflushed
      cases h
      exact hlength

private theorem length_data_finish {result : SSTableBuildResult}
    (hb : b.data.length ≤ maxFileSize) (h : b.finish = .ok (result, b')) :
    b'.data.length ≤ maxFileSize := by
  unfold RowSSTableBuilder.finish at h
  split at h
  · cases h
  · split at h
    · cases h
    · obtain ⟨flushed, hflushed, h⟩ := Result.bind_eq_ok.mp h
      obtain ⟨info, -, h⟩ := Result.bind_eq_ok.mp h
      obtain ⟨index, -, h⟩ := Result.bind_eq_ok.mp h
      obtain ⟨statsBytes, -, h⟩ := Result.bind_eq_ok.mp h
      obtain ⟨stats, -, h⟩ := Result.bind_eq_ok.mp h
      have hlength := length_data_flushIf hb hflushed
      cases h
      exact hlength

end FileSize

/-- The data file of a successful build keeps the file size limit. -/
theorem length_data_of_buildRowSSTable {schema : Schema} {options : SparseIndexOptions}
    {target : Nat} {rows : List Row} {result : SSTableBuildResult} {files : SSTableFiles}
    (h : buildRowSSTable schema options target rows = .ok (result, files)) :
    files.data.length ≤ maxFileSize := by
  unfold buildRowSSTable at h
  obtain ⟨b, hcreate, h⟩ := Result.bind_eq_ok.mp h
  obtain ⟨filled, hfilled, h⟩ := Result.bind_eq_ok.mp h
  obtain ⟨⟨r, last⟩, hfinish, h⟩ := Result.bind_eq_ok.mp h
  cases h
  have hempty : b.data.length ≤ maxFileSize := by
    unfold RowSSTableBuilder.create at hcreate
    obtain ⟨blockBuilder, -, hcreate⟩ := Result.bind_eq_ok.mp hcreate
    split at hcreate
    · cases hcreate
    · split at hcreate
      · cases hcreate
      · cases hcreate
        exact Nat.zero_le _
  have hkept := Result.foldlM_invariant (fun b : RowSSTableBuilder => b.data.length ≤ maxFileSize)
    (fun b row b' hb h => length_data_add row hb h) rows hempty hfilled
  exact length_data_finish hkept hfinish

end Htap.SSTable
