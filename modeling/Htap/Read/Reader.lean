import Htap.Basis.LruCache
import Htap.SSTable.ColumnBuilder

/-!
`SSTableReader` and `SSTableBlockCache`. The reader turns windows of an
SSTable's files back into records; the block cache keeps data blocks that were
read and must never answer with anything but the block's bytes.
-/

namespace Htap.Read

open Storage SSTable ByteFormat Words

/-- The directories of complete SSTables by path, and `manifest.bin`. -/
structure Disk where
  sstables : Bytes → Option SSTableFiles
  manifest : Option Bytes

/-- `read_bytes_from_stream`. -/
def readBytes (contents : Bytes) (offset size : Nat) : Result Bytes :=
  if size = 0 then .ok []
  else if offset + size ≤ contents.length then .ok ((contents.drop offset).take size)
  else .error (.runtimeError "Cannot read file: ")

def metadataEnd : Exception := .runtimeError "Unexpected end of SSTable metadata"

/-- Run a parser from the start of a buffer; what is left over is ignored. -/
def parse {α : Type} (p : Parser Exception α) (data : Bytes) : Result α := do
  let (a, _) ← p.run data
  return a

theorem parse_eq {α : Type} {p : Parser Exception α} {data : Bytes} {a : α}
    (h : Reads p data a) : parse p data = .ok a := by
  have hrun := h []
  rw [List.append_nil] at hrun
  rw [parse, hrun]
  rfl

theorem readBytes_window (before window after : Bytes) :
    readBytes (before ++ window ++ after) before.length window.length = .ok window := by
  unfold readBytes
  split
  · rename_i h
    rw [List.eq_nil_of_length_eq_zero h]
  · rw [if_pos (by simp), List.append_assoc, List.drop_left, List.take_left]

/-- Reading whole records of a file of fixed-size records. -/
theorem readBytes_records {α : Type} {write : α → Bytes} {size : Nat} (items : List α)
    (hsize : ∀ a ∈ items, (write a).length = size) {first count : Nat}
    (h : first + count ≤ items.length) :
    readBytes (items.flatMap write) (first * size) (count * size) =
      .ok (((items.drop first).take count).flatMap write) := by
  have hwindow := window_records items hsize first count
  unfold readBytes
  split
  · rename_i hzero
    rw [hzero, List.take_zero] at hwindow
    rw [← hwindow]
  · rw [length_records items hsize, if_pos, hwindow]
    rw [← Nat.add_mul]
    exact Nat.mul_le_mul_right size h

/-- Reading and parsing whole records. -/
theorem parse_records {α : Type} {write : α → Bytes} {p : Parser Exception α} {size : Nat}
    (items : List α) (hsize : ∀ a ∈ items, (write a).length = size)
    (hreads : ∀ a ∈ items, Reads p (write a) a) {first count : Nat}
    (h : first + count ≤ items.length) :
    (do
      let data ← readBytes (items.flatMap write) (first * size) (count * size)
      parse (Parser.times p count) data) = .ok ((items.drop first).take count) := by
  have hlength : ((items.drop first).take count).length = count := by
    rw [List.length_take, List.length_drop]
    omega
  have htimes := Reads.times ((items.drop first).take count)
    fun a ha => hreads a (List.mem_of_mem_drop (List.mem_of_mem_take ha))
  rw [hlength] at htimes
  rw [readBytes_records items hsize h, Result.ok_bind]
  exact parse_eq htimes

/-! ## Metadata -/

def readSparseIndex (files : SSTableFiles) : Result (List SparseIndexEntry) :=
  if files.index.length = 0 then .ok []
  else if files.index.length % sparseIndexEntryOnDiskSize ≠ 0 then
    .error (.runtimeError "Invalid sparse index file size: ")
  else do
    let data ← readBytes files.index 0 files.index.length
    parse (Parser.times (SparseIndexEntry.read metadataEnd)
      (files.index.length / sparseIndexEntryOnDiskSize)) data

def readRowMetadataRange (files : SSTableFiles) (firstBlockId blockCount : Nat) :
    Result (List RowBlockMeta) :=
  if blockCount = 0 then .ok []
  else do
    let data ← readBytes files.metadata (firstBlockId * rowBlockMetaOnDiskSize)
      (blockCount * rowBlockMetaOnDiskSize)
    parse (Parser.times (RowBlockMeta.read metadataEnd) blockCount) data

def readColumnMetadataRange (files : SSTableFiles) (firstBlockId blockCount columnsCount : Nat) :
    Result (List ColumnBlockMeta) :=
  if blockCount = 0 ∨ columnsCount = 0 then .ok []
  else do
    let firstEntryId := firstBlockId * columnsCount
    let entryCount := blockCount * columnsCount
    let data ← readBytes files.metadata (firstEntryId * columnBlockMetaOnDiskSize)
      (entryCount * columnBlockMetaOnDiskSize)
    parse (Parser.times (ColumnBlockMeta.read metadataEnd) entryCount) data

/-- The index file of fewer than 2^32 blocks is read back entry by entry. -/
theorem readSparseIndex_eq {files : SSTableFiles} {numBlocks : Nat} {options : SparseIndexOptions}
    {candidates : List SparseIndexEntry}
    (hindex : files.index = sparseIndexFile numBlocks options candidates)
    (hids : ∀ entry ∈ candidates, entry.blockId < 2 ^ 32) :
    readSparseIndex files = .ok (sparseIndexEntries numBlocks options candidates) := by
  have hmem : ∀ entry ∈ sparseIndexEntries numBlocks options candidates, entry ∈ candidates :=
    fun entry h => (List.mem_filter.mp h).1
  generalize hentries : sparseIndexEntries numBlocks options candidates = entries at hmem
  have hfile : files.index = entries.flatMap SparseIndexEntry.encode := by
    rw [hindex, sparseIndexFile, hentries]
  have hlength : files.index.length = entries.length * sparseIndexEntryOnDiskSize := by
    rw [hfile]
    exact length_records entries fun entry _ => entry.length_encode
  have hsize : 0 < sparseIndexEntryOnDiskSize := by decide
  unfold readSparseIndex
  rw [hlength]
  cases entries with
  | nil => simp
  | cons entry rest =>
    rw [if_neg (by simp [sparseIndexEntryOnDiskSize]), if_neg (by simp), Nat.mul_div_cancel _ hsize]
    have hparse := parse_records (entry :: rest) (fun e _ => e.length_encode)
      (fun e he => SparseIndexEntry.reads metadataEnd (hids e (hmem e he)))
      (Nat.le_of_eq (Nat.zero_add (entry :: rest).length))
    rw [Nat.zero_mul, ← hfile] at hparse
    simpa using hparse

theorem readRowMetadataRange_eq {files : SSTableFiles} {metas : List RowBlockMeta}
    (hmetadata : files.metadata = metas.flatMap RowBlockMeta.encode)
    (hfits : ∀ m ∈ metas, m.Fits) {first count : Nat} (h : first + count ≤ metas.length) :
    readRowMetadataRange files first count = .ok ((metas.drop first).take count) := by
  unfold readRowMetadataRange
  split
  · rename_i hzero
    rw [hzero, List.take_zero]
  · rw [hmetadata]
    exact parse_records metas (fun m _ => m.length_encode)
      (fun m hm => RowBlockMeta.reads metadataEnd (hfits m hm)) h

theorem readColumnMetadataRange_eq {files : SSTableFiles} {metas : List ColumnBlockMeta}
    (hmetadata : files.metadata = metas.flatMap ColumnBlockMeta.encode)
    (hfits : ∀ m ∈ metas, m.Fits) {first count columns : Nat}
    (h : (first + count) * columns ≤ metas.length) :
    readColumnMetadataRange files first count columns =
      .ok ((metas.drop (first * columns)).take (count * columns)) := by
  unfold readColumnMetadataRange
  split
  · rename_i hzero
    rcases hzero with hzero | hzero <;> simp [hzero]
  · rw [hmetadata]
    rw [Nat.add_mul] at h
    exact parse_records metas (fun m _ => m.length_encode)
      (fun m hm => ColumnBlockMeta.reads metadataEnd (hfits m hm)) h

/-! ## Statistics -/

structure NumericStatsRange where
  firstBlockId : Nat
  blockCount : Nat
  byColumn : List (Nat × List NumericBlockStats)

/-- `by_column.find(column_idx)`. -/
def NumericStatsRange.column (range : NumericStatsRange) (columnIdx : Nat) :
    Option (List NumericBlockStats) :=
  (range.byColumn.find? fun c => c.1 == columnIdx).map Prod.snd

def NumericStatsRange.empty (range : NumericStatsRange) : Bool := range.byColumn.isEmpty

structure NumericStatsColumnDescriptor where
  columnIdx : Nat
  type : ValueType
  offset : Nat
  entrySize : Nat

/-- One descriptor of the stats file, with the checks made on it. -/
def readStatsDescriptor (fileSize numBlocks : Nat) :
    Parser Exception NumericStatsColumnDescriptor := do
  let columnIdx ← Parser.word metadataEnd 4
  let rawType ← Parser.word metadataEnd 1
  let offset ← Parser.word metadataEnd 8
  let entrySize ← Parser.word metadataEnd 4
  let type ←
    (if rawType = ValueType.int64.code then pure ValueType.int64
    else if rawType = ValueType.double.code then pure ValueType.double
    else Parser.fail (.runtimeError "Invalid stats value type: ") : Parser Exception ValueType)
  if entrySize ≠ numericStatsEntrySize then
    Parser.fail (.runtimeError "Invalid stats entry size: ")
  else if fileSize < offset ∨ fileSize - offset < numBlocks * entrySize then
    Parser.fail (.runtimeError "Stats column data is out of file bounds: ")
  else
    return { columnIdx, type, offset, entrySize }

/-- `load_numeric_stats_index`: the number of blocks and the descriptors. The
source keeps the result; the file it comes from never changes. -/
def loadNumericStatsIndex (files : SSTableFiles) :
    Result (Nat × List NumericStatsColumnDescriptor) :=
  let fileSize := files.stats.length
  if fileSize < statsHeaderSize then .error (.runtimeError "Invalid stats file size: ")
  else do
    let header ← readBytes files.stats 0 statsHeaderSize
    let (magic, version, numBlocks, numStatsColumns) ← parse (do
      let magic ← Parser.word metadataEnd 4
      let version ← Parser.word metadataEnd 4
      let numBlocks ← Parser.word metadataEnd 4
      let numStatsColumns ← Parser.word metadataEnd 4
      return (magic, version, numBlocks, numStatsColumns)) header
    if magic ≠ statsMagic then .error (.runtimeError "Invalid stats file magic: ")
    else if version ≠ statsVersion then
      .error (.runtimeError "Unsupported stats file version: ")
    else
      let descriptorsSize := numStatsColumns * statsColumnDescriptorSize
      if fileSize < statsHeaderSize + descriptorsSize then
        .error (.runtimeError "Invalid stats descriptors size: ")
      else do
        let descriptorsData ← readBytes files.stats statsHeaderSize descriptorsSize
        let descriptors ←
          parse (Parser.times (readStatsDescriptor fileSize numBlocks) numStatsColumns)
            descriptorsData
        return (numBlocks, descriptors)

/-- One entry of a stats column. -/
def readStatsEntry (columnIdx : Nat) (type : ValueType) : Parser Exception NumericBlockStats := do
  let flag ← Parser.word metadataEnd 1
  match type with
  | .int64 => do
    let minValue ← readI64 metadataEnd
    let maxValue ← readI64 metadataEnd
    return { columnIdx, type, hasValue := flag != 0, minValue := .int64 minValue,
             maxValue := .int64 maxValue }
  | _ => do
    let minValue ← readDouble metadataEnd
    let maxValue ← readDouble metadataEnd
    return { columnIdx, type, hasValue := flag != 0, minValue := .double minValue,
             maxValue := .double maxValue }

/-- The entries of one requested column; nothing when it has no descriptor. -/
def readStatsColumn (files : SSTableFiles) (firstBlockId blockCount : Nat)
    (descriptors : List NumericStatsColumnDescriptor) (requestedColumn : Nat) :
    Result (Option (List NumericBlockStats)) :=
  match descriptors.find? fun d => d.columnIdx == requestedColumn with
  | none => .ok none
  | some descriptor => do
    let data ← readBytes files.stats (descriptor.offset + firstBlockId * descriptor.entrySize)
      (blockCount * descriptor.entrySize)
    let stats ← parse
      (Parser.times (readStatsEntry descriptor.columnIdx descriptor.type) blockCount) data
    return some stats

/-- `by_column.emplace`: an existing column stays as it is. -/
def emplaceColumn (byColumn : List (Nat × List NumericBlockStats)) (columnIdx : Nat)
    (stats : List NumericBlockStats) : List (Nat × List NumericBlockStats) :=
  if byColumn.any fun c => c.1 == columnIdx then byColumn else byColumn ++ [(columnIdx, stats)]

def readNumericStatsRange (files : SSTableFiles) (firstBlockId blockCount : Nat)
    (columnIndices : List Nat) : Result NumericStatsRange :=
  if blockCount = 0 ∨ columnIndices.isEmpty then .ok ⟨firstBlockId, blockCount, []⟩
  else do
    let (numBlocks, descriptors) ← loadNumericStatsIndex files
    if numBlocks < firstBlockId ∨ numBlocks - firstBlockId < blockCount then
      .error (.runtimeError "Stats block range is out of file bounds: ")
    else do
      let byColumn ← columnIndices.foldlM (fun byColumn requestedColumn => do
        let stats ← readStatsColumn files firstBlockId blockCount descriptors requestedColumn
        return match stats with
          | some stats => emplaceColumn byColumn requestedColumn stats
          | none => byColumn) []
      return ⟨firstBlockId, blockCount, byColumn⟩

/-! ## The block cache -/

inductive BlockKind where
  | row
  | column
  deriving DecidableEq

structure CacheKey where
  sstableId : Nat
  kind : BlockKind
  blockId : Nat
  columnIdx : Nat
  deriving DecidableEq

/-- Blocks by key, bounded by their bytes, and the counters of `stats`. -/
structure SSTableBlockCache where
  blocks : LruCache CacheKey Bytes
  hits : UInt64 := 0
  misses : UInt64 := 0

namespace SSTableBlockCache

/-- The constructor with a budget of bytes. -/
def ofBudget (maxCachedBytes : Nat) : Result SSTableBlockCache :=
  if maxCachedBytes = 0 then
    .error (.runtimeError "SSTableBlockCache max_cached_bytes must be positive")
  else .ok { blocks := { maxWeight := maxCachedBytes } }

/-- The default constructor. -/
def create : SSTableBlockCache := { blocks := { maxWeight := 64 * 1024 * 1024 } }

/-- `read_block`: the entry of a key, or what its loader gives. -/
def readBlock (cache : SSTableBlockCache) (key : CacheKey) (loader : Unit → Result Bytes) :
    Result (Bytes × SSTableBlockCache) := do
  let (bytes, blocks) ← cache.blocks.fetch List.length key loader
  if (cache.blocks.find key).isSome then
    return (bytes, { cache with blocks := blocks, hits := cache.hits + 1 })
  else return (bytes, { cache with blocks := blocks, misses := cache.misses + 1 })

def readRowBlock (cache : SSTableBlockCache) (sstableId : Nat) (block : RowBlockMeta)
    (loader : Unit → Result Bytes) : Result (Bytes × SSTableBlockCache) :=
  cache.readBlock { sstableId, kind := .row, blockId := block.blockId, columnIdx := 0 } loader

def readColumnBlock (cache : SSTableBlockCache) (sstableId : Nat) (block : ColumnBlockMeta)
    (loader : Unit → Result Bytes) : Result (Bytes × SSTableBlockCache) :=
  cache.readBlock
    { sstableId, kind := .column, blockId := block.blockId, columnIdx := block.columnIdx } loader

end SSTableBlockCache

/-! ## The reader -/

/-- A reader holds the open data file, so it outlives the file's directory. -/
structure SSTableReader where
  data : Bytes
  sstableId : Nat

/-- Opening the reader fails when the SSTable directory is gone. -/
def SSTableReader.open (disk : Disk) (path : Bytes) (sstableId : Nat) : Result SSTableReader :=
  match disk.sstables path with
  | some files => .ok ⟨files.data, sstableId⟩
  | none => .error (.runtimeError "Cannot open SSTable data file: ")

/-- `read_block`, through the block cache if there is one. -/
def SSTableReader.readBlock (reader : SSTableReader) (cache : Option SSTableBlockCache)
    (key : CacheKey) (offset size : Nat) : Result (Bytes × Option SSTableBlockCache) :=
  match cache with
  | some cache => do
    let (bytes, cache) ← cache.readBlock key fun _ => readBytes reader.data offset size
    return (bytes, some cache)
  | none => do
    let bytes ← readBytes reader.data offset size
    return (bytes, none)

def SSTableReader.rowKey (reader : SSTableReader) (block : RowBlockMeta) : CacheKey :=
  { sstableId := reader.sstableId, kind := .row, blockId := block.blockId, columnIdx := 0 }

def SSTableReader.columnKey (reader : SSTableReader) (block : ColumnBlockMeta) : CacheKey :=
  { sstableId := reader.sstableId, kind := .column, blockId := block.blockId,
    columnIdx := block.columnIdx }

/-- The cache, if there is one, holds only true block contents. -/
def CacheCoherent (contents : CacheKey → Option Bytes) (cache : Option SSTableBlockCache) : Prop :=
  ∀ c ∈ cache, c.blocks.Coherent contents

/-- A read of true contents returns them and keeps the cache true. -/
theorem SSTableBlockCache.readBlock_coherent {contents : CacheKey → Option Bytes}
    {cache : SSTableBlockCache} {key : CacheKey} {bytes : Bytes} {loader : Unit → Result Bytes}
    (h : cache.blocks.Coherent contents) (hbytes : contents key = some bytes)
    (hload : loader () = .ok bytes) :
    ∃ cache', cache.readBlock key loader = .ok (bytes, cache') ∧
      cache'.blocks.Coherent contents := by
  have hstep : ∃ blocks : LruCache CacheKey Bytes,
      cache.blocks.fetch List.length key loader = .ok (bytes, blocks) ∧
        blocks.Coherent contents := h.fetch hbytes hload
  obtain ⟨blocks, hfetch, hcoherent⟩ := hstep
  unfold readBlock
  rw [hfetch]
  by_cases hhit : (cache.blocks.find key).isSome
  · refine ⟨{ cache with blocks := blocks, hits := cache.hits + 1 }, ?_, hcoherent⟩
    simp only [Result.ok_bind, if_pos hhit, Result.pure_eq]
  · refine ⟨{ cache with blocks := blocks, misses := cache.misses + 1 }, ?_, hcoherent⟩
    simp only [Result.ok_bind, if_neg hhit, Result.pure_eq]

theorem SSTableReader.readBlock_coherent {contents : CacheKey → Option Bytes}
    {reader : SSTableReader} {cache : Option SSTableBlockCache} {key : CacheKey}
    {offset size : Nat} {bytes : Bytes} (h : CacheCoherent contents cache)
    (hbytes : contents key = some bytes)
    (hload : readBytes reader.data offset size = .ok bytes) :
    ∃ cache', reader.readBlock cache key offset size = .ok (bytes, cache') ∧
      CacheCoherent contents cache' := by
  cases cache with
  | none =>
    refine ⟨none, ?_, by simp [CacheCoherent]⟩
    rw [readBlock, hload]
    rfl
  | some cache =>
    obtain ⟨cache', hread, hcoherent⟩ := @SSTableBlockCache.readBlock_coherent contents cache key
      bytes (fun _ => readBytes reader.data offset size) (h cache rfl) hbytes hload
    refine ⟨some cache', ?_, ?_⟩
    · rw [readBlock, hread]
      rfl
    · intro c hc
      cases hc
      exact hcoherent

end Htap.Read
