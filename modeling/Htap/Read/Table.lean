import Htap.Read.Selector

/-!
An SSTable seen as its rows: the blocks its rows are cut into and the layout.
`Table.files` are the files the builders write for it. What the reader needs
to know of those files follows from `Table.WellFormed`.
-/

namespace Htap.Read

open Storage SSTable ByteFormat Words

structure Table where
  layout : SSTLayout
  blocks : List (List Row)

namespace Table

def rows (t : Table) : List Row := t.blocks.flatten

def files (schema : Schema) (options : SparseIndexOptions) (t : Table) : SSTableFiles :=
  match t.layout with
  | .row => rowSSTable schema options t.blocks
  | .column => columnSSTable schema options t.blocks

/-- The bytes of one data block. -/
def contents (t : Table) (key : CacheKey) : Option Bytes :=
  match t.layout, key.kind with
  | .row, .row => t.blocks[key.blockId]?.map rowBlockBytes
  | .column, .column => t.blocks[key.blockId]?.map fun rows => physicalBlockBytes rows key.columnIdx
  | _, _ => none

/-- The counters of the formats hold: blocks, and the rows of a block, are counted in 32 bits, and
the size of a column block's NULL bitmap is computed in 32 bits. -/
structure Counted (t : Table) : Prop where
  blocks : t.blocks.length < 2 ^ 32
  rows : ∀ block ∈ t.blocks, block.length < 2 ^ 32
  bitmap : t.layout = .column → ∀ block ∈ t.blocks, block.length + 7 < 2 ^ 32

/-- What the builders guarantee of the SSTables they finish. -/
structure WellFormed (schema : Schema) (options : SparseIndexOptions) (t : Table) : Prop where
  keyed : schema.WellFormed
  narrow : t.layout = .column → schema.size < 2 ^ 16
  nonempty : t.rows ≠ []
  blocksNonempty : ∀ rows ∈ t.blocks, rows ≠ []
  valid : ∀ row ∈ t.rows, ValidRow schema row
  storable : ∀ row ∈ t.rows, StorableRow row
  sorted : SortedRows t.rows
  counted : t.Counted
  fits : (t.files schema options).data.length ≤ maxFileSize

/-- The registry entry of the SSTable. -/
structure Describes (info : SSTableInfo) (t : Table) : Prop where
  layout : info.layout = t.layout.code
  numBlocks : info.numBlocks = u32 t.blocks.length
  minKey : info.minKey = minKeyOf t.rows
  maxKey : info.maxKey = maxKeyOf t.rows

variable {schema : Schema} {options : SparseIndexOptions} {t : Table}

/-- With few rows no counter overflows. -/
theorem Counted.of_rows (hblocks : ∀ rows ∈ t.blocks, rows ≠ [])
    (hrows : t.rows.length + 7 < 2 ^ 32) : t.Counted := by
  have hblock : ∀ block ∈ t.blocks, block.length ≤ t.rows.length :=
    fun block hmem => (List.sublist_flatten_of_mem hmem).length_le
  have hone : ∀ n ∈ t.blocks.map List.length, 1 ≤ n := by
    intro n hn
    obtain ⟨block, hmem, rfl⟩ := List.mem_map.mp hn
    exact List.length_pos_of_ne_nil (hblocks block hmem)
  have hsum := List.card_nsmul_le_sum _ 1 hone
  constructor
  · have hlength : t.blocks.length ≤ t.rows.length := by
      simpa [Table.rows, List.length_flatten] using hsum
    omega
  · intro block hmem
    have hle := hblock block hmem
    omega
  · intro _ block hmem
    have hle := hblock block hmem
    omega

theorem Describes.numBlocks_eq {info : SSTableInfo} (h : Describes info t)
    (hwf : t.WellFormed schema options) : info.numBlocks = t.blocks.length :=
  h.numBlocks.trans (u32_of_lt hwf.counted.blocks)

/-- A scan without a lower bound, or over distinct keys, may use the sparse
index. -/
theorem WellFormed.indexed (h : t.WellFormed schema options) {range : KeyRange}
    (hrange : range.fromKey = none ∨ StrictRows t.rows) : Indexed t.blocks range where
  nonempty := h.blocksNonempty
  sorted := h.sorted
  strict := hrange
  few := h.counted.blocks

theorem index_eq (schema : Schema) (options : SparseIndexOptions) (t : Table) :
    (t.files schema options).index =
      sparseIndexFile (u32 t.blocks.length) options (indexCandidates t.blocks) := by
  unfold files
  split <;> rfl

/-- The index file holds some of the first keys of the blocks. -/
theorem exists_sparseIndex (schema : Schema) (options : SparseIndexOptions) (t : Table) :
    ∃ entries, readSparseIndex (t.files schema options) = .ok entries ∧
      ∀ entry ∈ entries, entry ∈ indexCandidates t.blocks :=
  ⟨_, readSparseIndex_eq (index_eq schema options t) fun _ hentry =>
    indexCandidates_blockId_lt hentry, fun _ hentry => (List.mem_filter.mp hentry).1⟩

/-- Opening the metadata cache reads the sparse index back. -/
theorem create_metadataCache {disk : Disk} {info : SSTableInfo}
    (hdisk : disk.sstables info.path = some (t.files schema options))
    (columnsCount : Nat) :
    ∃ cache, SSTableMetadataCache.create disk info columnsCount = .ok cache ∧
      cache.info = info ∧ cache.columnsCount = columnsCount ∧
      readSparseIndex (t.files schema options) = .ok cache.sparseIndex ∧
      cache.Coherent disk (t.files schema options) := by
  obtain ⟨entries, hread, -⟩ := exists_sparseIndex schema options t
  rw [SSTableMetadataCache.create, SSTableMetadataCache.createWith, sstableFiles, hdisk,
    Result.ok_bind, hread]
  exact ⟨_, rfl, rfl, rfl, rfl, hdisk, Nat.succ_pos 255, by simp [LruCache.Coherent]⟩

/-! ## Row blocks -/

/-- The metadata records with the rows they stand for. -/
def rowBlocks (t : Table) : List (RowBlockMeta × List Row) :=
  Splitting.mapPrefix (fun earlier rows => (rowBlockMeta earlier rows, rows)) [] t.blocks

private theorem map_mapPrefix {α β γ : Type} (f : List α → α → β) (g : β → γ)
    (before items : List α) :
    (Splitting.mapPrefix f before items).map g =
      Splitting.mapPrefix (fun earlier a => g (f earlier a)) before items := by
  induction items generalizing before with
  | nil => rfl
  | cons a items ih => rw [Splitting.mapPrefix, List.map_cons, ih, Splitting.mapPrefix]

private theorem mapPrefix_eq_map {α β : Type} (f : α → β) (before items : List α) :
    Splitting.mapPrefix (fun _ a => f a) before items = items.map f := by
  induction items generalizing before with
  | nil => rfl
  | cons a items ih => rw [Splitting.mapPrefix, ih, List.map_cons]

theorem rowBlocks_fst (t : Table) : t.rowBlocks.map Prod.fst = rowMetas t.blocks := by
  rw [rowBlocks, map_mapPrefix]
  rfl

theorem rowBlocks_snd (t : Table) : t.rowBlocks.map Prod.snd = t.blocks := by
  rw [rowBlocks, map_mapPrefix, mapPrefix_eq_map (fun rows => rows), List.map_id']

theorem mem_rowBlocks {entry : RowBlockMeta × List Row} (h : entry ∈ t.rowBlocks) :
    ∃ earlier rows later, t.blocks = earlier ++ rows :: later ∧
      entry = (rowBlockMeta earlier rows, rows) := by
  obtain ⟨earlier, rows, later, hblocks, rfl⟩ := Splitting.exists_of_mem_mapPrefix h
  exact ⟨earlier, rows, later, hblocks, rfl⟩

theorem WellFormed.rowMetas_fit (h : t.WellFormed schema options) (hlayout : t.layout = .row) :
    ∀ m ∈ rowMetas t.blocks, m.Fits := by
  intro m hm
  obtain ⟨earlier, rows, later, hblocks, rfl⟩ := Splitting.exists_of_mem_mapPrefix hm
  have hdata := h.fits
  rw [files, hlayout] at hdata
  simp only [rowSSTable, hblocks, List.flatMap_append, List.flatMap_cons, List.length_append,
    maxFileSize] at hdata
  rw [List.nil_append]
  refine ⟨?_, ?_, u32_lt _, u32_lt _⟩
  · simp only [rowBlockMeta]
    omega
  · simp only [rowBlockMeta]
    omega

theorem metadata_row (hlayout : t.layout = .row) : (t.files schema options).metadata =
    (rowMetas t.blocks).flatMap RowBlockMeta.encode := by
  rw [files, hlayout]
  rfl

/-- The metadata of some blocks, read from the file. -/
theorem WellFormed.mem_rowMetas (h : t.WellFormed schema options) (hlayout : t.layout = .row)
    {first count : Nat} (hle : first + count ≤ t.blocks.length) {metas : List RowBlockMeta}
    (hread : readRowMetadataRange (t.files schema options) first count = .ok metas)
    {m : RowBlockMeta} (hm : m ∈ metas) : ∃ rows, (m, rows) ∈ t.rowBlocks := by
  have hlength : (rowMetas t.blocks).length = t.blocks.length := Splitting.length_mapPrefix _ _ _
  rw [readRowMetadataRange_eq (metadata_row hlayout) (h.rowMetas_fit hlayout) (hlength ▸ hle)]
    at hread
  cases hread
  have hall := List.mem_of_mem_drop (List.mem_of_mem_take hm)
  rw [← t.rowBlocks_fst] at hall
  obtain ⟨⟨m', rows⟩, hentry, rfl⟩ := List.mem_map.mp hall
  exact ⟨rows, hentry⟩

/-! ## Column blocks -/

/-- The metadata records of each logical block with the rows they stand for. -/
def columnBlocks (schema : Schema) (t : Table) : List (List ColumnBlockMeta × List Row) :=
  Splitting.mapPrefix (fun earlier rows => (logicalBlockMetas schema earlier rows, rows)) []
    t.blocks

theorem columnBlocks_fst (schema : Schema) (t : Table) :
    (t.columnBlocks schema).map Prod.fst = columnMetas schema t.blocks := by
  rw [columnBlocks, map_mapPrefix]
  rfl

theorem columnBlocks_snd (schema : Schema) (t : Table) :
    (t.columnBlocks schema).map Prod.snd = t.blocks := by
  rw [columnBlocks, map_mapPrefix, mapPrefix_eq_map (fun rows => rows), List.map_id']

theorem mem_columnBlocks {entry : List ColumnBlockMeta × List Row}
    (h : entry ∈ t.columnBlocks schema) :
    ∃ earlier rows later, t.blocks = earlier ++ rows :: later ∧
      entry = (logicalBlockMetas schema earlier rows, rows) := by
  obtain ⟨earlier, rows, later, hblocks, rfl⟩ := Splitting.exists_of_mem_mapPrefix h
  exact ⟨earlier, rows, later, hblocks, rfl⟩

theorem range_split {i size : Nat} (hi : i < size) :
    List.range size = List.range i ++ i :: List.range' (i + 1) (size - (i + 1)) := by
  have hjoin := @List.range'_append_1 0 i (size - (i + 1) + 1)
  rw [Nat.zero_add, List.range'_succ, show i + (size - (i + 1) + 1) = size by omega] at hjoin
  rw [List.range_eq_range', List.range_eq_range', hjoin]

private theorem physical_fits (schema : Schema) (rows : List Row) {i : Nat}
    (hi : i < schema.size) :
    ((List.range i).flatMap (physicalBlockBytes rows)).length + (physicalBlockBytes rows i).length ≤
      (logicalBlockBytes schema rows).length := by
  rw [logicalBlockBytes, range_split hi, List.flatMap_append, List.flatMap_cons,
    List.length_append, List.length_append]
  omega

theorem WellFormed.columnMetas_fit (h : t.WellFormed schema options)
    (hlayout : t.layout = .column) : ∀ m ∈ (columnMetas schema t.blocks).flatten, m.Fits := by
  intro m hm
  obtain ⟨group, hgroup, hm⟩ := List.mem_flatten.mp hm
  obtain ⟨earlier, rows, later, hblocks, rfl⟩ := Splitting.exists_of_mem_mapPrefix hgroup
  obtain ⟨i, hi, rfl⟩ := List.mem_map.mp hm
  rw [List.mem_range] at hi
  have hdata := h.fits
  rw [files, hlayout] at hdata
  simp only [columnSSTable, hblocks, List.flatMap_append, List.flatMap_cons, List.length_append,
    maxFileSize] at hdata
  have hphysical := physical_fits schema rows hi
  have hnarrow := h.narrow hlayout
  rw [List.nil_append]
  refine ⟨?_, ?_, u32_lt _, u32_lt _, ?_⟩ <;> simp only [columnBlockMeta] <;> omega

theorem metadata_column (hlayout : t.layout = .column) : (t.files schema options).metadata =
    (columnMetas schema t.blocks).flatten.flatMap ColumnBlockMeta.encode := by
  rw [files, hlayout]
  rfl

theorem length_of_mem_columnMetas {blocks : List (List Row)} :
    ∀ group ∈ columnMetas schema blocks, group.length = schema.size := by
  intro group hgroup
  obtain ⟨earlier, rows, later, -, rfl⟩ := Splitting.exists_of_mem_mapPrefix hgroup
  simp [logicalBlockMetas]

theorem length_columnMetas (schema : Schema) (blocks : List (List Row)) :
    (columnMetas schema blocks).flatten.length = blocks.length * schema.size := by
  rw [List.length_flatten, List.map_eq_replicate_iff.mpr length_of_mem_columnMetas,
    List.sum_replicate, smul_eq_mul, columnMetas, Splitting.length_mapPrefix]

/-- The metadata of some logical blocks, read from the file. -/
theorem WellFormed.mem_columnMetas (h : t.WellFormed schema options) (hlayout : t.layout = .column)
    {first count : Nat} (hle : first + count ≤ t.blocks.length) {metas : List ColumnBlockMeta}
    (hread : readColumnMetadataRange (t.files schema options) first count schema.size = .ok metas)
    {m : ColumnBlockMeta} (hm : m ∈ metas) : m ∈ (columnMetas schema t.blocks).flatten := by
  have hwithin : (first + count) * schema.size ≤ (columnMetas schema t.blocks).flatten.length := by
    rw [length_columnMetas]
    exact Nat.mul_le_mul_right _ hle
  rw [readColumnMetadataRange_eq (metadata_column hlayout) (h.columnMetas_fit hlayout) hwithin]
    at hread
  cases hread
  exact List.mem_of_mem_drop (List.mem_of_mem_take hm)

/-- Every row takes at least its key in the data file. -/
theorem WellFormed.length_rows_le (h : t.WellFormed schema options) :
    t.rows.length ≤ (t.files schema options).data.length := by
  have hblock : ∀ rows : List Row, rows.length ≤ (rowBlockBytes rows).length ∧
      rows.length ≤ (logicalBlockBytes schema rows).length := by
    intro rows
    constructor
    · rw [rowBlockBytes, List.length_flatMap]
      have hrow : ∀ n ∈ rows.map fun row => (rowBytes row).length, 1 ≤ n := by
        intro n hn
        obtain ⟨row, -, rfl⟩ := List.mem_map.mp hn
        exact (by decide : 1 ≤ 8).trans (length_rowBytes_pos row)
      simpa using List.card_nsmul_le_sum _ 1 hrow
    · obtain ⟨keyColumn, columns, hkeyed, -⟩ := h.keyed.keyFirst
      have hpos : 0 < schema.size := by simp [Schema.size, hkeyed]
      have hkey : (physicalBlockBytes rows 0).length = rows.length * 8 := by
        rw [physicalBlockBytes_key]
        exact length_records rows fun row _ => length_i64Bytes (rowKey row)
      rw [logicalBlockBytes, range_split hpos, List.flatMap_append, List.flatMap_cons,
        List.length_append, List.length_append, hkey]
      omega
  have hsum : ∀ (bytes : List Row → Bytes), (∀ rows, rows.length ≤ (bytes rows).length) →
      t.rows.length ≤ (t.blocks.flatMap bytes).length := by
    intro bytes hbytes
    rw [rows, List.length_flatten, List.length_flatMap]
    exact List.sum_le_sum fun block _ => hbytes block
  unfold files
  split
  · exact hsum rowBlockBytes fun rows => (hblock rows).1
  · exact hsum (logicalBlockBytes schema) fun rows => (hblock rows).2

end Table

/-! ## Building -/

structure BlockTargets where
  rowBlockBytes : Nat
  columnBlockRows : Nat
  columnBlockBytes : Nat

/-- What the constructors of the builders insist on. -/
def BlockTargets.Positive (targets : BlockTargets) : Prop :=
  0 < targets.rowBlockBytes ∧ 0 < targets.columnBlockRows ∧ 0 < targets.columnBlockBytes

instance (targets : BlockTargets) : Decidable targets.Positive :=
  inferInstanceAs (Decidable (_ ∧ _ ∧ _))

/-- `RowSSTableBuilder` or `ColumnSSTableBuilder` over all rows. -/
def buildSSTable (layout : SSTLayout) (schema : Schema) (options : SparseIndexOptions)
    (targets : BlockTargets) (rows : List Row) : Result (SSTableBuildResult × SSTableFiles) :=
  match layout with
  | .row => buildRowSSTable schema options targets.rowBlockBytes rows
  | .column =>
    buildColumnSSTable schema options targets.columnBlockRows targets.columnBlockBytes rows

/-- The SSTable a build produces. -/
def tableOf (layout : SSTLayout) (schema : Schema) (targets : BlockTargets) (rows : List Row) :
    Table where
  layout := layout
  blocks :=
    match layout with
    | .row => Splitting.split (rowBlockFull targets.rowBlockBytes) rows
    | .column =>
      Splitting.split (columnBlockFull schema targets.columnBlockRows targets.columnBlockBytes) rows

@[simp] theorem tableOf_rows (layout : SSTLayout) (schema : Schema) (targets : BlockTargets)
    (rows : List Row) : (tableOf layout schema targets rows).rows = rows := by
  cases layout <;> exact Splitting.flatten_split _ _

theorem ne_nil_of_mem_tableOf {layout : SSTLayout} {schema : Schema} {targets : BlockTargets}
    {rows block : List Row} (hblock : block ∈ (tableOf layout schema targets rows).blocks) :
    block ≠ [] := by
  cases layout <;> exact Splitting.ne_nil_of_mem_split hblock

theorem counted_tableOf (layout : SSTLayout) (schema : Schema) (targets : BlockTargets)
    {rows : List Row} (hrows : rows.length + 7 < 2 ^ 32) :
    (tableOf layout schema targets rows).Counted := by
  apply Table.Counted.of_rows
  · exact fun block hblock => ne_nil_of_mem_tableOf hblock
  · rwa [tableOf_rows]

/-- Rows a builder can take: valid, storable and in key order, in blocks that the formats can
count. -/
structure Buildable (layout : SSTLayout) (schema : Schema) (targets : BlockTargets)
    (rows : List Row) : Prop where
  keyed : schema.WellFormed
  narrow : layout = .column → schema.size < 2 ^ 16
  nonempty : rows ≠ []
  valid : ∀ row ∈ rows, ValidRow schema row
  storable : ∀ row ∈ rows, StorableRow row
  sorted : SortedRows rows
  counted : (tableOf layout schema targets rows).Counted

section Build

variable {layout : SSTLayout} {schema : Schema} {options : SparseIndexOptions}
  {targets : BlockTargets} {rows : List Row}

/-- A build gives the files of its SSTable, unless a write fails. -/
theorem buildSSTable_returns (h : Buildable layout schema targets rows)
    (hoptions : options.Accepted)
    (htargets : targets.Positive) :
    Result.Returns (buildSSTable layout schema options targets rows)
      (buildResult (tableOf layout schema targets rows).blocks,
        (tableOf layout schema targets rows).files schema options) := by
  cases layout with
  | row =>
    have hcount : ∀ block ∈ Splitting.split (rowBlockFull targets.rowBlockBytes) rows,
        0 < u32 block.length := by
      intro block hblock
      have hpos := List.length_pos_of_ne_nil (Splitting.ne_nil_of_mem_split hblock)
      rwa [u32_of_lt (h.counted.rows block hblock)]
    have hreturns := buildRowSSTable_returns hoptions htargets.1 h.nonempty h.valid h.sorted hcount
    exact hreturns.imp_right fun hfail => ⟨not_false, hfail.2⟩
  | column =>
    exact buildColumnSSTable_returns h.keyed (h.narrow rfl) hoptions htargets.2.1 htargets.2.2
      h.nonempty h.valid h.sorted h.counted.rows

/-- What a successful build produced. -/
theorem of_buildSSTable (h : Buildable layout schema targets rows) (hoptions : options.Accepted)
    (htargets : targets.Positive) {result : SSTableBuildResult} {files : SSTableFiles}
    (hbuild : buildSSTable layout schema options targets rows = .ok (result, files)) :
    result = buildResult (tableOf layout schema targets rows).blocks ∧
      files = (tableOf layout schema targets rows).files schema options ∧
      (tableOf layout schema targets rows).WellFormed schema options := by
  have heq := (buildSSTable_returns h hoptions htargets).eq_of_ok hbuild
  rw [Prod.mk.injEq] at heq
  obtain ⟨rfl, rfl⟩ := heq
  refine ⟨rfl, rfl, h.keyed, h.narrow, ?_, ?_, ?_, ?_, ?_, h.counted, ?_⟩
  · rw [tableOf_rows]
    exact h.nonempty
  · exact fun block hblock => ne_nil_of_mem_tableOf hblock
  · rw [tableOf_rows]
    exact h.valid
  · rw [tableOf_rows]
    exact h.storable
  · rw [tableOf_rows]
    exact h.sorted
  · cases layout with
    | row => exact length_data_of_buildRowSSTable hbuild
    | column => exact length_data_of_buildColumnSSTable hbuild

end Build

end Htap.Read
