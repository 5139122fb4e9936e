import Htap.Properties.RoundTrip
import Htap.Read.Statistics
import Htap.SSTable.Shape

/-!
`read_numeric_stats_range` over a built SSTable: one entry a requested numeric
column, in block order, each exact for the rows of its block. The counters of
the stats file are 32 bits wide, and an empty range has no columns.
-/

namespace Htap.Properties

open Storage SSTable Read Words

/-- What a range of statistics has to be over the given blocks. -/
def ReadsExactly (schema : Schema) (blocks : List (List Row)) (files : SSTableFiles)
    (first count : Nat) (requested : List Nat) : Prop :=
  ∃ range, readNumericStatsRange files first count requested = .ok range ∧
    (∀ columnIdx, (range.column columnIdx).isSome ↔ columnIdx ∈ requested ∧
      ∃ column, schema.columns[columnIdx]? = some column ∧ column.isKey = false ∧
        (column.type = .int64 ∨ column.type = .double)) ∧
    ∀ columnIdx stats, range.column columnIdx = some stats → stats.length = count ∧
      List.Forall₂ (fun entry rows => entry.Exact (rows.map fun row => row.getD columnIdx none))
        stats ((blocks.drop first).take count)

/-- Rows that are written to an SSTable, and a range of its statistics that is read back. -/
structure StatsRead extends SSTableInput where
  first : Nat
  count : Nat
  requested : List Nat

namespace StatsRead

def blocks (r : StatsRead) : List (List Row) := r.table.blocks

/-- What the builders take, and a range within the blocks. -/
structure Accepted (r : StatsRead) : Prop where
  schema : r.schema.FromBuilder
  nonempty : r.rows ≠ []
  valid : ∀ row ∈ r.rows, ValidRow r.schema row
  sorted : SortedRows r.rows
  targets : r.targets.Positive
  options : r.options.Accepted
  range : r.first + r.count ≤ r.blocks.length

/-- Whatever the builder wrote, the statistics are read back exactly. -/
def Exact (r : StatsRead) : Prop :=
  ∀ result files, r.build = .ok (result, files) →
    ReadsExactly r.schema r.blocks files r.first r.count r.requested

end StatsRead

namespace SSTableInput

/-- What the builders take: sorted rows of a schema of the builder. -/
structure Accepted (r : SSTableInput) : Prop where
  schema : r.schema.FromBuilder
  nonempty : r.rows ≠ []
  valid : ∀ row ∈ r.rows, ValidRow r.schema row
  sorted : SortedRows r.rows
  targets : r.targets.Positive
  options : r.options.Accepted

/-- The counters of blocks, of the rows of a block and of columns are 32 bits wide. -/
structure StatsCountable (r : SSTableInput) : Prop where
  blocks : r.table.blocks.length < 2 ^ 32
  rows : ∀ block ∈ r.table.blocks, block.length < 2 ^ 32
  columns : r.schema.size < 2 ^ 32

/-- What a build that succeeded wrote. -/
theorem Accepted.files_of_build {r : SSTableInput} (h : r.Accepted)
    (hrows : ∀ block ∈ r.table.blocks, block.length < 2 ^ 32) {result : SSTableBuildResult}
    {files : SSTableFiles} (hbuild : r.build = .ok (result, files)) :
    result = buildResult r.table.blocks ∧ files = r.table.files r.schema r.options ∧
      files.stats.length ≤ maxFileSize := by
  obtain ⟨layout, schema, options, targets, rows⟩ := r
  cases layout with
  | row =>
    obtain ⟨_, _, _, _, hfits, _⟩ := shaped_of_buildRowSSTable hbuild
    have hcount : ∀ block ∈ Splitting.split (rowBlockFull targets.rowBlockBytes) rows,
        0 < u32 block.length := by
      intro block hblock
      have hpos := List.length_pos_of_ne_nil (Splitting.ne_nil_of_mem_split hblock)
      rwa [u32_of_lt (hrows block hblock)]
    have heq := (buildRowSSTable_returns h.options h.targets.1 h.nonempty h.valid h.sorted
      hcount).eq_of_ok hbuild
    cases heq
    exact ⟨rfl, rfl, hfits⟩
  | column =>
    obtain ⟨_, _, _, _, hfits, _⟩ := shaped_of_buildColumnSSTable hbuild
    have hnarrow : schema.size < 2 ^ 16 := by
      by_contra hwide
      exact buildColumnSSTable_too_wide (not_lt.mp hwide) h.valid _ hbuild
    have heq := (buildColumnSSTable_returns h.schema.wellFormed hnarrow h.options h.targets.2.1
      h.targets.2.2 h.nonempty h.valid h.sorted hrows).eq_of_ok hbuild
    cases heq
    exact ⟨rfl, rfl, hfits⟩

theorem mem_rows_of_mem_blocks {r : SSTableInput} {rows : List Row} (hrows : rows ∈ r.table.blocks)
    {row : Row} (hrow : row ∈ rows) : row ∈ r.rows := by
  rw [← r.table_rows]
  exact List.mem_flatten_of_mem hrows hrow

end SSTableInput

theorem StatsRead.Accepted.input {r : StatsRead} (h : r.Accepted) : r.toSSTableInput.Accepted :=
  ⟨h.schema, h.nonempty, h.valid, h.sorted, h.targets, h.options⟩

/-- A column has statistics when it is numeric and not the key. -/
private theorem find?_statsColumns_isSome (schema : Schema) (columnIdx : Nat) :
    ((statsColumns schema).find? fun c => c.1 == columnIdx).isSome ↔
      ∃ column, schema.columns[columnIdx]? = some column ∧ column.isKey = false ∧
        (column.type = .int64 ∨ column.type = .double) := by
  rw [List.find?_isSome]
  constructor
  · rintro ⟨⟨i, type⟩, hmem, heq⟩
    obtain rfl : i = columnIdx := by simpa using heq
    obtain ⟨column, hget, hkey, htype, hnumeric⟩ := mem_statsColumns.mp hmem
    refine ⟨column, hget, hkey, ?_⟩
    cases type with
    | int64 => exact Or.inl htype
    | double => exact Or.inr htype
    | string => cases hnumeric
  · rintro ⟨column, hget, hkey, htype⟩
    have hnumeric : column.type.isNumeric = true := by
      rcases htype with h | h <;> rw [h] <;> rfl
    exact ⟨(columnIdx, column.type), mem_statsColumns.mpr ⟨column, hget, hkey, rfl, hnumeric⟩,
      by simp⟩

/-- The statistics that are read back are those of the blocks, one entry a requested numeric
column. The range has at least one block, as `read_numeric_stats_range` answers an empty one with
no columns at all, and no counter overflows. -/
theorem numeric_stats_exact (r : StatsRead) (h : r.Accepted) (hcountable : r.StatsCountable)
    (hcount : 0 < r.count) : r.Exact := by
  intro result files hbuild
  obtain ⟨-, rfl, hfits⟩ := h.input.files_of_build hcountable.rows hbuild
  have hstats : (r.table.files r.schema r.options).stats = statsFileBytes r.schema r.blocks :=
    r.table.stats_files r.schema r.options
  have hvalid : ∀ rows ∈ r.blocks, ∀ row ∈ rows, ValidRow r.schema row :=
    fun rows hrows row hrow => h.valid row (SSTableInput.mem_rows_of_mem_blocks hrows hrow)
  obtain ⟨range, hread, -, -, hcolumns⟩ := readNumericStatsRange_eq hstats hfits hvalid
    hcountable.columns hcountable.blocks hcount h.range r.requested
  refine ⟨range, hread, fun columnIdx => ?_, fun columnIdx stats hstatsOf => ?_⟩
  · rw [hcolumns, ← find?_statsColumns_isSome]
    by_cases hmem : columnIdx ∈ r.requested
    · rw [if_pos hmem, Option.isSome_map, and_iff_right hmem]
    · rw [if_neg hmem]
      simp [hmem]
  · rw [hcolumns] at hstatsOf
    split at hstatsOf
    · obtain ⟨column, hfind, rfl⟩ := Option.map_eq_some_iff.mp hstatsOf
      have hcolumn := List.mem_of_find?_eq_some hfind
      obtain rfl : column.1 = columnIdx := by simpa using List.find?_some hfind
      refine ⟨?_, ?_⟩
      · have hrange := h.range
        rw [List.length_map, List.length_take, List.length_drop]
        omega
      · rw [List.forall₂_map_left_iff, List.forall₂_same]
        intro rows hrows
        have hmem := List.mem_of_mem_drop (List.mem_of_mem_take hrows)
        exact (exact_columnStats hcolumn (hvalid rows hmem)).1
    · cases hstatsOf

/-! ## Beyond the counters -/

/-- The index of a build: its counters are those of the blocks and columns. -/
theorem load_of_blocks {schema : Schema} {blocks : List (List Row)} {files : SSTableFiles}
    (hstats : files.stats = statsFileBytes schema blocks)
    (hfits : files.stats.length ≤ maxFileSize)
    (hvalid : ∀ rows ∈ blocks, ∀ row ∈ rows, ValidRow schema row) :
    loadNumericStatsIndex files =
      .ok (u32 blocks.length, descriptorsOf (countedColumns schema) (u32 blocks.length)) := by
  have hload := loadNumericStatsIndex_eq
    ((statsFile_of_valid blocks hvalid).trans (congrArg Except.ok hstats.symm)) hfits
  rwa [List.length_map] at hload

/-- The first of many single-row blocks. -/
def keyBlocks (count : Nat) : StatsRead where
  layout := .row
  schema := keySchema
  options := {}
  targets := ⟨1, 1, 1⟩
  rows := keyRows count
  first := 0
  count := 1
  requested := [0]

private theorem keyBlocks_accepted {count : Nat} (hpos : 0 < count) (hcount : count ≤ 2 ^ 40) :
    (keyBlocks count).Accepted where
  schema := keySchema_fromBuilder
  nonempty := List.ne_nil_of_length_pos (by rwa [keyBlocks, length_keyRows])
  valid := valid_keyRows count
  sorted := (strictRows_keyRows (by omega)).sorted
  targets := (by decide : (BlockTargets.mk 1 1 1).Positive)
  options := (by decide : SparseIndexOptions.Accepted {})
  range := by
    change 0 + 1 ≤ (tableOf .row keySchema ⟨1, 1, 1⟩ (keyRows count)).blocks.length
    rw [blocks_keyRows, List.length_map, length_keyRows]
    exact hpos

/-- When the block counter is back at 0, the first block is out of bounds. -/
private theorem keyBlocks_not_exact {count : Nat} (hpos : 0 < count) (hcount : count ≤ 2 ^ 40)
    (hwrap : u32 count = 0) : ¬ (keyBlocks count).Exact := by
  intro hexact
  obtain ⟨range, hread, -⟩ := hexact _ _ (keyRoundTrip_build hpos hcount)
  have hload := @load_of_blocks keySchema ((keyRows count).map fun row => [row])
    (rowSSTable keySchema {} ((keyRows count).map fun row => [row])) rfl
    (fit_keyRows {} hcount).stats (by
      intro rows hrows row hrow
      obtain ⟨key, hkey, rfl⟩ := List.mem_map.mp hrows
      obtain rfl := List.mem_singleton.mp hrow
      exact valid_keyRows count row hkey)
  rw [List.length_map, length_keyRows, hwrap] at hload
  unfold readNumericStatsRange at hread
  rw [if_neg (by simp [keyBlocks]), hload, Result.ok_bind] at hread
  simp [keyBlocks] at hread

/-! ## More columns than a counter counts -/

/-- A name of eight bytes for every column. -/
def wideCall (i : Nat) : SchemaBuilder.Call := ⟨ByteFormat.leBytes 8 i, .int64, false, true⟩

def wideColumn (i : Nat) : Column :=
  { name := ByteFormat.leBytes 8 i, type := .int64, isKey := false, nullable := true }

/-- A key and that many numbers. -/
def wideSchema (count : Nat) : Schema :=
  ⟨{ name := [107], type := .int64, isKey := true, nullable := false } ::
    (List.range count).map wideColumn⟩

private theorem leBytes_injective {i j : Nat} (hi : i < 2 ^ 40) (hj : j < 2 ^ 40)
    (h : ByteFormat.leBytes 8 i = ByteFormat.leBytes 8 j) : i = j := by
  have hvalue := congrArg ByteFormat.leValue h
  rwa [ByteFormat.leValue_leBytes_of_lt (by omega), ByteFormat.leValue_leBytes_of_lt (by omega)]
    at hvalue

private theorem callAll_wide {count : Nat} (hcount : count ≤ 2 ^ 40) :
    ∃ names : List Bytes,
      (∀ name ∈ names, name = [107] ∨ ∃ i < count, name = ByteFormat.leBytes 8 i) ∧
      SchemaBuilder.callAll (⟨[107], .int64, true, false⟩ :: (List.range count).map wideCall) =
        { columns := (wideSchema count).columns, columnNames := names, keySeen := true } := by
  induction count with
  | zero => exact ⟨[[107]], by simp, rfl⟩
  | succ count ih =>
    obtain ⟨names, hnames, hcall⟩ := ih (by omega)
    have hfresh : ByteFormat.leBytes 8 count ∉ names := by
      intro hmem
      rcases hnames _ hmem with hkey | ⟨i, hi, heq⟩
      · have hlength := congrArg List.length hkey
        simp at hlength
      · have hsame := leBytes_injective (by omega) (by omega) heq
        omega
    refine ⟨ByteFormat.leBytes 8 count :: names, ?_, ?_⟩
    · intro name hname
      rcases List.mem_cons.mp hname with rfl | hin
      · exact Or.inr ⟨count, Nat.lt_succ_self count, rfl⟩
      · rcases hnames name hin with hkey | ⟨i, hi, heq⟩
        · exact Or.inl hkey
        · exact Or.inr ⟨i, Nat.lt_succ_of_lt hi, heq⟩
    · rw [List.range_succ, List.map_append, ← List.cons_append]
      unfold SchemaBuilder.callAll at hcall ⊢
      rw [List.foldl_append, hcall]
      simp [SchemaBuilder.call, SchemaBuilder.addColumn, wideCall, hfresh, wideSchema,
        List.range_succ, wideColumn]

private theorem wideSchema_fromBuilder {count : Nat} (hcount : count ≤ 2 ^ 40) :
    (wideSchema count).FromBuilder := by
  obtain ⟨names, -, hcall⟩ := callAll_wide hcount
  refine ⟨⟨[107], .int64, true, false⟩ :: (List.range count).map wideCall, ?_⟩
  rw [hcall]
  simp [SchemaBuilder.build, wideSchema]

def wideRow (count : Nat) : Row := some (.int64 0) :: List.replicate count none

private theorem validRow_wideRow (count : Nat) : ValidRow (wideSchema count) (wideRow count) where
  key := ⟨0, _, rfl⟩
  typed := by
    have hnone : ∀ types : List ValueType,
        List.Forall₂ HasType types (List.replicate types.length none) := by
      intro types
      induction types with
      | nil => exact .nil
      | cons type types ih => exact .cons (by simp [HasType]) ih
    refine .cons (by intro v hv; cases hv; rfl) ?_
    have htail := hnone (((List.range count).map wideColumn).map Column.type)
    rwa [List.length_map, List.length_map, List.length_range] at htail

private theorem statsColumns_wide (count : Nat) :
    (statsColumns (wideSchema count)).length = count := by
  unfold statsColumns wideSchema
  rw [List.length_map, List.zipIdx_cons, List.filter_cons_of_neg (by simp),
    List.filter_eq_self.mpr, List.length_zipIdx, List.length_map, List.length_range]
  rintro ⟨column, i⟩ hmem
  obtain ⟨j, -, rfl⟩ := List.mem_map.mp (List.fst_mem_of_mem_zipIdx hmem)
  rfl

/-- One row of many columns, read back in the first of them. -/
def wideBlock (count : Nat) : StatsRead where
  layout := .row
  schema := wideSchema count
  options := {}
  targets := ⟨1, 1, 1⟩
  rows := [wideRow count]
  first := 0
  count := 1
  requested := [1]

private theorem blocks_wideBlock (count : Nat) :
    Splitting.split (rowBlockFull 1) [wideRow count] = [[wideRow count]] := by
  refine Splitting.split_singletons _ (fun row => ?_) _
  have hlength := length_rowBytes_pos row
  simp only [rowBlockFull, rowBlockBytes, List.flatMap_cons, List.flatMap_nil, List.append_nil,
    decide_eq_true_eq]
  omega

private theorem fit_wideBlock {count : Nat} (hcount : count ≤ 2 ^ 40) :
    (rowSSTable (wideSchema count) {} [[wideRow count]]).Fit := by
  have hvalues : ((List.replicate count none).flatMap valueBytes).length = 0 := by
    simp [List.length_flatMap, valueBytes]
  have hbody : ((statsColumns (wideSchema count)).flatMap fun column =>
      statsEntryBytes (columnStats [wideRow count] column)).length =
        count * numericStatsEntrySize := by
    rw [ByteFormat.length_records _ fun column hcolumn =>
      length_statsEntryBytes hcolumn (by simpa using validRow_wideRow count), statsColumns_wide]
  have hdescriptors : ∀ start : Nat,
      ((((statsColumns (wideSchema count)).take (u32 count)).zipIdx.map fun c =>
        statsDescriptor start 1 c.2 c.1).flatten).length ≤ count * statsColumnDescriptorSize := by
    intro start
    rw [← List.flatMap_def, ByteFormat.length_records _ fun c _ =>
      length_statsDescriptor start 1 c.2 c.1, List.length_zipIdx]
    exact Nat.mul_le_mul_right _ ((List.length_take_le' _ _).trans_eq (statsColumns_wide count))
  refine ⟨?_, ?_, ?_, ?_, ?_⟩
  · simp only [rowSSTable, List.flatMap_cons, List.flatMap_nil, List.append_nil, rowBlockBytes,
      rowBytes, wideRow, List.tail_cons, List.length_append, length_i64Bytes, Bitmap.length_mark,
      List.length_replicate, hvalues, Bitmap.byteCount, maxFileSize]
    omega
  · simp [rowSSTable, rowMetas, Splitting.mapPrefix, RowBlockMeta.length_encode, maxFileSize,
      rowBlockMetaOnDiskSize]
  · have hcandidates : (indexCandidates [[wideRow count]]).length = 1 := by
      rw [indexCandidates, Splitting.length_mapPrefix, List.length_singleton]
    have hle := (List.length_filter_le (fun entry : SparseIndexEntry =>
      entry.blockId % chooseSparseIndexStep (u32 [[wideRow count]].length) {} == 0)
        (indexCandidates [[wideRow count]])).trans hcandidates.le
    simp only [rowSSTable, sparseIndexFile, sparseIndexEntries, maxFileSize]
    rw [ByteFormat.length_records _ fun e _ => e.length_encode, sparseIndexEntryOnDiskSize]
    omega
  · simp [rowSSTable, infoFile, maxFileSize]
  · have hone : u32 [[wideRow count]].length = 1 := rfl
    simp only [rowSSTable, statsFileBytes, hone, statsColumns_wide, List.length_append,
      List.flatMap_cons, List.flatMap_nil, List.append_nil, hbody, ByteFormat.length_leBytes,
      maxFileSize]
    have hle := hdescriptors (statsHeaderSize + u32 count * statsColumnDescriptorSize)
    simp only [statsColumnDescriptorSize, numericStatsEntrySize] at hle ⊢
    omega

private theorem wideBlock_build {count : Nat} (hcount : count ≤ 2 ^ 40) :
    buildSSTable .row (wideSchema count) {} ⟨1, 1, 1⟩ [wideRow count] =
      .ok (buildResult [[wideRow count]], rowSSTable (wideSchema count) {} [[wideRow count]]) := by
  have hreturns := @buildRowSSTable_returns (wideSchema count) {} 1 [wideRow count]
    (by decide) Nat.one_pos (List.cons_ne_nil _ _) (by simpa using validRow_wideRow count)
    (List.pairwise_singleton _ _) (by
      intro block hblock
      rw [blocks_wideBlock, List.mem_singleton] at hblock
      subst hblock
      exact Nat.one_pos)
  rw [blocks_wideBlock] at hreturns
  exact hreturns.eq_ok_of_fits (fit_wideBlock hcount)

private theorem wideBlock_accepted {count : Nat} (hcount : count ≤ 2 ^ 40) :
    (wideBlock count).Accepted where
  schema := wideSchema_fromBuilder hcount
  nonempty := List.cons_ne_nil _ _
  valid := by
    intro row hrow
    obtain rfl := List.mem_singleton.mp hrow
    exact validRow_wideRow count
  sorted := List.pairwise_singleton _ _
  targets := (by decide : (BlockTargets.mk 1 1 1).Positive)
  options := (by decide : SparseIndexOptions.Accepted {})
  range := by
    have hblocks : (wideBlock count).blocks = [[wideRow count]] := blocks_wideBlock count
    rw [hblocks]
    exact le_rfl

/-- When the column counter is back at 0, no column has a descriptor. -/
private theorem wideBlock_not_exact {count : Nat} (hpos : 0 < count) (hcount : count ≤ 2 ^ 40)
    (hwrap : u32 count = 0) : ¬ (wideBlock count).Exact := by
  intro hexact
  obtain ⟨range, hread, hcolumns, -⟩ := hexact _ _ (wideBlock_build hcount)
  have hload := @load_of_blocks (wideSchema count) [[wideRow count]]
    (rowSSTable (wideSchema count) {} [[wideRow count]]) rfl (fit_wideBlock hcount).stats
    (by simpa using validRow_wideRow count)
  have hone : u32 [[wideRow count]].length = 1 := rfl
  have hnone : descriptorsOf (countedColumns (wideSchema count)) 1 = [] := by
    rw [countedColumns, statsColumns_wide, hwrap, List.take_zero]
    rfl
  rw [hone, hnone] at hload
  have hempty := @readNumericStatsRange_of_columns _ 1 [] hload 0 1 Nat.one_pos le_rfl
    (fun _ => none) (fun _ => rfl) [1]
  have hrange : range.column 1 = none := by
    have heq := hread.symm.trans hempty
    cases heq
    rfl
  have hrequested := (hcolumns 1).mpr ⟨List.mem_singleton_self 1, wideColumn 0, by
    simp [wideBlock, wideSchema, hpos], rfl, Or.inl rfl⟩
  rw [hrange] at hrequested
  cases hrequested

/-! ## Small ranges -/

/-- Two single-row blocks with a NaN and a NULL, and a range of the first of them. -/
def numberedRange (count : Nat) : StatsRead where
  layout := .column
  schema := ⟨[⟨[107], .int64, true, false⟩, ⟨[110], .int64, false, true⟩,
    ⟨[100], .double, false, true⟩]⟩
  options := {}
  targets := ⟨1, 1, 1⟩
  rows := [[some (.int64 1), some (.int64 7), some (.double ⟨0x7FF8000000000000⟩)],
    [some (.int64 2), none, some (.double ⟨0x3FF8000000000000⟩)]]
  first := 0
  count := count
  requested := [1, 2]

private theorem numberedRange_accepted {count : Nat} (hcount : count ≤ 2) :
    (numberedRange count).Accepted where
  schema := ⟨[⟨[107], .int64, true, false⟩, ⟨[110], .int64, false, true⟩,
    ⟨[100], .double, false, true⟩], rfl⟩
  nonempty := List.cons_ne_nil _ _
  valid := by
    have hcell : ∀ v : Value, HasType v.type (some v) := by
      intro v w hw
      cases hw
      rfl
    intro row hrow
    simp only [numberedRange, List.mem_cons, List.not_mem_nil, or_false] at hrow
    rcases hrow with rfl | rfl
    · exact ⟨⟨1, _, rfl⟩, .cons (hcell _) (.cons (hcell _) (.cons (hcell _) .nil))⟩
    · exact ⟨⟨2, _, rfl⟩, .cons (hcell _) (.cons (by simp [HasType]) (.cons (hcell _) .nil))⟩
  sorted := by
    refine List.pairwise_pair.mpr ?_
    decide
  targets := (by decide : (BlockTargets.mk 1 1 1).Positive)
  options := (by decide : SparseIndexOptions.Accepted {})
  range := by
    have hblocks : (numberedRange count).blocks.length = 2 := rfl
    rw [hblocks]
    exact (Nat.zero_add count).trans_le hcount

private theorem counted_numberedRange (count : Nat) : (numberedRange count).table.Counted :=
  counted_tableOf _ _ _ (by decide : 2 + 7 < 2 ^ 32)

theorem numeric_stats_exact_two : (numberedRange 2).Exact :=
  numeric_stats_exact (numberedRange 2) (numberedRange_accepted le_rfl)
    ⟨(counted_numberedRange 2).blocks, (counted_numberedRange 2).rows, (by decide : 3 < 2 ^ 32)⟩
    Nat.two_pos

/-- A range of no block has no entry for any column. -/
private theorem numberedRange_zero_not_exact : ¬ (numberedRange 0).Exact := by
  intro hexact
  have hbuilt : (buildSSTable .column (numberedRange 0).schema {} ⟨1, 1, 1⟩
      (numberedRange 0).rows).isOk = true := by decide +kernel
  cases hbuild : buildSSTable .column (numberedRange 0).schema {} ⟨1, 1, 1⟩
      (numberedRange 0).rows with
  | error e => simp [hbuild, Except.isOk, Except.toBool] at hbuilt
  | ok out =>
    obtain ⟨range, hread, hcolumns, -⟩ := hexact out.1 out.2 hbuild
    have hnone : readNumericStatsRange out.2 0 0 [1, 2] = .ok ⟨0, 0, []⟩ := if_pos (Or.inl rfl)
    cases hread.symm.trans hnone
    have hrequested := (hcolumns 1).mpr
      ⟨List.mem_cons_self, ⟨[110], .int64, false, true⟩, rfl, rfl, Or.inl rfl⟩
    cases hrequested

/-- Each of the three bounds is needed: a range of no block, 2^32 blocks and
2^32 columns. -/
theorem numeric_stats_not_exact :
    ((numberedRange 0).Accepted ∧ ¬ (numberedRange 0).Exact) ∧
      ((keyBlocks (2 ^ 32)).Accepted ∧ ¬ (keyBlocks (2 ^ 32)).Exact) ∧
      ((wideBlock (2 ^ 32)).Accepted ∧ ¬ (wideBlock (2 ^ 32)).Exact) := by
  have hpos : 0 < 2 ^ 32 := Nat.two_pow_pos 32
  have hcount : 2 ^ 32 ≤ 2 ^ 40 := Nat.pow_le_pow_right Nat.two_pos (by omega)
  refine ⟨⟨numberedRange_accepted (Nat.zero_le 2), numberedRange_zero_not_exact⟩,
    ⟨keyBlocks_accepted hpos hcount, ?_⟩, wideBlock_accepted hcount, ?_⟩
  · exact keyBlocks_not_exact hpos hcount rfl
  · exact wideBlock_not_exact hpos hcount rfl

end Htap.Properties
