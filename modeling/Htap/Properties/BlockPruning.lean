import Htap.Executor.PairTable
import Htap.Properties.CachedMetadata
import Htap.Properties.NumericStatistics

/-!
The blocks that `DataSkippingBlockPruner` leaves of an SSTable, under the filter that the executor
makes of WHERE and the statistics that the metadata cache reads back. A block with a row on which
WHERE is true is left.
-/

namespace Htap.Properties

open Storage SSTable Read Cursor Words Executor Htap.Tree Htap.Tree.Session Htap.Parser

/-- Rows that are written to an SSTable, a range of keys to be read, and a WHERE. -/
structure Pruning extends SSTableInput where
  range : KeyRange
  statement : BoundSelectStatement

namespace Pruning

/-- The filter that goes with the scan. -/
def filter (p : Pruning) : DataSkippingFilter := buildDataSkippingFilter p.statement

/-- Where a block has a row on which WHERE is true, each of the three filters keeps the block. -/
def Keeps (p : Pruning) (stats : NumericStatsRange) : Prop :=
  ∀ i rows, p.table.blocks[i]? = some rows → (∃ row ∈ rows, holds p.statement row = true) →
    (∀ blocks : List RowBlockMeta, ∀ block ∈ blocks, block.blockId = i →
      block ∈ filterRowBlocks blocks stats p.filter) ∧
    (∀ blocks : List ColumnBlockMeta, ∀ block ∈ blocks, block.blockId = i →
      block ∈ filterColumnBlocks blocks stats p.filter) ∧
    ∀ blockIds, i ∈ blockIds → i ∈ filterLogicalBlockIds blockIds stats p.filter

/-- Once the SSTable is built, a window of blocks is selected for any range, whatever was read
through the metadata cache before; and the statistics that are read for it keep every block with a
row on which WHERE is true. No statistics are read for an empty window. -/
def HidesNothing (p : Pruning) : Prop :=
  ∀ result files, p.build = .ok (result, files) →
  ∀ (disk : Disk) (info : SSTableInfo), disk.sstables info.path = some files →
    info.numBlocks = result.numBlocks →
  ∀ pageBlocks maxCachedBytes created, SSTableMetadataCache.createWith disk info
      (u32 p.schema.size) pageBlocks maxCachedBytes = .ok created →
  ∀ reads answers cache, MetadataRead.cachedAll disk created reads = .ok (answers, cache) →
  ∃ window, selectMetadataRange cache.sparseIndex p.range info.numBlocks = .ok window ∧
    (window.blockCount ≠ 0 → ∃ stats cache',
      cache.readNumericStatsRange disk window.firstBlockId window.blockCount
        p.filter.referencedColumns = .ok (stats, cache') ∧ p.Keeps stats)

private theorem mem_filter_of {α : Type} {items : List α} {a : α} (ha : a ∈ items) {stop : Bool}
    {test : α → Bool} (htest : test a = true) : a ∈ if stop then items else items.filter test := by
  split
  · exact ha
  · exact List.mem_filter.mpr ⟨ha, htest⟩

private theorem keeps_of_maySatisfy {p : Pruning} {stats : NumericStatsRange}
    (hfew : p.table.blocks.length < 2 ^ 32)
    (h : ∀ i rows, p.table.blocks[i]? = some rows →
      (∃ row ∈ rows, holds p.statement row = true) → maySatisfy i stats p.filter = true) :
    p.Keeps stats := by
  intro i rows hget hrow
  have hmay := h i rows hget hrow
  have hi : u32 i = i := u32_of_lt ((List.getElem?_eq_some_iff.mp hget).1.trans hfew)
  refine ⟨?_, ?_, ?_⟩
  · rintro blocks block hblock rfl
    exact mem_filter_of hblock (hi.symm ▸ hmay)
  · rintro blocks block hblock rfl
    exact mem_filter_of hblock (hi.symm ▸ hmay)
  · intro blockIds hmem
    exact mem_filter_of hmem hmay

end Pruning

/-- What a new metadata cache holds. -/
private theorem of_createWith {disk : Disk} {info : SSTableInfo} {files : SSTableFiles}
    {columnsCount pageBlocks maxCachedBytes : Nat} {cache : SSTableMetadataCache}
    (hdisk : disk.sstables info.path = some files)
    (h : SSTableMetadataCache.createWith disk info columnsCount pageBlocks maxCachedBytes =
      .ok cache) :
    cache.info = info ∧ readSparseIndex files = .ok cache.sparseIndex ∧
      cache.Coherent disk files := by
  rw [SSTableMetadataCache.createWith, sstableFiles, hdisk, Result.ok_bind] at h
  obtain ⟨index, hindex, h⟩ := Result.bind_eq_ok.mp h
  split at h
  · cases h
  rename_i hpage
  split at h
  · cases h
  cases h
  exact ⟨rfl, hindex, hdisk, Nat.pos_of_ne_zero hpage, by simp [LruCache.Coherent]⟩

/-- Pruning hides no row on which WHERE is true, for any range of keys, swapped bounds and equal
keys included. Neither the rows nor the literals of WHERE may be NaN, which compares as equal to
every number while the interval tests are false of it; and past the counters of the stats file the
statistics of one column are taken for those of another. -/
theorem pruning_hides_nothing (p : Pruning) (h : p.Accepted) (hcountable : p.StatsCountable)
    (hnumbers : Numbers p.rows) (hliterals : p.filter.Ordered) : p.HidesNothing := by
  intro result files hbuild disk info hdisk hinfo pageBlocks maxCachedBytes created hcreate reads
    answers cache hreads
  obtain ⟨rfl, rfl, hfits⟩ := h.files_of_build hcountable.rows hbuild
  obtain ⟨hcreated, hindex, hcoherent⟩ := of_createWith hdisk hcreate
  obtain ⟨hcoherent', hsame⟩ := coherent_cachedAll hcoherent hreads
  have hcount : info.numBlocks = p.table.blocks.length :=
    hinfo.trans (u32_of_lt hcountable.blocks)
  have hcached : cache.info.numBlocks = p.table.blocks.length := by
    rw [hsame.1, hcreated, hcount]
  obtain ⟨entries, hentries, hmem⟩ := p.table.exists_sparseIndex p.schema p.options
  rw [hindex] at hentries
  cases hentries
  have hids : ∀ entry ∈ cache.sparseIndex, entry.blockId < info.numBlocks := by
    intro entry hentry
    rw [hsame.2.2.2] at hentry
    obtain ⟨rows, hget, -⟩ := mem_indexCandidates hcountable.blocks (hmem entry hentry)
    rw [hcount]
    exact (List.getElem?_eq_some_iff.mp hget).1
  obtain ⟨window, hselect, hwithin⟩ := selectMetadataRange_within hids p.range
  refine ⟨window, hselect, fun hsome => ?_⟩
  rw [hcount] at hwithin
  have hvalid : ∀ rows ∈ p.table.blocks, ∀ row ∈ rows, ValidRow p.schema row :=
    fun rows hrows row hrow => h.valid row (SSTableInput.mem_rows_of_mem_blocks hrows hrow)
  obtain ⟨stats, cache', hread, hstats, -, -⟩ := readNumericStatsRange_of_stats
    (p.table.stats_files p.schema p.options) hfits hvalid hcountable.columns hcountable.blocks
    hcoherent' hcached (Nat.pos_of_ne_zero hsome) hwithin p.filter.referencedColumns
  refine ⟨stats, cache', hread, Pruning.keeps_of_maySatisfy hcountable.blocks ?_⟩
  rintro i rows hget ⟨row, hrow, hholds⟩
  have hrows := List.mem_of_getElem? hget
  have hnan : ∀ r ∈ rows, NoNaN r :=
    fun r hr => hnumbers r (SSTableInput.mem_rows_of_mem_blocks hrows hr)
  have hpasses := passes_buildDataSkippingFilter hliterals (hnan row hrow) hholds
  exact maySatisfy_of_passes hstats hliterals hget (hvalid rows hrows) hnan hrow hpasses

/-- Three rows in blocks of their own, of which the last two pass `v > 15`. -/
def pairPruning : Pruning where
  layout := .column
  schema := pairSchema
  options := {}
  targets := ⟨1, 1, 1⟩
  rows := [(1, 10), (2, 20), (3, 30)].map pairRow
  range := ⟨some 2, none⟩
  statement := boundSelectIdAbove

theorem pairPruning_accepted : pairPruning.Accepted where
  schema := pairSchema_fromBuilder
  nonempty := List.cons_ne_nil _ _
  valid := by
    intro row hrow
    obtain ⟨pair, -, rfl⟩ := List.mem_map.mp hrow
    exact validRow_pairRow pair
  sorted := (by decide +kernel : StrictRows pairPruning.rows).sorted
  targets := (by decide : (BlockTargets.mk 1 1 1).Positive)
  options := (by decide : SparseIndexOptions.Accepted {})

theorem pruning_hides_nothing_pairs : pairPruning.HidesNothing :=
  pruning_hides_nothing pairPruning pairPruning_accepted
    ⟨by decide +kernel, by decide +kernel, by decide⟩ (numbers_pairs [(1, 10), (2, 20), (3, 30)])
    ordered_selectIdAbove

/-- What there is to show of an SSTable whose first block is dropped. -/
private theorem not_hidesNothing {p : Pruning} {result : SSTableBuildResult} {files : SSTableFiles}
    (hbuild : p.build = .ok (result, files)) {created : SSTableMetadataCache}
    (hcreate : SSTableMetadataCache.createWith ⟨fun _ => some files, none⟩
      (p.info result files 0 0 []) (u32 p.schema.size) 256 (4 * 1024 * 1024) = .ok created)
    {first : Nat} (hselect : selectMetadataRange created.sparseIndex p.range result.numBlocks =
      .ok ⟨first, 1⟩)
    {stats : NumericStatsRange} {cache' : SSTableMetadataCache}
    (hread : created.readNumericStatsRange ⟨fun _ => some files, none⟩ first 1
      p.filter.referencedColumns = .ok (stats, cache'))
    {rows : List Row} (hget : p.table.blocks[0]? = some rows)
    (hholds : ∃ row ∈ rows, holds p.statement row = true)
    (hdropped : filterLogicalBlockIds [0] stats p.filter = []) : ¬ p.HidesNothing := by
  intro h
  obtain ⟨window, hwindow, hkeeps⟩ := h result files hbuild _ _ rfl rfl 256 (4 * 1024 * 1024)
    created hcreate [] [] created rfl
  have hsame := Except.ok.inj (hselect.symm.trans hwindow)
  subst hsame
  obtain ⟨stats', last, hread', hkeeps⟩ := hkeeps Nat.one_ne_zero
  rw [hread] at hread'
  cases hread'
  obtain ⟨-, -, hlogical⟩ := hkeeps 0 rows hget hholds
  have hmem := hlogical [0] (List.mem_singleton_self 0)
  rw [hdropped] at hmem
  cases hmem

/-! ## A literal that is NaN -/

/-- One row, and `v >= NaN`. -/
def nanPruning : Pruning where
  layout := .row
  schema := pairSchema
  options := {}
  targets := ⟨1, 1, 1⟩
  rows := [pairRow (1, 10)]
  range := KeyRange.full
  statement := { boundSelectIdAbove with
    whereExpression := some (.binary .greaterEqual (.column 1 .int64)
      (.literal (some (.double ⟨0x7FF8000000000000⟩)) .double)) }

/-- Which of the blocks are left. -/
private def prunedByNaN : Result (MetadataBlockRange × List Nat) := do
  let built ← nanPruning.build
  let created ← SSTableMetadataCache.createWith ⟨fun _ => some built.2, none⟩
    (nanPruning.info built.1 built.2 0 0 []) (u32 pairSchema.size) 256 (4 * 1024 * 1024)
  let window ← selectMetadataRange created.sparseIndex nanPruning.range built.1.numBlocks
  let read ← created.readNumericStatsRange ⟨fun _ => some built.2, none⟩ 0 1
    nanPruning.filter.referencedColumns
  return (window, filterLogicalBlockIds [0] read.1 nanPruning.filter)

private theorem nanPruning_accepted : nanPruning.Accepted where
  schema := pairSchema_fromBuilder
  nonempty := List.cons_ne_nil _ _
  valid := by
    intro row hrow
    rw [List.mem_singleton.mp hrow]
    exact validRow_pairRow (1, 10)
  sorted := List.pairwise_singleton _ _
  targets := (by decide : (BlockTargets.mk 1 1 1).Positive)
  options := (by decide : SparseIndexOptions.Accepted {})

private theorem nanPruning_hides : ¬ nanPruning.HidesNothing := by
  have hpruned : prunedByNaN = .ok (⟨0, 1⟩, []) := by decide +kernel
  obtain ⟨⟨result, files⟩, hbuild, hpruned⟩ := Result.bind_eq_ok.mp hpruned
  obtain ⟨created, hcreate, hpruned⟩ := Result.bind_eq_ok.mp hpruned
  obtain ⟨window, hselect, hpruned⟩ := Result.bind_eq_ok.mp hpruned
  obtain ⟨⟨stats, cache'⟩, hread, hpruned⟩ := Result.bind_eq_ok.mp hpruned
  obtain ⟨rfl, hdropped⟩ := Prod.mk.inj (Except.ok.inj hpruned)
  have hget : nanPruning.table.blocks[0]? = some [pairRow (1, 10)] := by decide +kernel
  have hholds : holds nanPruning.statement (pairRow (1, 10)) = true := by decide +kernel
  exact not_hidesNothing hbuild hcreate hselect hread hget ⟨_, List.mem_singleton_self _, hholds⟩
    hdropped

/-! ## More blocks than the stats file counts -/

/-- A key and two numbers. -/
def twoNumbersSchema : Schema :=
  ⟨[{ name := [107], type := .int64, isKey := true, nullable := false },
    { name := [97], type := .int64, isKey := false, nullable := true },
    { name := [98], type := .int64, isKey := false, nullable := true }]⟩

theorem twoNumbersSchema_fromBuilder : twoNumbersSchema.FromBuilder :=
  ⟨[⟨[107], .int64, true, false⟩, ⟨[97], .int64, false, true⟩, ⟨[98], .int64, false, true⟩], rfl⟩

def sevenFive (i : Nat) : Row :=
  [some (.int64 (Int64.ofNat i)), some (.int64 7), some (.int64 5)]

def sevenFives (count : Nat) : List Row := (List.range count).map sevenFive

def selectFives : BoundSelectStatement :=
  { boundSelectIdAbove with
    schema := twoNumbersSchema
    whereExpression := some (.binary .equal (.column 2 .int64)
      (.literal (some (.int64 5)) .int64)) }

/-- A block for each of the rows, and `b = 5`. -/
def manyBlocks (count : Nat) : Pruning where
  layout := .row
  schema := twoNumbersSchema
  options := {}
  targets := ⟨1, 1, 1⟩
  rows := sevenFives count
  range := KeyRange.full
  statement := selectFives

private theorem valid_sevenFives (count : Nat) :
    ∀ row ∈ sevenFives count, ValidRow twoNumbersSchema row := by
  intro row hrow
  obtain ⟨i, -, rfl⟩ := List.mem_map.mp hrow
  exact validRow_of_validateRow twoNumbersSchema_fromBuilder.wellFormed rfl

private theorem manyBlocks_accepted {count : Nat} (hpos : 0 < count) (hcount : count ≤ 2 ^ 40) :
    (manyBlocks count).Accepted where
  schema := twoNumbersSchema_fromBuilder
  nonempty := by
    apply List.ne_nil_of_length_pos
    simpa [manyBlocks, sevenFives] using hpos
  valid := valid_sevenFives count
  sorted := (strictRows_numbered (fun _ => rfl) (by omega)).sorted
  targets := (by decide : (BlockTargets.mk 1 1 1).Positive)
  options := (by decide : SparseIndexOptions.Accepted {})

/-- The blocks, and the files of the build. -/
private def sevenFiveBlocks (count : Nat) : List (List Row) :=
  (sevenFives count).map fun row => [row]

private def sevenFiveFiles (count : Nat) : SSTableFiles :=
  rowSSTable twoNumbersSchema {} (sevenFiveBlocks count)

private theorem blocks_manyBlocks (count : Nat) :
    (manyBlocks count).table.blocks = sevenFiveBlocks count := split_rowBlockFull_one _

private theorem short_sevenFives (count : Nat) :
    ∀ row ∈ sevenFives count, (rowBytes row).length ≤ 2 ^ 16 := by
  intro row hrow
  obtain ⟨i, -, rfl⟩ := List.mem_map.mp hrow
  simp [rowBytes, sevenFive, valueBytes, Bitmap.byteCount, Bitmap.mark]

private theorem build_manyBlocks {count : Nat} (hpos : 0 < count) (hcount : count ≤ 2 ^ 40) :
    (manyBlocks count).build = .ok (buildResult (sevenFiveBlocks count), sevenFiveFiles count) := by
  have h := manyBlocks_accepted hpos hcount
  have hlength : (sevenFives count).length ≤ 2 ^ 40 := by simpa [sevenFives] using hcount
  exact buildRowSSTable_singletons h.options h.nonempty h.valid h.sorted
    (by decide : twoNumbersSchema.size ≤ 65535) (short_sevenFives count) hlength

/-- The statistics of the column `a`, and what the entry of a block is taken for. -/
private def sevens (columnIdx : Nat) : NumericBlockStats :=
  ⟨columnIdx, .int64, true, .int64 7, .int64 7⟩

private theorem valid_sevenFiveBlocks (count : Nat) :
    ∀ rows ∈ sevenFiveBlocks count, ∀ row ∈ rows, ValidRow twoNumbersSchema row := by
  intro rows hrows row hrow
  obtain ⟨only, honly, rfl⟩ := List.mem_map.mp hrows
  rw [List.mem_singleton.mp hrow]
  exact valid_sevenFives count only honly

private theorem fits_sevenFiveFiles {count : Nat} (hcount : count ≤ 2 ^ 40) :
    (sevenFiveFiles count).stats.length ≤ maxFileSize := by
  apply length_statsFileBytes_le (valid_sevenFiveBlocks count) (by decide)
  simpa [sevenFiveBlocks, sevenFives] using hcount

/-- Behind the descriptors stand the entries of `a`, all of them alike. -/
private theorem exists_sevens {count : Nat} (hmany : 2 ≤ count) :
    ∃ before after : Bytes, before.length = 67 ∧ (sevenFiveFiles count).stats =
      before ++ statsEntryBytes (sevens 1) ++ after := by
  obtain ⟨n, rfl⟩ := Nat.exists_eq_add_of_le' hmany
  have hcolumn : (statsColumns twoNumbersSchema)[0]? = some (1, .int64) := by decide
  have hstats : (sevenFiveFiles (n + 2)).stats =
      statsFileBytes twoNumbersSchema (sevenFiveBlocks (n + 2)) := rfl
  obtain ⟨before, after, hfile, hlength⟩ :=
    statsFile_window hstats (valid_sevenFiveBlocks (n + 2)) hcolumn
  have hentries : ((sevenFiveBlocks (n + 2)).flatMap fun rows =>
      statsEntryBytes (columnStats rows (1, .int64))) = statsEntryBytes (sevens 1) ++
        (statsEntryBytes (sevens 1) ++ (List.range' 2 n).flatMap fun i =>
          statsEntryBytes (columnStats [sevenFive i] (1, .int64))) := by
    have hrange : List.range (n + 2) = 0 :: 1 :: List.range' 2 n := by
      rw [List.range_eq_range', List.range'_succ, List.range'_succ]
    rw [sevenFiveBlocks, sevenFives, hrange]
    simp only [List.map_cons, List.map_map, List.flatMap_cons, List.flatMap_map]
    rfl
  refine ⟨before ++ statsEntryBytes (sevens 1), ((List.range' 2 n).flatMap fun i =>
    statsEntryBytes (columnStats [sevenFive i] (1, .int64))) ++ after, ?_, ?_⟩
  · rw [List.length_append, hlength, Nat.zero_mul]
    decide
  · rw [hfile, hentries]
    simp only [List.append_assoc]

/-- With one block counted, the statistics of `b` are sought where those of `a` still go on. -/
private theorem read_sevenFiveFiles {count : Nat} (hmany : 2 ≤ count) (hcount : count ≤ 2 ^ 40)
    (hwrap : u32 count = 1) :
    readNumericStatsRange (sevenFiveFiles count) 0 1 [2] = .ok ⟨0, 1, [(2, [sevens 2])]⟩ := by
  obtain ⟨before, after, hlength, hfile⟩ := exists_sevens hmany
  have hload := load_of_blocks rfl (fits_sevenFiveFiles hcount) (valid_sevenFiveBlocks count)
  have hblocks : (sevenFiveBlocks count).length = count := by simp [sevenFiveBlocks, sevenFives]
  rw [hblocks, hwrap] at hload
  have hfind : (descriptorsOf (countedColumns twoNumbersSchema) 1).find?
      (fun d => d.columnIdx == 2) = some ⟨2, .int64, 67, numericStatsEntrySize⟩ := rfl
  have hwindow : readBytes (sevenFiveFiles count).stats (67 + 0 * numericStatsEntrySize)
      (1 * numericStatsEntrySize) = .ok (statsEntryBytes (sevens 1)) := by
    rw [hfile, ← hlength]
    exact readBytes_window before (statsEntryBytes (sevens 1)) after
  have hparse : parse ((readStatsEntry 2 .int64).times 1) (statsEntryBytes (sevens 1)) =
      .ok [sevens 2] := by decide +kernel
  have hcolumn : readStatsColumn (sevenFiveFiles count) 0 1
      (descriptorsOf (countedColumns twoNumbersSchema) 1) 2 = .ok (some [sevens 2]) := by
    rw [readStatsColumn, hfind]
    dsimp only
    rw [hwindow, Result.ok_bind, hparse]
    rfl
  rw [readNumericStatsRange, if_neg (by decide), hload, Result.ok_bind]
  dsimp only
  rw [if_neg (by decide), List.foldlM_cons, hcolumn]
  rfl

private theorem selectMetadataRange_one (index : List SparseIndexEntry) :
    selectMetadataRange index KeyRange.full 1 = .ok ⟨0, 1⟩ := by
  rw [selectMetadataRange, if_neg Nat.one_ne_zero]
  split <;> rfl

private theorem manyBlocks_hides {count : Nat} (hmany : 2 ≤ count) (hcount : count ≤ 2 ^ 40)
    (hwrap : u32 count = 1) : ¬ (manyBlocks count).HidesNothing := by
  have hbuild := build_manyBlocks (Nat.zero_lt_of_lt hmany) hcount
  have hblocks : (sevenFiveBlocks count).length = count := by simp [sevenFiveBlocks, sevenFives]
  have hone : (buildResult (sevenFiveBlocks count)).numBlocks = 1 := by
    rw [buildResult, hblocks, hwrap]
  have hfiles : (manyBlocks count).table.files twoNumbersSchema {} = sevenFiveFiles count := by
    rw [sevenFiveFiles, ← blocks_manyBlocks]
    rfl
  let info := (manyBlocks count).info (buildResult (sevenFiveBlocks count)) (sevenFiveFiles count)
    0 0 []
  let disk : Disk := ⟨fun _ => some (sevenFiveFiles count), none⟩
  have hdisk : disk.sstables info.path =
      some ((manyBlocks count).table.files twoNumbersSchema {}) := by rw [hfiles]
  obtain ⟨created, hcreate, hinfo, -, -, hcoherent⟩ :=
    Table.create_metadataCache hdisk (u32 twoNumbersSchema.size)
  rw [hfiles] at hcoherent
  have hcounted : created.info.numBlocks = 1 := hinfo ▸ hone
  have hselect : selectMetadataRange created.sparseIndex KeyRange.full
      (buildResult (sevenFiveBlocks count)).numBlocks = .ok ⟨0, 1⟩ := by
    rw [hone]
    exact selectMetadataRange_one created.sparseIndex
  have hload := load_of_blocks rfl (fits_sevenFiveFiles hcount) (valid_sevenFiveBlocks count)
  rw [hblocks, hwrap, ← hcounted] at hload
  obtain ⟨column, hreads⟩ := exists_statsColumns hload
  obtain ⟨stats, cache', hread, hdirect, -, -⟩ :=
    SSTableMetadataCache.readNumericStatsRange_of_reads hcoherent hreads (by omega) [2]
      (by omega : 0 + 1 ≤ created.info.numBlocks)
  rw [read_sevenFiveFiles hmany hcount hwrap] at hdirect
  cases hdirect
  have hget : (manyBlocks count).table.blocks[0]? = some [sevenFive 0] := by
    rw [blocks_manyBlocks, sevenFiveBlocks, sevenFives, List.map_map, List.getElem?_map,
      List.getElem?_range (by omega)]
    rfl
  have hholds : holds selectFives (sevenFive 0) = true := by decide +kernel
  have hdropped : filterLogicalBlockIds [0] ⟨0, 1, [(2, [sevens 2])]⟩
      (buildDataSkippingFilter selectFives) = [] := by decide +kernel
  have hcolumns : (buildDataSkippingFilter selectFives).referencedColumns = [2] := by
    decide +kernel
  rw [← hcolumns] at hread
  exact not_hidesNothing hbuild hcreate hselect hread hget ⟨_, List.mem_singleton_self _, hholds⟩
    hdropped

private theorem numbers_manyBlocks (count : Nat) : Numbers (manyBlocks count).rows := by
  intro row hrow
  obtain ⟨i, -, rfl⟩ := List.mem_map.mp hrow
  simp [sevenFive]

private theorem ordered_manyBlocks (count : Nat) : (manyBlocks count).filter.Ordered := by
  intro predicate hpredicate
  have hfilter : (manyBlocks count).filter.predicates = [⟨2, .equal, .int64 5⟩] := rfl
  rw [hfilter] at hpredicate
  rw [List.mem_singleton.mp hpredicate]
  exact Binary64.isNaN_ofInt64 5

/-- `v >= NaN` is true of 10, and the interval that it becomes holds no number. And of `2 ^ 32 + 1`
blocks one is counted: the statistics that are read for `b` are those of `a`. -/
theorem pruning_hides_rows :
    (nanPruning.Accepted ∧ nanPruning.StatsCountable ∧ Numbers nanPruning.rows ∧
      ¬ nanPruning.HidesNothing) ∧
    ((manyBlocks (2 ^ 32 + 1)).Accepted ∧ Numbers (manyBlocks (2 ^ 32 + 1)).rows ∧
      (manyBlocks (2 ^ 32 + 1)).filter.Ordered ∧
      ¬ (manyBlocks (2 ^ 32 + 1)).HidesNothing) := by
  have hcountable : nanPruning.StatsCountable :=
    ⟨by decide +kernel, by decide +kernel, by decide⟩
  have hwrap : u32 (2 ^ 32 + 1) = 1 := Nat.add_mod_left (2 ^ 32) 1
  exact ⟨⟨nanPruning_accepted, hcountable, numbers_pairs [(1, 10)], nanPruning_hides⟩,
    manyBlocks_accepted (by omega) (by omega), numbers_manyBlocks _, ordered_manyBlocks _,
    manyBlocks_hides (by omega) (by omega) hwrap⟩

end Htap.Properties
