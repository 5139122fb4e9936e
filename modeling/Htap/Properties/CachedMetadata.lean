import Htap.Read.MetadataPages
import Htap.Read.Statistics
import Htap.Read.Table
import Htap.SSTable.Shape

/-!
`SSTableMetadataCache` is transparent: over the files of any build, every
sequence of reads within bounds gets what `SSTableReader` gives, and the LRU
list, the pages and the byte counter stay in step.
-/

namespace Htap.Properties

open Storage SSTable Read Words

inductive MetadataRead where
  | rows (first count : Nat)
  | columns (first count : Nat)
  | stats (first count : Nat) (columnIndices : List Nat)

inductive MetadataAnswer where
  | rows (blocks : List RowBlockMeta)
  | columns (blocks : List ColumnBlockMeta)
  | stats (range : NumericStatsRange)

namespace MetadataRead

/-- The blocks are those of the table, and block metadata is read in its layout. -/
def Allowed (layout : SSTLayout) (numBlocks : Nat) : MetadataRead → Prop
  | .rows first count => layout = .row ∧ first + count ≤ numBlocks
  | .columns first count => layout = .column ∧ first + count ≤ numBlocks
  | .stats first count _ => first + count ≤ numBlocks

/-- The read without a cache. -/
def direct (files : SSTableFiles) (columnsCount : Nat) : MetadataRead → Result MetadataAnswer
  | .rows first count => do
    let blocks ← readRowMetadataRange files first count
    return .rows blocks
  | .columns first count => do
    let blocks ← readColumnMetadataRange files first count columnsCount
    return .columns blocks
  | .stats first count columnIndices => do
    let range ← readNumericStatsRange files first count columnIndices
    return .stats range

def cached (disk : Disk) (cache : SSTableMetadataCache) :
    MetadataRead → Result (MetadataAnswer × SSTableMetadataCache)
  | .rows first count => do
    let (blocks, cache) ← cache.readRowMetadataRange disk first count
    return (.rows blocks, cache)
  | .columns first count => do
    let (blocks, cache) ← cache.readColumnMetadataRange disk first count
    return (.columns blocks, cache)
  | .stats first count columnIndices => do
    let (range, cache) ← cache.readNumericStatsRange disk first count columnIndices
    return (.stats range, cache)

/-- One read after another. -/
def cachedAll (disk : Disk) (cache : SSTableMetadataCache) :
    List MetadataRead → Result (List MetadataAnswer × SSTableMetadataCache)
  | [] => .ok ([], cache)
  | read :: reads => do
    let (answer, cache) ← read.cached disk cache
    let (answers, cache) ← cachedAll disk cache reads
    return (answer :: answers, cache)

end MetadataRead

/-- The bookkeeping of the cache: the LRU list holds every page once and
nothing else, the counter is the bytes of the pages, and more than the budget
is held in a single page only. -/
def Kept (cache : SSTableMetadataCache) : Prop :=
  cache.pages.recency.Nodup ∧
    (cache.pages.entries.map Prod.fst).Perm cache.pages.recency ∧
    cache.pages.heldWeight = (cache.pages.entries.map fun e => e.2.bytes).sum ∧
    (cache.pages.heldWeight ≤ cache.pages.maxWeight ∨ cache.pages.entries.length = 1)

/-- What a read keeps of the bookkeeping. -/
private def Bookkept (maxCachedBytes : Nat) (cache : SSTableMetadataCache) : Prop :=
  (∃ keys, cache.pages.Serves Page.bytes keys) ∧ cache.pages.maxWeight = maxCachedBytes

private theorem Bookkept.kept {maxCachedBytes : Nat} {cache : SSTableMetadataCache}
    (h : Bookkept maxCachedBytes cache) : Kept cache := by
  obtain ⟨⟨keys, hserves⟩, -⟩ := h
  exact ⟨hserves.balanced.nodup, hserves.balanced.keys, hserves.balanced.held, hserves.bounded⟩

private theorem keptByPages_bookkept (disk : Disk) (maxCachedBytes : Nat) :
    SSTableMetadataCache.KeptByPages disk (Bookkept maxCachedBytes) := by
  rintro cache key page cache' ⟨⟨keys, hserves⟩, hmax⟩ hget
  obtain ⟨⟨page', pages⟩, hfetch, hok⟩ := Result.bind_eq_ok.mp hget
  cases hok
  obtain ⟨hserves', -, hmax'⟩ := hserves.fetch hfetch
  exact ⟨⟨_, hserves'⟩, hmax'.trans hmax⟩

/-- What the reader gives from the files, over all blocks. -/
private structure Readable (layout : SSTLayout) (files : SSTableFiles)
    (numBlocks columnsCount : Nat) : Prop where
  rows : layout = .row → ∃ metas, SSTableMetadataCache.ReadsRows files numBlocks metas
  columns : layout = .column →
    ∃ metas, SSTableMetadataCache.ReadsColumns files numBlocks columnsCount metas
  stats : ∃ column, SSTableMetadataCache.ReadsStats files numBlocks column

/-- The files of a build are readable, however many blocks and columns the
builder lost count of. -/
private theorem readable_of_build {layout : SSTLayout} {schema : Schema}
    {options : SparseIndexOptions} {targets : BlockTargets} {rows : List Row}
    {result : SSTableBuildResult} {files : SSTableFiles}
    (h : buildSSTable layout schema options targets rows = .ok (result, files)) :
    Readable layout files result.numBlocks (u32 schema.size) ∧ result.numBlocks < 2 ^ 32 ∧
      ∃ entries, readSparseIndex files = .ok entries := by
  cases layout with
  | row =>
    obtain ⟨blocks, hblocks, hmetadata, hstats, hfits, count, hindex⟩ :=
      shaped_of_buildRowSSTable h
    obtain ⟨column, hlength, hread⟩ := exists_statsColumns (loadNumericStatsIndex_eq hstats hfits)
    rw [hblocks]
    refine ⟨⟨fun _ => ?_, (fun hlayout => nomatch hlayout), column, hlength, hread⟩, u32_lt _,
      exists_sparseIndex hindex⟩
    obtain ⟨metas, hmetas, hread⟩ := exists_rowMetadata
      (show u32 blocks.length * rowBlockMetaOnDiskSize ≤ files.metadata.length by
        rw [hmetadata]
        exact Nat.mul_le_mul_right _ (Nat.mod_le _ _))
    exact ⟨metas, hmetas.ge, hread⟩
  | column =>
    obtain ⟨blocks, hblocks, hmetadata, hstats, hfits, count, hindex⟩ :=
      shaped_of_buildColumnSSTable h
    obtain ⟨column, hlength, hread⟩ := exists_statsColumns (loadNumericStatsIndex_eq hstats hfits)
    rw [hblocks]
    refine ⟨⟨(fun hlayout => nomatch hlayout), fun _ => ?_, column, hlength, hread⟩, u32_lt _,
      exists_sparseIndex hindex⟩
    obtain ⟨metas, -, hread⟩ := @exists_columnMetadata files (u32 blocks.length) (u32 schema.size)
      (by
        rw [hmetadata, Nat.mul_assoc]
        exact Nat.mul_le_mul (Nat.mod_le _ _) (Nat.mul_le_mul_right _ (Nat.mod_le _ _)))
    exact ⟨metas, hread⟩

section Reads

variable {layout : SSTLayout} {disk : Disk} {files : SSTableFiles} {maxCachedBytes : Nat}

/-- One read: the cache answers as the reader does. -/
private theorem cached_eq_direct {cache : SSTableMetadataCache}
    (hfiles : Readable layout files cache.info.numBlocks cache.columnsCount)
    (hlt : cache.info.numBlocks < 2 ^ 32) (hcoherent : cache.Coherent disk files)
    (hkept : Bookkept maxCachedBytes cache) {read : MetadataRead}
    (hallowed : read.Allowed layout cache.info.numBlocks) :
    ∃ answer cache', read.cached disk cache = .ok (answer, cache') ∧
      read.direct files cache.columnsCount = .ok answer ∧ cache'.Coherent disk files ∧
      SSTableMetadataCache.SameTable cache' cache ∧ Bookkept maxCachedBytes cache' := by
  have hpages := keptByPages_bookkept disk maxCachedBytes
  cases read with
  | rows first count =>
    obtain ⟨metas, hreads⟩ := hfiles.rows hallowed.1
    obtain ⟨cache', hread, hcoherent', hsame⟩ :=
      SSTableMetadataCache.readRowMetadataRange_of_reads hcoherent hreads hlt hallowed.2
    refine ⟨.rows (Splitting.slice metas first (first + count)), cache', ?_, ?_, hcoherent', hsame,
      hpages.readRowMetadataRange hkept hread⟩
    · rw [MetadataRead.cached, hread]
      rfl
    · rw [MetadataRead.direct, hreads.2 _ _ hallowed.2]
      rfl
  | columns first count =>
    obtain ⟨metas, hreads⟩ := hfiles.columns hallowed.1
    obtain ⟨cache', hread, hcoherent', hsame⟩ :=
      SSTableMetadataCache.readColumnMetadataRange_of_reads hcoherent hreads hlt hallowed.2
    refine ⟨.columns (Splitting.slice metas (first * cache.columnsCount)
      ((first + count) * cache.columnsCount)), cache', ?_, ?_, hcoherent', hsame,
      hpages.readColumnMetadataRange hkept hread⟩
    · rw [MetadataRead.cached, hread]
      rfl
    · rw [MetadataRead.direct, hreads _ _ hallowed.2]
      rfl
  | stats first count columnIndices =>
    obtain ⟨column, hreads⟩ := hfiles.stats
    obtain ⟨range, cache', hread, hdirect, hcoherent', hsame⟩ :=
      SSTableMetadataCache.readNumericStatsRange_of_reads hcoherent hreads hlt columnIndices
        hallowed
    refine ⟨.stats range, cache', ?_, ?_, hcoherent', hsame,
      hpages.readNumericStatsRange hkept hread⟩
    · rw [MetadataRead.cached, hread]
      rfl
    · rw [MetadataRead.direct, hdirect]
      rfl

private theorem cachedAll_eq_direct {reads : List MetadataRead} {cache : SSTableMetadataCache}
    (hfiles : Readable layout files cache.info.numBlocks cache.columnsCount)
    (hlt : cache.info.numBlocks < 2 ^ 32) (hcoherent : cache.Coherent disk files)
    (hkept : Bookkept maxCachedBytes cache)
    (hallowed : ∀ read ∈ reads, read.Allowed layout cache.info.numBlocks) :
    ∃ answers cache', MetadataRead.cachedAll disk cache reads = .ok (answers, cache') ∧
      List.Forall₂ (fun read answer => read.direct files cache.columnsCount = .ok answer)
        reads answers ∧ Bookkept maxCachedBytes cache' := by
  induction reads generalizing cache with
  | nil => exact ⟨[], cache, rfl, .nil, hkept⟩
  | cons read reads ih =>
    obtain ⟨answer, next, hread, hdirect, hcoherent', hsame, hkept'⟩ :=
      cached_eq_direct hfiles hlt hcoherent hkept (hallowed read List.mem_cons_self)
    obtain ⟨answers, last, hreads, hall, hlast⟩ := @ih next
      (by rw [hsame.1, hsame.2.1]; exact hfiles) (by rw [hsame.1]; exact hlt) hcoherent' hkept'
      (by rw [hsame.1]; exact fun r hr => hallowed r (List.mem_cons_of_mem read hr))
    refine ⟨answer :: answers, last, ?_, ?_, hlast⟩
    · rw [MetadataRead.cachedAll, hread, Result.ok_bind]
      dsimp only
      rw [hreads]
      rfl
    · rw [hsame.2.1] at hall
      exact .cons hdirect hall

end Reads

/-- Whatever is read, every page that the cache keeps is a page of the files. -/
theorem coherent_cachedAll {disk : Disk} {files : SSTableFiles} {reads : List MetadataRead}
    {answers : List MetadataAnswer} {cache cache' : SSTableMetadataCache}
    (h : cache.Coherent disk files)
    (hreads : MetadataRead.cachedAll disk cache reads = .ok (answers, cache')) :
    cache'.Coherent disk files ∧ SSTableMetadataCache.SameTable cache' cache := by
  induction reads generalizing answers cache with
  | nil =>
    cases hreads
    exact ⟨h, .refl _⟩
  | cons read reads ih =>
    obtain ⟨⟨answer, next⟩, hread, hreads⟩ := Result.bind_eq_ok.mp hreads
    obtain ⟨⟨rest, last⟩, hrest, hreads⟩ := Result.bind_eq_ok.mp hreads
    cases hreads
    have hpages := @SSTableMetadataCache.kept_coherent disk files cache
    have hkept : cache.Coherent disk files ∧ SSTableMetadataCache.SameTable cache cache :=
      ⟨h, .refl cache⟩
    have hnext : next.Coherent disk files ∧ SSTableMetadataCache.SameTable next cache := by
      cases read with
      | rows first count =>
        obtain ⟨⟨found, after⟩, hfound, hok⟩ := Result.bind_eq_ok.mp hread
        cases hok
        exact hpages.readRowMetadataRange hkept hfound
      | columns first count =>
        obtain ⟨⟨found, after⟩, hfound, hok⟩ := Result.bind_eq_ok.mp hread
        cases hok
        exact hpages.readColumnMetadataRange hkept hfound
      | stats first count columnIndices =>
        obtain ⟨⟨found, after⟩, hfound, hok⟩ := Result.bind_eq_ok.mp hread
        cases hok
        exact hpages.readNumericStatsRange hkept hfound
    obtain ⟨hcoherent, hsame⟩ := ih hnext.1 hrest
    exact ⟨hcoherent, hsame.trans hnext.2⟩

/-- A metadata cache over an SSTable either builder wrote, registered with the block count
of its build. `Allowed` keeps the reads to blocks of the SSTable and to metadata of its
layout, as the cursors do; the page size and the budget only have to be positive. -/
theorem metadata_cache_transparent {layout : SSTLayout} {schema : Schema}
    {options : SparseIndexOptions} {targets : BlockTargets} {rows : List Row}
    {result : SSTableBuildResult} {files : SSTableFiles}
    (hbuild : buildSSTable layout schema options targets rows = .ok (result, files))
    {disk : Disk} {info : SSTableInfo} (hdisk : disk.sstables info.path = some files)
    (hinfo : info.numBlocks = result.numBlocks) {pageBlocks maxCachedBytes : Nat}
    (hpageBlocks : 1 ≤ pageBlocks) (hmaxCachedBytes : 1 ≤ maxCachedBytes)
    {reads : List MetadataRead}
    (hreads : ∀ read ∈ reads, read.Allowed layout result.numBlocks) :
    ∃ cache answers cache',
      SSTableMetadataCache.createWith disk info (u32 schema.size) pageBlocks maxCachedBytes =
        .ok cache ∧
      MetadataRead.cachedAll disk cache reads = .ok (answers, cache') ∧
      List.Forall₂ (fun read answer => read.direct files (u32 schema.size) = .ok answer)
        reads answers ∧
      Kept cache' ∧ cache'.pages.maxWeight = maxCachedBytes := by
  obtain ⟨hfiles, hlt, entries, hindex⟩ := readable_of_build hbuild
  rw [← hinfo] at hfiles hlt hreads
  have hcreate : SSTableMetadataCache.createWith disk info (u32 schema.size) pageBlocks
      maxCachedBytes = .ok ⟨info, u32 schema.size, pageBlocks, entries,
        { maxWeight := maxCachedBytes }⟩ := by
    unfold SSTableMetadataCache.createWith
    rw [sstableFiles, hdisk, Result.ok_bind, hindex, Result.ok_bind,
      if_neg (by omega), if_neg (by omega)]
    rfl
  obtain ⟨answers, cache', hcached, hdirect, hkept⟩ := @cachedAll_eq_direct layout disk files
    maxCachedBytes reads ⟨info, u32 schema.size, pageBlocks, entries,
      { maxWeight := maxCachedBytes }⟩ hfiles hlt
    ⟨hdisk, hpageBlocks, by simp [LruCache.Coherent]⟩
    ⟨⟨[], LruCache.Serves.nil maxCachedBytes⟩, rfl⟩ hreads
  exact ⟨_, answers, cache', hcreate, hcached, hdirect, hkept.kept, hkept.2⟩

/-- Two rows with a number each, of a column SSTable with a block a row. -/
def numberedBuild : Result (SSTableBuildResult × SSTableFiles) :=
  buildSSTable .column ⟨[⟨[107], .int64, true, false⟩, ⟨[110], .int64, false, true⟩]⟩ {}
    ⟨1, 1, 1⟩ [[some (.int64 1), some (.int64 7)], [some (.int64 2), none]]

/-- Pages of one block and room for one byte. -/
theorem metadata_cache_transparent_small :
    ∃ result files cache answers cache',
      numberedBuild = .ok (result, files) ∧
      SSTableMetadataCache.createWith ⟨fun _ => some files, none⟩
        ⟨1, [], 0, 1, 2, 0, result.numBlocks, SSTLayout.column.code⟩ 2 1 1 = .ok cache ∧
      MetadataRead.cachedAll ⟨fun _ => some files, none⟩ cache
        [.columns 0 2, .stats 1 1 [1], .columns 1 1] = .ok (answers, cache') ∧
      List.Forall₂ (fun read answer => MetadataRead.direct files 2 read = .ok answer)
        [.columns 0 2, .stats 1 1 [1], .columns 1 1] answers ∧
      Kept cache' ∧ cache'.pages.maxWeight = 1 := by
  have hbuilt : (numberedBuild.toOption.any fun out => out.1.numBlocks == 2) = true := by
    decide +kernel
  cases hbuild : numberedBuild with
  | error e => simp [hbuild, Except.toOption] at hbuilt
  | ok out =>
    obtain ⟨result, files⟩ := out
    have hblocks : result.numBlocks = 2 := by simpa [hbuild, Except.toOption] using hbuilt
    obtain ⟨cache, answers, cache', hrun⟩ := metadata_cache_transparent hbuild
      (show (Disk.mk (fun _ => some files) none).sstables [] = some files from rfl)
      (show (SSTableInfo.mk 1 [] 0 1 2 0 result.numBlocks SSTLayout.column.code).numBlocks =
        result.numBlocks from rfl) Nat.one_pos Nat.one_pos
      (show ∀ read ∈ [.columns 0 2, .stats 1 1 [1], .columns 1 1],
        MetadataRead.Allowed .column result.numBlocks read by
        simp [MetadataRead.Allowed, hblocks])
    exact ⟨result, files, cache, answers, cache', rfl, hrun⟩

end Htap.Properties
