import Htap.Read.Reader

/-!
`SSTableMetadataCache`: block metadata and statistics of one SSTable, read from
its files in pages of block ids and kept in one LRU. A range of blocks is cut
at the page borders and put together again.
-/

namespace Htap.Read

open Storage SSTable Words

inductive PageKind where
  | rowMetadata
  | columnMetadata
  | numericStats
  deriving DecidableEq

structure PageKey where
  kind : PageKind
  pageId : Nat
  columnIdx : Nat
  deriving DecidableEq

inductive Page where
  | row (blocks : List RowBlockMeta)
  | column (blocks : List ColumnBlockMeta)
  | stats (blocks : Option (List NumericBlockStats))

namespace Page

/-- `row_page_bytes`, `column_page_bytes`, `stats_page_bytes`. -/
def bytes : Page → Nat
  | .row blocks => blocks.length * rowBlockMetaOnDiskSize
  | .column blocks => blocks.length * columnBlockMetaOnDiskSize
  | .stats none => 1
  | .stats (some blocks) => blocks.length * 17

-- pages of each kind live in a map of their own, so the other cases do not occur
def rows : Page → List RowBlockMeta
  | .row blocks => blocks
  | _ => []

def columns : Page → List ColumnBlockMeta
  | .column blocks => blocks
  | _ => []

def numericStats : Page → Option (List NumericBlockStats)
  | .stats blocks => blocks
  | _ => none

end Page

structure SSTableMetadataCache where
  info : SSTableInfo
  columnsCount : Nat
  pageBlocks : Nat
  sparseIndex : List SparseIndexEntry
  pages : LruCache PageKey Page

/-- The files of the SSTable a metadata cache reads by path. -/
def sstableFiles (disk : Disk) (path : Bytes) : Result SSTableFiles :=
  match disk.sstables path with
  | some files => .ok files
  | none => .error (.runtimeError "Cannot open file: ")

namespace SSTableMetadataCache

/-- The constructor. -/
def createWith (disk : Disk) (info : SSTableInfo)
    (columnsCount pageBlocks maxCachedBytes : Nat) : Result SSTableMetadataCache := do
  let files ← sstableFiles disk info.path
  let sparseIndex ← readSparseIndex files
  if pageBlocks = 0 then
    .error (.runtimeError "SSTableMetadataCache page_blocks must be positive")
  else if maxCachedBytes = 0 then
    .error (.runtimeError "SSTableMetadataCache max_cached_bytes must be positive")
  else
    return {
      info := info
      columnsCount := columnsCount
      pageBlocks := pageBlocks
      sparseIndex := sparseIndex
      pages := { maxWeight := maxCachedBytes } }

/-- The constructor with its default page size and weight limit. -/
def create (disk : Disk) (info : SSTableInfo) (columnsCount : Nat) :
    Result SSTableMetadataCache :=
  createWith disk info columnsCount 256 (4 * 1024 * 1024)

def pageFirstBlock (cache : SSTableMetadataCache) (pageId : Nat) : Nat :=
  u32 (pageId * cache.pageBlocks)

def pageBlockCount (cache : SSTableMetadataCache) (pageId : Nat) : Nat :=
  let first := cache.pageFirstBlock pageId
  if cache.info.numBlocks ≤ first then 0
  else min cache.pageBlocks (cache.info.numBlocks - first)

/-- What `get_row_page`, `get_column_page` and `get_stats_page` load on a miss. -/
def loadPage (cache : SSTableMetadataCache) (disk : Disk) (key : PageKey) : Result Page := do
  let files ← sstableFiles disk cache.info.path
  let firstBlock := cache.pageFirstBlock key.pageId
  let blockCount := cache.pageBlockCount key.pageId
  match key.kind with
  | .rowMetadata => do
    let blocks ← readRowMetadataRange files firstBlock blockCount
    return .row blocks
  | .columnMetadata => do
    let blocks ← readColumnMetadataRange files firstBlock blockCount cache.columnsCount
    return .column blocks
  | .numericStats => do
    let stats ← readNumericStatsRange files firstBlock blockCount [key.columnIdx]
    return .stats (stats.column key.columnIdx)

def getPage (cache : SSTableMetadataCache) (disk : Disk) (key : PageKey) :
    Result (Page × SSTableMetadataCache) := do
  let (page, pages) ← cache.pages.fetch Page.bytes key fun _ => cache.loadPage disk key
  return (page, { cache with pages := pages })

def getRowPage (cache : SSTableMetadataCache) (disk : Disk) (pageId : Nat) :
    Result (List RowBlockMeta × SSTableMetadataCache) := do
  let (page, cache) ← cache.getPage disk ⟨.rowMetadata, pageId, 0⟩
  return (page.rows, cache)

def getColumnPage (cache : SSTableMetadataCache) (disk : Disk) (pageId : Nat) :
    Result (List ColumnBlockMeta × SSTableMetadataCache) := do
  let (page, cache) ← cache.getPage disk ⟨.columnMetadata, pageId, 0⟩
  return (page.columns, cache)

def getStatsPage (cache : SSTableMetadataCache) (disk : Disk) (columnIdx pageId : Nat) :
    Result (Option (List NumericBlockStats) × SSTableMetadataCache) := do
  let (page, cache) ← cache.getPage disk ⟨.numericStats, pageId, columnIdx⟩
  return (page.numericStats, cache)

/-- The loop over the pages `pageId`, .. of a range of row blocks. -/
def collectRowPages (disk : Disk) (first last : Nat) (cache : SSTableMetadataCache) :
    List Nat → Result (List RowBlockMeta × SSTableMetadataCache)
  | [] => .ok ([], cache)
  | pageId :: pageIds => do
    let (page, cache) ← cache.getRowPage disk pageId
    let pageFirst := cache.pageFirstBlock pageId
    let copyFrom := max first pageFirst
    let copyTo := min last (pageFirst + u32 page.length)
    let (rest, cache) ← collectRowPages disk first last cache pageIds
    return (Splitting.slice page (copyFrom - pageFirst) (copyTo - pageFirst) ++ rest, cache)

/-- The loop over the pages `pageId`, .. of a range of column blocks. -/
def collectColumnPages (disk : Disk) (first last : Nat) (cache : SSTableMetadataCache) :
    List Nat → Result (List ColumnBlockMeta × SSTableMetadataCache)
  | [] => .ok ([], cache)
  | pageId :: pageIds => do
    let (page, cache) ← cache.getColumnPage disk pageId
    let pageFirst := cache.pageFirstBlock pageId
    let copyFrom := max first pageFirst
    let copyTo := min last (pageFirst + cache.pageBlockCount pageId)
    let firstEntry := (copyFrom - pageFirst) * cache.columnsCount
    let lastEntry := (copyTo - pageFirst) * cache.columnsCount
    let (rest, cache) ← collectColumnPages disk first last cache pageIds
    return (Splitting.slice page firstEntry lastEntry ++ rest, cache)

/-- The loop over the pages of one statistics column; `none` once a page has no
statistics for it. -/
def collectStatsPages (disk : Disk) (columnIdx first last : Nat) (cache : SSTableMetadataCache) :
    List Nat → Result (Option (List NumericBlockStats) × SSTableMetadataCache)
  | [] => .ok (some [], cache)
  | pageId :: pageIds => do
    let (page, cache) ← cache.getStatsPage disk columnIdx pageId
    match page with
    | none => return (none, cache)
    | some blocks => do
      let pageFirst := cache.pageFirstBlock pageId
      let copyFrom := max first pageFirst
      let copyTo := min last (pageFirst + u32 blocks.length)
      let (rest, cache) ← collectStatsPages disk columnIdx first last cache pageIds
      return (rest.map
        (Splitting.slice blocks (copyFrom - pageFirst) (copyTo - pageFirst) ++ ·), cache)

/-- `first_page .. last_page`. -/
def pageIds (cache : SSTableMetadataCache) (first last : Nat) : List Nat :=
  List.range' (first / cache.pageBlocks)
    ((last - 1) / cache.pageBlocks + 1 - first / cache.pageBlocks)

def readRowMetadataRange (cache : SSTableMetadataCache) (disk : Disk)
    (firstBlockId blockCount : Nat) : Result (List RowBlockMeta × SSTableMetadataCache) :=
  if blockCount = 0 then .ok ([], cache)
  else
    let lastBlockExclusive := u32 (firstBlockId + blockCount)
    if cache.info.numBlocks < lastBlockExclusive ∨ lastBlockExclusive < firstBlockId then
      .error (.runtimeError "Requested row metadata range is out of SSTable bounds")
    else
      collectRowPages disk firstBlockId lastBlockExclusive cache
        (cache.pageIds firstBlockId lastBlockExclusive)

def readColumnMetadataRange (cache : SSTableMetadataCache) (disk : Disk)
    (firstBlockId blockCount : Nat) : Result (List ColumnBlockMeta × SSTableMetadataCache) :=
  if blockCount = 0 ∨ cache.columnsCount = 0 then .ok ([], cache)
  else
    let lastBlockExclusive := u32 (firstBlockId + blockCount)
    if cache.info.numBlocks < lastBlockExclusive ∨ lastBlockExclusive < firstBlockId then
      .error (.runtimeError "Requested column metadata range is out of SSTable bounds")
    else
      collectColumnPages disk firstBlockId lastBlockExclusive cache
        (cache.pageIds firstBlockId lastBlockExclusive)

/-- The loop over the requested statistics columns. -/
def collectStatsColumns (disk : Disk) (first last : Nat) (cache : SSTableMetadataCache)
    (byColumn : List (Nat × List NumericBlockStats)) :
    List Nat → Result (List (Nat × List NumericBlockStats) × SSTableMetadataCache)
  | [] => .ok (byColumn, cache)
  | columnIdx :: columnIndices => do
    let (stats, cache) ←
      collectStatsPages disk columnIdx first last cache (cache.pageIds first last)
    let byColumn := match stats with
      | some stats => emplaceColumn byColumn columnIdx stats
      | none => byColumn
    collectStatsColumns disk first last cache byColumn columnIndices

def readNumericStatsRange (cache : SSTableMetadataCache) (disk : Disk)
    (firstBlockId blockCount : Nat) (columnIndices : List Nat) :
    Result (NumericStatsRange × SSTableMetadataCache) :=
  if blockCount = 0 ∨ columnIndices.isEmpty then .ok (⟨firstBlockId, blockCount, []⟩, cache)
  else
    let lastBlockExclusive := u32 (firstBlockId + blockCount)
    if cache.info.numBlocks < lastBlockExclusive ∨ lastBlockExclusive < firstBlockId then
      .error (.runtimeError "Requested numeric stats range is out of SSTable bounds")
    else do
      let (byColumn, cache) ←
        collectStatsColumns disk firstBlockId lastBlockExclusive cache [] columnIndices
      return (⟨firstBlockId, blockCount, byColumn⟩, cache)

/-! ## Cached pages are the pages of the files -/

/-- The cache belongs to an SSTable whose files are on disk, and every page it
holds is the page a load would give. -/
structure Coherent (cache : SSTableMetadataCache) (disk : Disk) (files : SSTableFiles) : Prop where
  files : disk.sstables cache.info.path = some files
  pageBlocks : 0 < cache.pageBlocks
  pages : cache.pages.Coherent fun key => (cache.loadPage disk key).toOption

/-- The parts of a cache that fetching pages never changes. -/
def SameTable (a b : SSTableMetadataCache) : Prop :=
  a.info = b.info ∧ a.columnsCount = b.columnsCount ∧ a.pageBlocks = b.pageBlocks ∧
    a.sparseIndex = b.sparseIndex

theorem SameTable.refl (a : SSTableMetadataCache) : SameTable a a := ⟨rfl, rfl, rfl, rfl⟩

theorem SameTable.trans {a b c : SSTableMetadataCache} (hab : SameTable a b)
    (hbc : SameTable b c) : SameTable a c :=
  ⟨hab.1.trans hbc.1, hab.2.1.trans hbc.2.1, hab.2.2.1.trans hbc.2.2.1, hab.2.2.2.trans hbc.2.2.2⟩

theorem SameTable.loadPage {a b : SSTableMetadataCache} (h : SameTable a b) (disk : Disk) :
    a.loadPage disk = b.loadPage disk := by
  funext key
  unfold SSTableMetadataCache.loadPage pageBlockCount pageFirstBlock
  rw [h.1, h.2.1, h.2.2.1]

variable {cache : SSTableMetadataCache} {disk : Disk} {files : SSTableFiles}

theorem Coherent.getPage (h : cache.Coherent disk files) {key : PageKey} {page : Page}
    (hload : cache.loadPage disk key = .ok page) :
    ∃ cache' : SSTableMetadataCache, cache.getPage disk key = .ok (page, cache') ∧
      cache'.Coherent disk files ∧ SameTable cache' cache := by
  have hcontents : (cache.loadPage disk key).toOption = some page := by rw [hload]; rfl
  have hstep : ∃ pages : LruCache PageKey Page,
      cache.pages.fetch Page.bytes key (fun _ => cache.loadPage disk key) = .ok (page, pages) ∧
        pages.Coherent fun key => (cache.loadPage disk key).toOption :=
    h.pages.fetch hcontents hload
  obtain ⟨pages, hfetch, hcoherent⟩ := hstep
  have hsame : SameTable { cache with pages := pages } cache := ⟨rfl, rfl, rfl, rfl⟩
  refine ⟨{ cache with pages := pages }, ?_, ⟨h.files, h.pageBlocks, ?_⟩, hsame⟩
  · rw [SSTableMetadataCache.getPage, hfetch]
    rfl
  · rw [hsame.loadPage disk]
    exact hcoherent

/-- A page that was fetched leaves the cache coherent. -/
theorem Coherent.of_getPage (h : cache.Coherent disk files) {key : PageKey} {page : Page}
    {cache' : SSTableMetadataCache} (hget : cache.getPage disk key = .ok (page, cache')) :
    cache'.Coherent disk files ∧ SameTable cache' cache := by
  unfold SSTableMetadataCache.getPage at hget
  obtain ⟨⟨page', pages⟩, hfetch, hok⟩ := Result.bind_eq_ok.mp hget
  cases hok
  have hsame : SameTable { cache with pages := pages } cache := ⟨rfl, rfl, rfl, rfl⟩
  refine ⟨⟨h.files, h.pageBlocks, ?_⟩, hsame⟩
  rw [hsame.loadPage disk]
  refine h.pages.of_fetch ?_ hfetch
  intro value hvalue
  rw [hvalue]
  rfl

/-- A page that is got is the page a load gives. -/
theorem Coherent.loadPage_of_getPage (h : cache.Coherent disk files) {key : PageKey} {page : Page}
    {cache' : SSTableMetadataCache} (hget : cache.getPage disk key = .ok (page, cache')) :
    cache.loadPage disk key = .ok page := by
  unfold SSTableMetadataCache.getPage at hget
  obtain ⟨⟨page', pages⟩, hfetch, hok⟩ := Result.bind_eq_ok.mp hget
  cases hok
  have hheld : (cache.loadPage disk key).toOption = some page := by
    refine h.pages.eq_of_fetch ?_ hfetch
    intro value hvalue
    rw [hvalue]
    rfl
  cases hload : cache.loadPage disk key with
  | error e =>
    rw [hload] at hheld
    cases hheld
  | ok loaded =>
    rw [hload] at hheld
    cases hheld
    rfl

/-- The cache does not notice what happens to other SSTables on disk. -/
theorem Coherent.disk_changed (h : cache.Coherent disk files) {disk' : Disk}
    (hfiles : disk'.sstables cache.info.path = some files) : cache.Coherent disk' files where
  files := hfiles
  pageBlocks := h.pageBlocks
  pages := by
    have hload : cache.loadPage disk' = cache.loadPage disk := by
      funext key
      unfold SSTableMetadataCache.loadPage sstableFiles
      rw [hfiles, h.files]
    rw [hload]
    exact h.pages

/-! ## What every read keeps -/

/-- What fetching a page keeps. -/
def KeptByPages (disk : Disk) (P : SSTableMetadataCache → Prop) : Prop :=
  ∀ cache key page cache', P cache → cache.getPage disk key = .ok (page, cache') → P cache'

section Kept

variable {P : SSTableMetadataCache → Prop} {cache' : SSTableMetadataCache} {first last : Nat}

private theorem kept_collectRowPages (hkept : KeptByPages disk P) {pageIds : List Nat} (h : P cache)
    {blocks : List RowBlockMeta}
    (hcollect : collectRowPages disk first last cache pageIds = .ok (blocks, cache')) :
    P cache' := by
  induction pageIds generalizing cache blocks with
  | nil =>
    cases hcollect
    exact h
  | cons pageId pageIds ih =>
    unfold collectRowPages getRowPage at hcollect
    obtain ⟨⟨blocks, next⟩, hpage, hrest⟩ := Result.bind_eq_ok.mp hcollect
    obtain ⟨⟨page, next'⟩, hget, hok⟩ := Result.bind_eq_ok.mp hpage
    cases hok
    obtain ⟨⟨rest, last'⟩, hmore, hok⟩ := Result.bind_eq_ok.mp hrest
    cases hok
    exact ih (hkept _ _ _ _ h hget) hmore

private theorem kept_collectColumnPages (hkept : KeptByPages disk P) {pageIds : List Nat}
    (h : P cache) {blocks : List ColumnBlockMeta}
    (hcollect : collectColumnPages disk first last cache pageIds = .ok (blocks, cache')) :
    P cache' := by
  induction pageIds generalizing cache blocks with
  | nil =>
    cases hcollect
    exact h
  | cons pageId pageIds ih =>
    unfold collectColumnPages getColumnPage at hcollect
    obtain ⟨⟨blocks, next⟩, hpage, hrest⟩ := Result.bind_eq_ok.mp hcollect
    obtain ⟨⟨page, next'⟩, hget, hok⟩ := Result.bind_eq_ok.mp hpage
    cases hok
    obtain ⟨⟨rest, last'⟩, hmore, hok⟩ := Result.bind_eq_ok.mp hrest
    cases hok
    exact ih (hkept _ _ _ _ h hget) hmore

theorem kept_collectStatsPages (hkept : KeptByPages disk P) {columnIdx : Nat}
    {pageIds : List Nat} (h : P cache) {stats : Option (List NumericBlockStats)}
    (hcollect : collectStatsPages disk columnIdx first last cache pageIds = .ok (stats, cache')) :
    P cache' := by
  induction pageIds generalizing cache stats with
  | nil =>
    cases hcollect
    exact h
  | cons pageId pageIds ih =>
    unfold collectStatsPages getStatsPage at hcollect
    obtain ⟨⟨blocks, next⟩, hpage, hrest⟩ := Result.bind_eq_ok.mp hcollect
    obtain ⟨⟨page, next'⟩, hget, hok⟩ := Result.bind_eq_ok.mp hpage
    cases hok
    have hnext := hkept _ _ _ _ h hget
    dsimp only at hrest
    split at hrest
    · cases hrest
      exact hnext
    · obtain ⟨⟨rest, last'⟩, hmore, hok⟩ := Result.bind_eq_ok.mp hrest
      cases hok
      exact ih hnext hmore

private theorem kept_collectStatsColumns (hkept : KeptByPages disk P) {columnIndices : List Nat}
    (h : P cache) {byColumn byColumn' : List (Nat × List NumericBlockStats)}
    (hcollect : collectStatsColumns disk first last cache byColumn columnIndices =
      .ok (byColumn', cache')) : P cache' := by
  induction columnIndices generalizing cache byColumn with
  | nil =>
    cases hcollect
    exact h
  | cons columnIdx columnIndices ih =>
    unfold collectStatsColumns at hcollect
    obtain ⟨⟨stats, next⟩, hpages, hrest⟩ := Result.bind_eq_ok.mp hcollect
    exact ih (kept_collectStatsPages hkept h hpages) hrest

theorem KeptByPages.readRowMetadataRange (hkept : KeptByPages disk P) (h : P cache)
    {count : Nat} {blocks : List RowBlockMeta}
    (hread : cache.readRowMetadataRange disk first count = .ok (blocks, cache')) : P cache' := by
  unfold SSTableMetadataCache.readRowMetadataRange at hread
  split at hread
  · cases hread
    exact h
  · dsimp only at hread
    split at hread
    · cases hread
    · exact kept_collectRowPages hkept h hread

theorem KeptByPages.readColumnMetadataRange (hkept : KeptByPages disk P) (h : P cache)
    {count : Nat} {blocks : List ColumnBlockMeta}
    (hread : cache.readColumnMetadataRange disk first count = .ok (blocks, cache')) :
    P cache' := by
  unfold SSTableMetadataCache.readColumnMetadataRange at hread
  split at hread
  · cases hread
    exact h
  · dsimp only at hread
    split at hread
    · cases hread
    · exact kept_collectColumnPages hkept h hread

theorem KeptByPages.readNumericStatsRange (hkept : KeptByPages disk P) (h : P cache)
    {count : Nat} {columnIndices : List Nat} {stats : NumericStatsRange}
    (hread : cache.readNumericStatsRange disk first count columnIndices = .ok (stats, cache')) :
    P cache' := by
  unfold SSTableMetadataCache.readNumericStatsRange at hread
  split at hread
  · cases hread
    exact h
  · dsimp only at hread
    split at hread
    · cases hread
    · obtain ⟨⟨byColumn, next⟩, hcollect, hok⟩ := Result.bind_eq_ok.mp hread
      cases hok
      exact kept_collectStatsColumns hkept h hcollect

end Kept

theorem kept_coherent (cache : SSTableMetadataCache) :
    KeptByPages disk fun c => c.Coherent disk files ∧ SameTable c cache := by
  intro c key page c' h hget
  obtain ⟨hcoherent, hsame⟩ := h.1.of_getPage hget
  exact ⟨hcoherent, hsame.trans h.2⟩

/-- Reading statistics leaves the cache coherent. -/
theorem Coherent.of_readNumericStatsRange (h : cache.Coherent disk files) {first count : Nat}
    {columnIndices : List Nat} {stats : NumericStatsRange} {cache' : SSTableMetadataCache}
    (hread : cache.readNumericStatsRange disk first count columnIndices = .ok (stats, cache')) :
    cache'.Coherent disk files ∧ SameTable cache' cache :=
  (kept_coherent cache).readNumericStatsRange ⟨h, SameTable.refl cache⟩ hread

end SSTableMetadataCache

end Htap.Read
