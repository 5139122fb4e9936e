import Htap.Cursor.Factory

/-!
What opening a cursor over an SSTable reads: the files of that SSTable, and those its
metadata cache was made for. On two disks that agree there it does the same.
-/

namespace Htap.Read.SSTableMetadataCache

open Storage SSTable

/-- The two disks have the same files at a path. -/
def SameFiles (disk disk' : Disk) (path : Bytes) : Prop :=
  disk'.sstables path = disk.sstables path

section

variable {disk disk' : Disk} {cache cache' : SSTableMetadataCache} {first last : Nat}

/-- Only what follows a success matters. -/
private theorem bind_congr_ok {α β : Type} {x : Result α} {f g : α → Result β}
    (h : ∀ a, x = .ok a → f a = g a) : x >>= f = x >>= g := by
  cases x with
  | error e => rfl
  | ok a => exact h a rfl

theorem sstableFiles_congr {path : Bytes} (h : SameFiles disk disk' path) :
    sstableFiles disk' path = sstableFiles disk path := by
  rw [sstableFiles, sstableFiles, h]

theorem create_congr {info : SSTableInfo} (h : SameFiles disk disk' info.path) (count : Nat) :
    create disk' info count = create disk info count := by
  rw [create, create, createWith, createWith, sstableFiles_congr h]

theorem info_create {info : SSTableInfo} {count : Nat} (h : create disk info count = .ok cache) :
    cache.info = info := by
  obtain ⟨files, -, h⟩ := Result.bind_eq_ok.mp h
  obtain ⟨sparseIndex, -, h⟩ := Result.bind_eq_ok.mp h
  split at h
  · cases h
  · split at h
    · cases h
    · cases h
      rfl

theorem getPage_congr (h : SameFiles disk disk' cache.info.path) (key : PageKey) :
    cache.getPage disk' key = cache.getPage disk key := by
  have hload : cache.loadPage disk' = cache.loadPage disk := by
    funext key
    rw [loadPage, loadPage, sstableFiles_congr h]
  rw [getPage, getPage, hload]

/-- Fetching pages does not change what the cache is for. -/
theorem kept_info (disk : Disk) (info : SSTableInfo) :
    KeptByPages disk fun c => c.info = info := by
  intro c key page c' hinfo hget
  obtain ⟨⟨page', pages⟩, -, hget⟩ := Result.bind_eq_ok.mp hget
  cases hget
  exact hinfo

theorem info_getPage {key : PageKey} {page : Page}
    (h : cache.getPage disk key = .ok (page, cache')) : cache'.info = cache.info :=
  kept_info disk cache.info cache key page cache' rfl h

private theorem collectRowPages_congr (h : SameFiles disk disk' cache.info.path)
    (pageIds : List Nat) :
    collectRowPages disk' first last cache pageIds =
      collectRowPages disk first last cache pageIds := by
  induction pageIds generalizing cache with
  | nil => rfl
  | cons pageId pageIds ih =>
    rw [collectRowPages, collectRowPages, getRowPage, getRowPage, getPage_congr h]
    apply bind_congr_ok
    rintro ⟨page, next⟩ hpage
    obtain ⟨⟨page', next'⟩, hget, hok⟩ := Result.bind_eq_ok.mp hpage
    cases hok
    have hinfo := info_getPage hget
    dsimp only
    rw [ih (by rw [hinfo]; exact h)]

private theorem collectColumnPages_congr (h : SameFiles disk disk' cache.info.path)
    (pageIds : List Nat) :
    collectColumnPages disk' first last cache pageIds =
      collectColumnPages disk first last cache pageIds := by
  induction pageIds generalizing cache with
  | nil => rfl
  | cons pageId pageIds ih =>
    rw [collectColumnPages, collectColumnPages, getColumnPage, getColumnPage, getPage_congr h]
    apply bind_congr_ok
    rintro ⟨page, next⟩ hpage
    obtain ⟨⟨page', next'⟩, hget, hok⟩ := Result.bind_eq_ok.mp hpage
    cases hok
    have hinfo := info_getPage hget
    dsimp only
    rw [ih (by rw [hinfo]; exact h)]

private theorem collectStatsPages_congr (h : SameFiles disk disk' cache.info.path)
    (columnIdx : Nat) (pageIds : List Nat) :
    collectStatsPages disk' columnIdx first last cache pageIds =
      collectStatsPages disk columnIdx first last cache pageIds := by
  induction pageIds generalizing cache with
  | nil => rfl
  | cons pageId pageIds ih =>
    rw [collectStatsPages, collectStatsPages, getStatsPage, getStatsPage, getPage_congr h]
    apply bind_congr_ok
    rintro ⟨page, next⟩ hpage
    obtain ⟨⟨page', next'⟩, hget, hok⟩ := Result.bind_eq_ok.mp hpage
    cases hok
    have hinfo := info_getPage hget
    dsimp only
    rw [ih (by rw [hinfo]; exact h)]

private theorem collectStatsColumns_congr (h : SameFiles disk disk' cache.info.path)
    (byColumn : List (Nat × List NumericBlockStats)) (columnIndices : List Nat) :
    collectStatsColumns disk' first last cache byColumn columnIndices =
      collectStatsColumns disk first last cache byColumn columnIndices := by
  induction columnIndices generalizing cache byColumn with
  | nil => rfl
  | cons columnIdx columnIndices ih =>
    rw [collectStatsColumns, collectStatsColumns, collectStatsPages_congr h]
    apply bind_congr_ok
    rintro ⟨stats, next⟩ hpages
    have hinfo := kept_collectStatsPages (kept_info disk cache.info) rfl hpages
    exact ih (by rw [hinfo]; exact h) _

theorem readRowMetadataRange_congr (h : SameFiles disk disk' cache.info.path) (count : Nat) :
    cache.readRowMetadataRange disk' first count = cache.readRowMetadataRange disk first count := by
  simp only [readRowMetadataRange, collectRowPages_congr h]

theorem readColumnMetadataRange_congr (h : SameFiles disk disk' cache.info.path) (count : Nat) :
    cache.readColumnMetadataRange disk' first count =
      cache.readColumnMetadataRange disk first count := by
  simp only [readColumnMetadataRange, collectColumnPages_congr h]

theorem readNumericStatsRange_congr (h : SameFiles disk disk' cache.info.path) (count : Nat)
    (columnIndices : List Nat) :
    cache.readNumericStatsRange disk' first count columnIndices =
      cache.readNumericStatsRange disk first count columnIndices := by
  simp only [readNumericStatsRange, collectStatsColumns_congr h]

end

end Htap.Read.SSTableMetadataCache

namespace Htap.Cursor

open Storage SSTable Read SSTableMetadataCache

variable {disk disk' : Disk} {metadataCache : SSTableMetadataCache} {range : KeyRange}
  {filter : DataSkippingFilter} {window : MetadataBlockRange}

theorem selectRowBlocks_congr (h : SameFiles disk disk' metadataCache.info.path) :
    selectRowBlocks disk' metadataCache range filter window =
      selectRowBlocks disk metadataCache range filter window := by
  rw [selectRowBlocks, selectRowBlocks, readRowMetadataRange_congr h]
  apply bind_congr_ok
  rintro ⟨candidates, next⟩ hread
  have hinfo := (kept_info disk metadataCache.info).readRowMetadataRange rfl hread
  dsimp only
  rw [readNumericStatsRange_congr (by rw [hinfo]; exact h)]

theorem selectColumnBlocks_congr (h : SameFiles disk disk' metadataCache.info.path) :
    selectColumnBlocks disk' metadataCache range filter window =
      selectColumnBlocks disk metadataCache range filter window := by
  rw [selectColumnBlocks, selectColumnBlocks, readColumnMetadataRange_congr h]
  apply bind_congr_ok
  rintro ⟨candidates, next⟩ hread
  have hinfo := (kept_info disk metadataCache.info).readColumnMetadataRange rfl hread
  dsimp only
  rw [readNumericStatsRange_congr (by rw [hinfo]; exact h)]

private theorem info_selectRowBlocks {blocks : List RowBlockMeta}
    {cache' : SSTableMetadataCache}
    (h : selectRowBlocks disk metadataCache range filter window = .ok (blocks, cache')) :
    cache'.info = metadataCache.info := by
  obtain ⟨⟨candidates, next⟩, hread, h⟩ := Result.bind_eq_ok.mp h
  have hnext := (kept_info disk metadataCache.info).readRowMetadataRange rfl hread
  dsimp only at h
  split at h
  · cases h
    exact hnext
  · obtain ⟨⟨stats, last⟩, hstats, h⟩ := Result.bind_eq_ok.mp h
    cases h
    exact (kept_info disk metadataCache.info).readNumericStatsRange hnext hstats

private theorem info_selectColumnBlocks {blocks : List ColumnBlockMeta}
    {cache' : SSTableMetadataCache}
    (h : selectColumnBlocks disk metadataCache range filter window = .ok (blocks, cache')) :
    cache'.info = metadataCache.info := by
  obtain ⟨⟨candidates, next⟩, hread, h⟩ := Result.bind_eq_ok.mp h
  have hnext := (kept_info disk metadataCache.info).readColumnMetadataRange rfl hread
  dsimp only at h
  split at h
  · cases h
    exact hnext
  · obtain ⟨⟨stats, last⟩, hstats, h⟩ := Result.bind_eq_ok.mp h
    cases h
    exact (kept_info disk metadataCache.info).readNumericStatsRange hnext hstats

/-- The metadata cache stays the one of its SSTable. -/
theorem info_makeSSTableCursor {info : SSTableInfo} {schema : List ValueType}
    {projection : List Nat} {w w' : World} {cursor : Option ScanCursor}
    {cache' : SSTableMetadataCache}
    (h : makeSSTableCursor disk info metadataCache range schema projection filter w =
      .ok (cursor, cache', w')) : cache'.info = metadataCache.info := by
  obtain ⟨reader, -, h⟩ := Result.bind_eq_ok.mp h
  obtain ⟨window, -, h⟩ := Result.bind_eq_ok.mp h
  dsimp only at h
  split at h
  · cases h
    rfl
  · split at h
    · obtain ⟨⟨blocks, next⟩, hselect, h⟩ := Result.bind_eq_ok.mp h
      have hinfo := info_selectRowBlocks hselect
      dsimp only at h
      split at h
      · cases h
        exact hinfo
      · obtain ⟨⟨found, blockCache⟩, -, h⟩ := Result.bind_eq_ok.mp h
        cases h
        exact hinfo
    · split at h
      · obtain ⟨⟨blocks, next⟩, hselect, h⟩ := Result.bind_eq_ok.mp h
        have hinfo := info_selectColumnBlocks hselect
        dsimp only at h
        split at h
        · cases h
          exact hinfo
        · obtain ⟨⟨found, blockCache⟩, -, h⟩ := Result.bind_eq_ok.mp h
          cases h
          exact hinfo
      · cases h

theorem makeSSTableCursor_congr {info : SSTableInfo} (hinfo : SameFiles disk disk' info.path)
    (hcache : SameFiles disk disk' metadataCache.info.path) (schema : List ValueType)
    (projection : List Nat) (w : World) :
    makeSSTableCursor disk' info metadataCache range schema projection filter w =
      makeSSTableCursor disk info metadataCache range schema projection filter w := by
  have hopen : SSTableReader.open disk' info.path info.id =
      SSTableReader.open disk info.path info.id := by
    rw [SSTableReader.open, SSTableReader.open, hinfo]
  simp only [makeSSTableCursor, hopen, selectRowBlocks_congr hcache,
    selectColumnBlocks_congr hcache]

end Htap.Cursor
