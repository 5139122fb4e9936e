import Htap.Read.FileRanges
import Htap.Read.MetadataCache

/-!
Reading a range of blocks through the pages of an `SSTableMetadataCache` gives
what reading the range directly gives, for any page size and whatever pages
were evicted in between.
-/

namespace Htap.Read

open Storage SSTable Words

namespace SSTableMetadataCache

variable {cache : SSTableMetadataCache} {disk : Disk} {files : SSTableFiles}

/-! ## Pages of a range -/

/-- Where page `p` ends within a range; the start of the range before it. -/
private def cut (pageBlocks first last p : Nat) : Nat := max first (min last (p * pageBlocks))

private theorem cut_monotone (pageBlocks first last : Nat) :
    Monotone (cut pageBlocks first last) := by
  intro p q hpq
  have := Nat.mul_le_mul_right pageBlocks hpq
  unfold cut
  omega

/-- The blocks of page `p`. -/
private def pageLength (pageBlocks numBlocks p : Nat) : Nat :=
  min pageBlocks (numBlocks - p * pageBlocks)

variable {pageBlocks numBlocks : Nat}

/-- Page `p` covers the range from one cut to the next. -/
private theorem page_window (hpos : 0 < pageBlocks) {first last p : Nat} (hfirst : first < last)
    (hlast : last ≤ numBlocks) (hp : first / pageBlocks ≤ p) (hp' : p ≤ (last - 1) / pageBlocks) :
    max first (p * pageBlocks) = cut pageBlocks first last p ∧
      min last (p * pageBlocks + pageLength pageBlocks numBlocks p) =
        cut pageBlocks first last (p + 1) ∧
      p * pageBlocks < numBlocks := by
  have hbelow : p * pageBlocks ≤ last - 1 :=
    (Nat.mul_le_mul_right pageBlocks hp').trans (Nat.div_mul_le_self (last - 1) pageBlocks)
  have habove : first < p * pageBlocks + pageBlocks :=
    (Nat.lt_div_mul_add hpos).trans_le
      (Nat.add_le_add_right (Nat.mul_le_mul_right pageBlocks hp) pageBlocks)
  unfold cut pageLength
  rw [Nat.add_mul, Nat.one_mul]
  omega

/-- The records of a range, `width` to a block, page by page. -/
private theorem glue_pages {α : Type} (records : List α) (width : Nat) (hpos : 0 < pageBlocks)
    {first last : Nat} (hfirst : first < last) (hlast : last ≤ numBlocks) :
    ((List.range' (first / pageBlocks)
        ((last - 1) / pageBlocks + 1 - first / pageBlocks)).flatMap fun p =>
      Splitting.slice
        (Splitting.slice records (p * pageBlocks * width)
          ((p * pageBlocks + pageLength pageBlocks numBlocks p) * width))
        ((max first (p * pageBlocks) - p * pageBlocks) * width)
        ((min last (p * pageBlocks + pageLength pageBlocks numBlocks p) - p * pageBlocks)
          * width)) =
      Splitting.slice records (first * width) (last * width) := by
  have hpiece : ∀ p ∈ List.range' (first / pageBlocks)
      ((last - 1) / pageBlocks + 1 - first / pageBlocks),
      Splitting.slice
        (Splitting.slice records (p * pageBlocks * width)
          ((p * pageBlocks + pageLength pageBlocks numBlocks p) * width))
        ((max first (p * pageBlocks) - p * pageBlocks) * width)
        ((min last (p * pageBlocks + pageLength pageBlocks numBlocks p) - p * pageBlocks) * width) =
      Splitting.slice records (cut pageBlocks first last p * width)
        (cut pageBlocks first last (p + 1) * width) := by
    intro p hp
    obtain ⟨hp1, hp2⟩ := List.mem_range'_1.mp hp
    obtain ⟨h1, h2, -⟩ := page_window hpos hfirst hlast hp1 (by omega)
    rw [Nat.sub_mul, Nat.sub_mul, Splitting.slice_slice, h1, h2]
    · exact Nat.mul_le_mul_right width (le_max_right _ _)
    · exact Nat.mul_le_mul_right width (min_le_right _ _)
  rw [List.flatMap_congr hpiece]
  have hglue := Splitting.flatMap_slice records (fun p => cut pageBlocks first last p * width)
    (fun p q hpq => Nat.mul_le_mul_right width (cut_monotone pageBlocks first last hpq))
    (first / pageBlocks) ((last - 1) / pageBlocks + 1 - first / pageBlocks)
  rw [hglue]
  have hstart : cut pageBlocks first last (first / pageBlocks) = first := by
    have := Nat.div_mul_le_self first pageBlocks
    unfold cut
    omega
  have hcover : first / pageBlocks + ((last - 1) / pageBlocks + 1 - first / pageBlocks) =
      (last - 1) / pageBlocks + 1 := by
    have : first / pageBlocks ≤ (last - 1) / pageBlocks := Nat.div_le_div_right (by omega)
    omega
  have hend : cut pageBlocks first last ((last - 1) / pageBlocks + 1) = last := by
    have hover : last - 1 < (last - 1) / pageBlocks * pageBlocks + pageBlocks :=
      Nat.lt_div_mul_add hpos
    unfold cut
    rw [Nat.add_mul, Nat.one_mul]
    omega
  rw [hcover, hstart, hend]

/-- Every page of a range starts within the table. -/
private theorem page_start_lt (hpos : 0 < pageBlocks) {first last p : Nat} (hfirst : first < last)
    (hlast : last ≤ numBlocks)
    (hp : p ∈ List.range' (first / pageBlocks)
      ((last - 1) / pageBlocks + 1 - first / pageBlocks)) : p * pageBlocks < numBlocks := by
  obtain ⟨hp1, hp2⟩ := List.mem_range'_1.mp hp
  exact (page_window hpos hfirst hlast hp1 (by omega)).2.2

section Page

variable {pageId : Nat}

theorem pageFirstBlock_eq (hpage : pageId * cache.pageBlocks < cache.info.numBlocks)
    (hlt : cache.info.numBlocks < 2 ^ 32) :
    cache.pageFirstBlock pageId = pageId * cache.pageBlocks := by
  rw [pageFirstBlock, u32_of_lt (hpage.trans hlt)]

private theorem pageBlockCount_eq (hpage : pageId * cache.pageBlocks < cache.info.numBlocks)
    (hlt : cache.info.numBlocks < 2 ^ 32) :
    cache.pageBlockCount pageId = pageLength cache.pageBlocks cache.info.numBlocks pageId := by
  rw [pageBlockCount, pageFirstBlock_eq hpage hlt, if_neg (not_le.mpr hpage), pageLength]

private theorem page_end_le (hpage : pageId * pageBlocks < numBlocks) :
    pageId * pageBlocks + pageLength pageBlocks numBlocks pageId ≤ numBlocks := by
  unfold pageLength
  omega

private theorem u32_length_page {α : Type} {records : List α}
    (hrecords : numBlocks ≤ records.length)
    (hlt : numBlocks < 2 ^ 32) (hpage : pageId * pageBlocks < numBlocks) :
    u32 (Splitting.slice records (pageId * pageBlocks)
      (pageId * pageBlocks + pageLength pageBlocks numBlocks pageId)).length =
        pageLength pageBlocks numBlocks pageId := by
  have hend := page_end_le hpage
  rw [Splitting.length_slice records (hend.trans hrecords), Nat.add_sub_cancel_left, u32_of_lt]
  omega

end Page

/-! ## Row metadata -/

section Rows

variable {metas : List RowBlockMeta}

/-- The reader gives the records of every range of the table's blocks. -/
def ReadsRows (files : SSTableFiles) (numBlocks : Nat) (metas : List RowBlockMeta) : Prop :=
  numBlocks ≤ metas.length ∧ ∀ first count, first + count ≤ numBlocks →
    Read.readRowMetadataRange files first count =
      .ok (Splitting.slice metas first (first + count))

private theorem loadPage_row (h : cache.Coherent disk files)
    (hreads : ReadsRows files cache.info.numBlocks metas) (hlt : cache.info.numBlocks < 2 ^ 32)
    {pageId : Nat} (hpage : pageId * cache.pageBlocks < cache.info.numBlocks) :
    cache.loadPage disk ⟨.rowMetadata, pageId, 0⟩ =
      .ok (.row (Splitting.slice metas (pageId * cache.pageBlocks)
        (pageId * cache.pageBlocks +
          pageLength cache.pageBlocks cache.info.numBlocks pageId))) := by
  have hread := hreads.2 _ _ (page_end_le hpage)
  unfold loadPage
  rw [sstableFiles, h.files, Result.ok_bind]
  simp only [pageFirstBlock_eq hpage hlt, pageBlockCount_eq hpage hlt, hread, Result.ok_bind,
    Result.pure_eq]

private theorem collectRowPages_eq (hreads : ReadsRows files numBlocks metas)
    (hlt : numBlocks < 2 ^ 32) (first last : Nat) (pageIds : List Nat)
    (h : cache.Coherent disk files) (hcount : cache.info.numBlocks = numBlocks)
    (hsize : cache.pageBlocks = pageBlocks)
    (hpages : ∀ p ∈ pageIds, p * pageBlocks < numBlocks) :
    ∃ cache', collectRowPages disk first last cache pageIds =
        .ok (pageIds.flatMap fun p => Splitting.slice
          (Splitting.slice metas (p * pageBlocks)
            (p * pageBlocks + pageLength pageBlocks numBlocks p))
          (max first (p * pageBlocks) - p * pageBlocks)
          (min last (p * pageBlocks + pageLength pageBlocks numBlocks p) - p * pageBlocks),
          cache') := by
  induction pageIds generalizing cache with
  | nil => exact ⟨cache, rfl⟩
  | cons pageId pageIds ih =>
    have hpage := hpages pageId List.mem_cons_self
    subst hcount hsize
    obtain ⟨next, hget, hnext, hsame⟩ := h.getPage (loadPage_row h hreads hlt hpage)
    obtain ⟨last', hrest⟩ := ih hnext (by rw [hsame.1]) hsame.2.2.1
      fun p hp => hpages p (List.mem_cons_of_mem _ hp)
    have hfirst : next.pageFirstBlock pageId = pageId * cache.pageBlocks := by
      rw [pageFirstBlock_eq (by rw [hsame.1, hsame.2.2.1]; exact hpage)
        (by rw [hsame.1]; exact hlt),
        hsame.2.2.1]
    refine ⟨last', ?_⟩
    rw [collectRowPages, getRowPage, hget]
    simp only [Result.ok_bind, Result.pure_eq, Page.rows, hfirst,
      u32_length_page hreads.1 hlt hpage, hrest, List.flatMap_cons]

/-- A range of row blocks read through the pages is that range of the records. -/
theorem readRowMetadataRange_of_reads (h : cache.Coherent disk files)
    (hreads : ReadsRows files cache.info.numBlocks metas) (hlt : cache.info.numBlocks < 2 ^ 32)
    {first count : Nat} (hrange : first + count ≤ cache.info.numBlocks) :
    ∃ cache', cache.readRowMetadataRange disk first count =
        .ok (Splitting.slice metas first (first + count), cache') ∧
      cache'.Coherent disk files ∧ SameTable cache' cache := by
  suffices hread : ∃ cache', cache.readRowMetadataRange disk first count =
      .ok (Splitting.slice metas first (first + count), cache') by
    obtain ⟨cache', hread⟩ := hread
    exact ⟨cache', hread,
      (kept_coherent cache).readRowMetadataRange ⟨h, SameTable.refl cache⟩ hread⟩
  unfold readRowMetadataRange
  split
  · rename_i hzero
    exact ⟨cache, by rw [hzero, Nat.add_zero, Splitting.slice_self]⟩
  · have hlast : u32 (first + count) = first + count := u32_of_lt (by omega)
    have hfirst : first < first + count := by omega
    dsimp only
    rw [hlast, if_neg (by omega), pageIds]
    obtain ⟨cache', hcollect⟩ := collectRowPages_eq hreads hlt first (first + count) _ h rfl rfl
      fun p hp => page_start_lt h.pageBlocks hfirst hrange hp
    have hglue := glue_pages metas 1 h.pageBlocks hfirst hrange
    simp only [Nat.mul_one] at hglue
    rw [hglue] at hcollect
    exact ⟨cache', hcollect⟩

theorem readRowMetadataRange_eq (h : cache.Coherent disk files)
    (hmetadata : files.metadata = metas.flatMap RowBlockMeta.encode)
    (hfits : ∀ m ∈ metas, m.Fits) (hcount : cache.info.numBlocks = metas.length)
    (hlt : metas.length < 2 ^ 32) {first count : Nat} (hrange : first + count ≤ metas.length) :
    ∃ cache', cache.readRowMetadataRange disk first count =
        .ok (Splitting.slice metas first (first + count), cache') ∧
      cache'.Coherent disk files ∧ SameTable cache' cache := by
  rw [← hcount] at hlt hrange
  refine readRowMetadataRange_of_reads h ⟨hcount.le, fun first count hrange => ?_⟩ hlt hrange
  rw [Read.readRowMetadataRange_eq hmetadata hfits (by omega), Splitting.slice,
    Nat.add_sub_cancel_left]

end Rows

/-! ## Column metadata -/

section Columns

variable {metas : List ColumnBlockMeta} {width : Nat}

/-- The reader gives the records of every range, `width` to a block. -/
def ReadsColumns (files : SSTableFiles) (numBlocks width : Nat) (metas : List ColumnBlockMeta) :
    Prop :=
  ∀ first count, first + count ≤ numBlocks →
    Read.readColumnMetadataRange files first count width =
      .ok (Splitting.slice metas (first * width) ((first + count) * width))

private theorem loadPage_column (h : cache.Coherent disk files)
    (hreads : ReadsColumns files cache.info.numBlocks cache.columnsCount metas)
    (hlt : cache.info.numBlocks < 2 ^ 32) {pageId : Nat}
    (hpage : pageId * cache.pageBlocks < cache.info.numBlocks) :
    cache.loadPage disk ⟨.columnMetadata, pageId, 0⟩ =
      .ok (.column (Splitting.slice metas (pageId * cache.pageBlocks * cache.columnsCount)
        ((pageId * cache.pageBlocks +
          pageLength cache.pageBlocks cache.info.numBlocks pageId) * cache.columnsCount))) := by
  have hread := hreads _ _ (page_end_le hpage)
  unfold loadPage
  rw [sstableFiles, h.files, Result.ok_bind]
  simp only [pageFirstBlock_eq hpage hlt, pageBlockCount_eq hpage hlt, hread, Result.ok_bind,
    Result.pure_eq]

private theorem collectColumnPages_eq (hreads : ReadsColumns files numBlocks width metas)
    (hlt : numBlocks < 2 ^ 32) (first last : Nat) (pageIds : List Nat)
    (h : cache.Coherent disk files) (hcount : cache.info.numBlocks = numBlocks)
    (hsize : cache.pageBlocks = pageBlocks) (hwidth : cache.columnsCount = width)
    (hpages : ∀ p ∈ pageIds, p * pageBlocks < numBlocks) :
    ∃ cache', collectColumnPages disk first last cache pageIds =
        .ok (pageIds.flatMap fun p => Splitting.slice
          (Splitting.slice metas (p * pageBlocks * width)
            ((p * pageBlocks + pageLength pageBlocks numBlocks p) * width))
          ((max first (p * pageBlocks) - p * pageBlocks) * width)
          ((min last (p * pageBlocks + pageLength pageBlocks numBlocks p) - p * pageBlocks) *
            width), cache') := by
  induction pageIds generalizing cache with
  | nil => exact ⟨cache, rfl⟩
  | cons pageId pageIds ih =>
    have hpage := hpages pageId List.mem_cons_self
    subst hcount hsize hwidth
    obtain ⟨next, hget, hnext, hsame⟩ := h.getPage (loadPage_column h hreads hlt hpage)
    obtain ⟨last', hrest⟩ := ih hnext (by rw [hsame.1]) hsame.2.2.1 hsame.2.1
      fun p hp => hpages p (List.mem_cons_of_mem _ hp)
    have hpage' : pageId * next.pageBlocks < next.info.numBlocks := by
      rw [hsame.1, hsame.2.2.1]
      exact hpage
    have hlt' : next.info.numBlocks < 2 ^ 32 := by rwa [hsame.1]
    refine ⟨last', ?_⟩
    rw [collectColumnPages, getColumnPage, hget]
    simp only [Result.ok_bind, Result.pure_eq, Page.columns, pageFirstBlock_eq hpage' hlt',
      pageBlockCount_eq hpage' hlt', hsame.1, hsame.2.1, hsame.2.2.1, hrest, List.flatMap_cons]

/-- A range of logical blocks read through the pages is that range of the
records, `columnsCount` to a block. -/
theorem readColumnMetadataRange_of_reads (h : cache.Coherent disk files)
    (hreads : ReadsColumns files cache.info.numBlocks cache.columnsCount metas)
    (hlt : cache.info.numBlocks < 2 ^ 32) {first count : Nat}
    (hrange : first + count ≤ cache.info.numBlocks) :
    ∃ cache', cache.readColumnMetadataRange disk first count =
        .ok (Splitting.slice metas (first * cache.columnsCount)
          ((first + count) * cache.columnsCount), cache') ∧
      cache'.Coherent disk files ∧ SameTable cache' cache := by
  suffices hread : ∃ cache', cache.readColumnMetadataRange disk first count =
      .ok (Splitting.slice metas (first * cache.columnsCount)
        ((first + count) * cache.columnsCount), cache') by
    obtain ⟨cache', hread⟩ := hread
    exact ⟨cache', hread,
      (kept_coherent cache).readColumnMetadataRange ⟨h, SameTable.refl cache⟩ hread⟩
  unfold readColumnMetadataRange
  split
  · rename_i hzero
    refine ⟨cache, ?_⟩
    rcases hzero with hzero | hzero
    · rw [hzero, Nat.add_zero, Splitting.slice_self]
    · rw [hzero, Nat.mul_zero, Nat.mul_zero, Splitting.slice_self]
  · have hlast : u32 (first + count) = first + count := u32_of_lt (by omega)
    have hfirst : first < first + count := by omega
    dsimp only
    rw [hlast, if_neg (by omega), pageIds]
    obtain ⟨cache', hcollect⟩ := collectColumnPages_eq hreads hlt first (first + count) _ h rfl
      rfl rfl fun p hp => page_start_lt h.pageBlocks hfirst hrange hp
    rw [glue_pages metas cache.columnsCount h.pageBlocks hfirst hrange] at hcollect
    exact ⟨cache', hcollect⟩

theorem readColumnMetadataRange_eq (h : cache.Coherent disk files)
    (hmetadata : files.metadata = metas.flatMap ColumnBlockMeta.encode)
    (hfits : ∀ m ∈ metas, m.Fits)
    (hlength : metas.length = cache.info.numBlocks * cache.columnsCount)
    (hlt : cache.info.numBlocks < 2 ^ 32) {first count : Nat}
    (hrange : first + count ≤ cache.info.numBlocks) :
    ∃ cache', cache.readColumnMetadataRange disk first count =
        .ok (Splitting.slice metas (first * cache.columnsCount)
          ((first + count) * cache.columnsCount), cache') ∧
      cache'.Coherent disk files ∧ SameTable cache' cache := by
  refine readColumnMetadataRange_of_reads h (fun first count hrange => ?_) hlt hrange
  rw [Read.readColumnMetadataRange_eq hmetadata hfits
    (by rw [hlength]; exact Nat.mul_le_mul_right _ hrange), Splitting.slice, ← Nat.sub_mul,
    Nat.add_sub_cancel_left]

end Columns

/-! ## Statistics -/

section Stats

variable {column : Nat → Option (List NumericBlockStats)}

/-- The reader gives a slice of each requested column's statistics, where the
column has any. -/
def ReadsStats (files : SSTableFiles) (numBlocks : Nat)
    (column : Nat → Option (List NumericBlockStats)) : Prop :=
  (∀ columnIdx, ∀ stats ∈ column columnIdx, stats.length = numBlocks) ∧
    ∀ first count columnIndices, 0 < count → first + count ≤ numBlocks →
      Read.readNumericStatsRange files first count columnIndices =
        .ok ⟨first, count, statsByColumn column first count columnIndices⟩

private theorem column_statsByColumn (first count columnIdx : Nat) :
    NumericStatsRange.column ⟨first, count, statsByColumn column first count [columnIdx]⟩
      columnIdx = (column columnIdx).map fun stats =>
        Splitting.slice stats first (first + count) := by
  simp only [statsByColumn, List.foldl_cons, List.foldl_nil, NumericStatsRange.column]
  cases column columnIdx with
  | none => rfl
  | some stats => simp [emplaceColumn]

private theorem loadPage_stats (h : cache.Coherent disk files)
    (hreads : ReadsStats files cache.info.numBlocks column)
    (hlt : cache.info.numBlocks < 2 ^ 32) {pageId columnIdx : Nat}
    (hpage : pageId * cache.pageBlocks < cache.info.numBlocks) :
    cache.loadPage disk ⟨.numericStats, pageId, columnIdx⟩ =
      .ok (.stats ((column columnIdx).map fun stats =>
        Splitting.slice stats (pageId * cache.pageBlocks)
          (pageId * cache.pageBlocks +
            pageLength cache.pageBlocks cache.info.numBlocks pageId))) := by
  have hpos : 0 < pageLength cache.pageBlocks cache.info.numBlocks pageId := by
    have := h.pageBlocks
    unfold pageLength
    omega
  have hread := hreads.2 _ _ [columnIdx] hpos (page_end_le hpage)
  unfold loadPage
  rw [sstableFiles, h.files, Result.ok_bind]
  simp only [pageFirstBlock_eq hpage hlt, pageBlockCount_eq hpage hlt, hread, Result.ok_bind,
    Result.pure_eq, column_statsByColumn]

private theorem collectStatsPages_eq (hreads : ReadsStats files numBlocks column)
    (hlt : numBlocks < 2 ^ 32) (columnIdx first last : Nat) (pageIds : List Nat)
    (h : cache.Coherent disk files) (hcount : cache.info.numBlocks = numBlocks)
    (hsize : cache.pageBlocks = pageBlocks)
    (hpages : ∀ p ∈ pageIds, p * pageBlocks < numBlocks)
    (hsome : pageIds = [] → (column columnIdx).isSome) :
    ∃ cache', collectStatsPages disk columnIdx first last cache pageIds =
        .ok ((column columnIdx).map fun stats => pageIds.flatMap fun p => Splitting.slice
          (Splitting.slice stats (p * pageBlocks)
            (p * pageBlocks + pageLength pageBlocks numBlocks p))
          (max first (p * pageBlocks) - p * pageBlocks)
          (min last (p * pageBlocks + pageLength pageBlocks numBlocks p) - p * pageBlocks),
          cache') := by
  induction pageIds generalizing cache with
  | nil =>
    obtain ⟨stats, hcolumn⟩ := Option.isSome_iff_exists.mp (hsome rfl)
    exact ⟨cache, by rw [hcolumn]; rfl⟩
  | cons pageId pageIds ih =>
    have hpage := hpages pageId List.mem_cons_self
    subst hcount hsize
    obtain ⟨next, hget, hnext, hsame⟩ := h.getPage (loadPage_stats h hreads hlt hpage)
    have hfirst : next.pageFirstBlock pageId = pageId * cache.pageBlocks := by
      rw [pageFirstBlock_eq (by rw [hsame.1, hsame.2.2.1]; exact hpage)
        (by rw [hsame.1]; exact hlt),
        hsame.2.2.1]
    cases hcolumn : column columnIdx with
    | none =>
      -- the first page tells that the file has no such column
      refine ⟨next, ?_⟩
      rw [hcolumn] at hget
      rw [collectStatsPages, getStatsPage, hget]
      rfl
    | some stats =>
      rw [hcolumn] at hget ih
      obtain ⟨last', hrest⟩ := ih hnext (by rw [hsame.1]) hsame.2.2.1
        (fun p hp => hpages p (List.mem_cons_of_mem _ hp)) fun _ => rfl
      have hlength := hreads.1 columnIdx stats hcolumn
      refine ⟨last', ?_⟩
      rw [collectStatsPages, getStatsPage, hget]
      simp only [Result.ok_bind, Result.pure_eq, Page.numericStats, Option.map_some, hfirst,
        u32_length_page hlength.ge hlt hpage, hrest, List.flatMap_cons]

private theorem collectStatsColumns_eq {first count : Nat}
    (hreads : ReadsStats files numBlocks column) (hlt : numBlocks < 2 ^ 32) (hpos : 0 < count)
    (hrange : first + count ≤ numBlocks) (columnIndices : List Nat)
    (byColumn : List (Nat × List NumericBlockStats)) (h : cache.Coherent disk files)
    (hcount : cache.info.numBlocks = numBlocks) :
    ∃ cache', collectStatsColumns disk first (first + count) cache byColumn columnIndices =
      .ok (columnIndices.foldl (fun byColumn columnIdx =>
        match column columnIdx with
        | some stats =>
          emplaceColumn byColumn columnIdx (Splitting.slice stats first (first + count))
        | none => byColumn) byColumn, cache') := by
  induction columnIndices generalizing cache byColumn with
  | nil => exact ⟨cache, rfl⟩
  | cons columnIdx columnIndices ih =>
    have hfirst : first < first + count := by omega
    have hpages : ∀ p ∈ cache.pageIds first (first + count), p * cache.pageBlocks < numBlocks :=
      fun p hp => page_start_lt h.pageBlocks hfirst hrange hp
    have hnonempty : cache.pageIds first (first + count) ≠ [] := by
      have hdiv : first / cache.pageBlocks ≤ (first + count - 1) / cache.pageBlocks :=
        Nat.div_le_div_right (by omega)
      rw [pageIds]
      apply List.ne_nil_of_length_pos
      rw [List.length_range']
      omega
    obtain ⟨next, hcollect⟩ := collectStatsPages_eq hreads hlt columnIdx first (first + count) _ h
      hcount rfl hpages fun hnil => absurd hnil hnonempty
    have hkeep := kept_collectStatsPages (kept_coherent cache) ⟨h, SameTable.refl cache⟩ hcollect
    have hglue : ∀ stats : List NumericBlockStats,
        ((cache.pageIds first (first + count)).flatMap fun p => Splitting.slice
          (Splitting.slice stats (p * cache.pageBlocks)
            (p * cache.pageBlocks + pageLength cache.pageBlocks numBlocks p))
          (max first (p * cache.pageBlocks) - p * cache.pageBlocks)
          (min (first + count) (p * cache.pageBlocks + pageLength cache.pageBlocks numBlocks p) -
            p * cache.pageBlocks)) = Splitting.slice stats first (first + count) := by
      intro stats
      have hpieces := glue_pages stats 1 h.pageBlocks hfirst hrange
      simp only [Nat.mul_one] at hpieces
      exact hpieces
    obtain ⟨last, hrest⟩ := ih (match column columnIdx with
      | some stats =>
        emplaceColumn byColumn columnIdx (Splitting.slice stats first (first + count))
      | none => byColumn) hkeep.1 (by rw [hkeep.2.1, hcount])
    refine ⟨last, ?_⟩
    rw [collectStatsColumns, hcollect, Result.ok_bind, List.foldl_cons, ← hrest]
    cases column columnIdx with
    | none => rfl
    | some stats =>
      simp only [Option.map_some, hglue]

/-- Statistics read through the pages are those the reader gives. -/
theorem readNumericStatsRange_of_reads (h : cache.Coherent disk files)
    (hreads : ReadsStats files cache.info.numBlocks column)
    (hlt : cache.info.numBlocks < 2 ^ 32) {first count : Nat} (columnIndices : List Nat)
    (hrange : first + count ≤ cache.info.numBlocks) :
    ∃ stats cache', cache.readNumericStatsRange disk first count columnIndices =
        .ok (stats, cache') ∧
      Read.readNumericStatsRange files first count columnIndices = .ok stats ∧
      cache'.Coherent disk files ∧ SameTable cache' cache := by
  suffices hread : ∃ stats cache', cache.readNumericStatsRange disk first count columnIndices =
      .ok (stats, cache') ∧
        Read.readNumericStatsRange files first count columnIndices = .ok stats by
    obtain ⟨stats, cache', hread, hdirect⟩ := hread
    exact ⟨stats, cache', hread, hdirect, h.of_readNumericStatsRange hread⟩
  unfold readNumericStatsRange
  split
  · rename_i hnone
    exact ⟨_, cache, rfl, by rw [Read.readNumericStatsRange, if_pos hnone]⟩
  · rename_i hsome
    have hpos : 0 < count := Nat.pos_of_ne_zero fun hzero => hsome (Or.inl hzero)
    have hlast : u32 (first + count) = first + count := u32_of_lt (by omega)
    dsimp only
    rw [hlast, if_neg (by omega)]
    obtain ⟨cache', hcollect⟩ :=
      collectStatsColumns_eq hreads hlt hpos hrange columnIndices [] h rfl
    refine ⟨_, cache', ?_, hreads.2 _ _ _ hpos hrange⟩
    rw [hcollect]
    rfl

end Stats

end SSTableMetadataCache

end Htap.Read
