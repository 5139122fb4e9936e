import Htap.Cursor.Factory
import Htap.Read.Skipping

/-!
The cursor of an SSTable under a data-skipping filter: it goes through rows of the range
and leaves out none that passes the filter.
-/

namespace Htap.Cursor

open Storage SSTable Read Words

/-- No cell of the rows holds a NaN. -/
def Numbers (rows : List Row) : Prop :=
  ∀ row ∈ rows, ∀ d, some (Value.double d) ∈ row → d.isNaN = false

theorem Numbers.sub {rows more : List Row} (h : Numbers more) (hsub : rows ⊆ more) :
    Numbers rows :=
  fun row hrow => h row (hsub hrow)

section Select

variable {schema : Schema} {options : SparseIndexOptions} {t : Table} {disk : Disk}
  {metadataCache : SSTableMetadataCache} {range : KeyRange} {filter : DataSkippingFilter}
  {window : MetadataBlockRange}

/-- What a prepared read of an SSTable has to be told. -/
structure Skips (schema : Schema) (options : SparseIndexOptions) (t : Table)
    (filter : DataSkippingFilter) : Prop where
  wellFormed : t.WellFormed schema options
  narrow : schema.size ≤ 65535
  numbers : Numbers t.rows
  ordered : filter.Ordered

/-- A block that is pruned has no row that passes. -/
private theorem skipped_block (h : Skips schema options t filter) {requested : List Nat}
    {stats : NumericStatsRange}
    (hstats : StatsOf schema t.blocks window.firstBlockId window.blockCount requested stats)
    {earlier later : List (List Row)} {rows : List Row}
    (hblocks : t.blocks = earlier ++ rows :: later)
    (hskipped : maySatisfy (u32 (u32 earlier.length)) stats filter = false) :
    ∀ row ∈ rows, filter.passes row = false := by
  intro row hrow
  by_contra hpasses
  rw [Bool.not_eq_false] at hpasses
  have hlt : earlier.length < 2 ^ 32 := by
    have hcount := h.wellFormed.counted.blocks
    rw [hblocks, List.length_append] at hcount
    omega
  have hget : t.blocks[earlier.length]? = some rows := by
    rw [hblocks, List.getElem?_append_right le_rfl, Nat.sub_self, List.getElem?_cons_zero]
  have hmem : rows ∈ t.blocks := List.mem_of_getElem? hget
  have hsub : rows ⊆ t.rows := fun r hr => List.mem_flatten_of_mem hmem hr
  rw [u32_of_lt hlt, u32_of_lt hlt] at hskipped
  rw [maySatisfy_of_passes hstats h.ordered hget (fun r hr => h.wellFormed.valid r (hsub hr))
    (h.numbers.sub hsub) hrow hpasses] at hskipped
  cases hskipped

/-- Pruning row blocks. -/
theorem selectRowBlocks_skipping (h : Skips schema options t filter) (hlayout : t.layout = .row)
    (hcoherent : metadataCache.Coherent disk (t.files schema options))
    (hinfo : metadataCache.info.numBlocks = t.blocks.length) (hpos : 0 < window.blockCount)
    (hle : window.firstBlockId + window.blockCount ≤ t.blocks.length)
    (hsound : Sound t.blocks range window) :
    ∃ (entries : List (RowBlockMeta × List Row)) (cache' : SSTableMetadataCache),
      selectRowBlocks disk metadataCache range filter window =
        .ok (entries.map Prod.fst, cache') ∧
      entries.Sublist t.rowBlocks ∧
      Pruned filter.passes (inRange range t.rows)
        (inRange range (entries.map Prod.snd).flatten) := by
  obtain ⟨candidates, next, hread, hblocks, hnext, hsame⟩ :=
    readCandidates_row h.wellFormed hlayout hcoherent hinfo hle range
  have hall := inRange_windowRows hsound hle
  have hsub := windowRows_sublist t range window
  unfold selectRowBlocks
  rw [hread, Result.ok_bind]
  dsimp only
  rw [hblocks]
  split
  · exact ⟨_, next, rfl, hsub, hall ▸ Pruned.refl _ _⟩
  · obtain ⟨stats, last, hstatsRead, hstats, -, -⟩ := h.wellFormed.readNumericStatsRange h.narrow
      hnext (by rw [hsame.1, hinfo]) hpos hle filter.referencedColumns
    rw [hstatsRead, Result.ok_bind]
    dsimp only
    unfold filterRowBlocks
    split
    · exact ⟨_, last, rfl, hsub, hall ▸ Pruned.refl _ _⟩
    · refine ⟨(windowRows t range window).filter fun entry =>
        maySatisfy (u32 entry.1.blockId) stats filter, last, ?_,
        List.filter_sublist.trans hsub, ?_⟩
      · rw [List.filter_map]
        rfl
      · rw [← hall]
        refine (Pruned.groups ?_).filter _
        intro entry hentry hdropped
        obtain ⟨earlier, rows, later, hsplit, rfl⟩ := Table.mem_rowBlocks (hsub.subset hentry)
        exact skipped_block h hstats hsplit hdropped

/-- No id gets lost when neighbours that are alike are joined. -/
private theorem mem_logicalBlockIds {blocks : List ColumnBlockMeta} {block : ColumnBlockMeta}
    (h : block ∈ blocks) : u32 block.blockId ∈ logicalBlockIds blocks := by
  have hall : ∀ (ids : List Nat) (a : Nat), ∀ b ∈ a :: ids, b ∈ ids.destutter' (· ≠ ·) a := by
    intro ids
    induction ids with
    | nil => exact fun a b hb => hb
    | cons c ids ih =>
      intro a b hb
      by_cases hne : a ≠ c
      · rw [List.destutter'_cons_pos _ hne]
        rcases List.mem_cons.mp hb with rfl | hrest
        · exact List.mem_cons_self
        · exact List.mem_cons_of_mem a (ih c b hrest)
      · rw [List.destutter'_cons_neg _ hne]
        obtain rfl := not_not.mp hne
        apply ih
        rcases List.mem_cons.mp hb with rfl | hrest
        · exact List.mem_cons_self
        · exact hrest
  have hmem : u32 block.blockId ∈ blocks.map fun block => u32 block.blockId :=
    List.mem_map_of_mem h
  unfold logicalBlockIds
  cases hids : blocks.map fun block => u32 block.blockId with
  | nil =>
    rw [hids] at hmem
    cases hmem
  | cons a ids =>
    rw [hids] at hmem
    exact hall ids a _ hmem

/-- Pruning logical column blocks. -/
theorem selectColumnBlocks_skipping (h : Skips schema options t filter)
    (hlayout : t.layout = .column)
    (hcoherent : metadataCache.Coherent disk (t.files schema options))
    (hinfo : metadataCache.info.numBlocks = t.blocks.length)
    (hcolumns : metadataCache.columnsCount = schema.size) (hpos : 0 < window.blockCount)
    (hle : window.firstBlockId + window.blockCount ≤ t.blocks.length)
    (hsound : Sound t.blocks range window) :
    ∃ (entries : List (List ColumnBlockMeta × List Row)) (cache' : SSTableMetadataCache),
      selectColumnBlocks disk metadataCache range filter window =
        .ok ((entries.map Prod.fst).flatten, cache') ∧
      entries.Sublist (t.columnBlocks schema) ∧
      Pruned filter.passes (inRange range t.rows)
        (inRange range (entries.map Prod.snd).flatten) := by
  obtain ⟨candidates, next, hread, hblocks, hnext, hsame⟩ :=
    readCandidates_column h.wellFormed hlayout hcoherent hinfo hcolumns hle range
  have hall : inRange range ((windowColumns schema t range window).map Prod.snd).flatten =
      inRange range t.rows := inRange_windowColumns hsound hle
  have hsub := windowColumns_sublist schema t range window
  unfold selectColumnBlocks
  rw [hread, Result.ok_bind]
  dsimp only
  rw [hblocks]
  split
  · exact ⟨_, next, rfl, hsub, hall ▸ Pruned.refl _ _⟩
  · obtain ⟨stats, last, hstatsRead, hstats, -, -⟩ := h.wellFormed.readNumericStatsRange h.narrow
      hnext (by rw [hsame.1, hinfo]) hpos hle filter.referencedColumns
    rw [hstatsRead, Result.ok_bind]
    dsimp only
    refine ⟨_, last, congrArg (fun blocks => Except.ok (blocks, last)) (filter_groups _ _ ?_),
      List.filter_sublist.trans hsub, ?_⟩
    · intro entry hentry x hx y hy
      rw [(columnBlocks_alike (hsub.subset hentry)).2 x hx y hy]
    · rw [← hall]
      refine (Pruned.groups ?_).filter _
      intro entry hentry hdropped
      obtain ⟨earlier, rows, later, hsplit, rfl⟩ := Table.mem_columnBlocks (hsub.subset hentry)
      rw [List.all_eq_false] at hdropped
      obtain ⟨block, hblock, hunselected⟩ := hdropped
      have hmem := mem_logicalBlockIds
        (List.mem_flatten_of_mem (List.mem_map_of_mem hentry) hblock)
      obtain ⟨i, -, rfl⟩ := List.mem_map.mp hblock
      apply skipped_block h hstats hsplit
      rw [List.contains_iff_mem] at hunselected
      unfold filterLogicalBlockIds at hunselected
      split at hunselected
      · exact absurd hmem hunselected
      · rw [List.mem_filter, not_and, Bool.not_eq_true] at hunselected
        exact hunselected hmem

end Select

section Make

variable {schema : Schema} {options : SparseIndexOptions} {disk : Disk}
  {contents : CacheKey → Option Bytes} {t : Table} {info : SSTableInfo}
  {metadataCache : SSTableMetadataCache} {projection : List Nat} {range : KeyRange}
  {filter : DataSkippingFilter} {w : World}

/-- Opening an SSTable with a filter succeeds, and no row that passes is missing. -/
theorem makeSSTableCursor_skipping (h : Serves schema options disk contents t info metadataCache)
    (hskips : Skips schema options t filter) (hnodup : projection.Nodup)
    (hbound : ∀ i ∈ projection, i < schema.size) (hcache : CacheCoherent contents w.blockCache)
    (hrange : range.fromKey = none ∨ StrictRows t.rows) :
    ∃ cursor cache' w' rows,
      makeSSTableCursor disk info metadataCache range schema.types projection filter w =
        .ok (cursor, cache', w') ∧
      HoldsOption schema projection contents w' cursor rows ∧
      Pruned filter.passes (inRange range t.rows) rows := by
  have hnum := h.describes.numBlocks_eq h.wellFormed
  have hinfoNum : metadataCache.info.numBlocks = t.blocks.length := by rw [h.info, hnum]
  obtain ⟨window, hwindow, hle, hsound⟩ :=
    selectMetadataRange_sound (h.wellFormed.indexed hrange) h.sparseIndex
  unfold makeSSTableCursor
  rw [h.open_eq, Result.ok_bind, hnum, hwindow, Result.ok_bind]
  split
  · rename_i hzero
    have hrows := inRange_windowRows hsound hle
    rw [windowRows, hzero, Nat.add_zero, Splitting.slice_self] at hrows
    exact ⟨none, metadataCache, w, [], rfl, rfl, hrows ▸ Pruned.refl _ _⟩
  · rename_i hnonzero
    have hpos : 0 < window.blockCount := Nat.pos_of_ne_zero hnonzero
    rw [h.describes.layout]
    cases hlayout : t.layout with
    | row =>
      obtain ⟨entries, next, hselect, hsub, hpruned⟩ := selectRowBlocks_skipping hskips hlayout
        h.coherent hinfoNum hpos hle hsound
      rw [if_pos rfl, hselect, Result.ok_bind]
      dsimp only
      split
      · rename_i hempty
        have hnone : entries = [] := by simpa using hempty
        rw [hnone] at hpruned
        exact ⟨none, next, w, [], rfl, rfl, hpruned⟩
      · obtain ⟨c, cache, hcreate, -, hholds⟩ := SSTableRowCursor.create_spec h.wellFormed
          hlayout h.reader_data h.contents hnodup hbound range hsub.subset hcache
        rw [hcreate, Result.ok_bind]
        exact ⟨some (.sstableRow c), next, { w with blockCache := cache }, _, rfl,
          hholds { w with blockCache := cache }, hpruned⟩
    | column =>
      obtain ⟨entries, next, hselect, hsub, hpruned⟩ := selectColumnBlocks_skipping hskips
        hlayout h.coherent hinfoNum (h.columnsCount_eq hlayout) hpos hle hsound
      rw [if_neg (by decide), if_pos rfl, hselect, Result.ok_bind]
      dsimp only
      split
      · rename_i hempty
        have hnone : entries = [] := by
          rw [List.isEmpty_iff, List.flatten_eq_nil_iff] at hempty
          rw [List.eq_nil_iff_forall_not_mem]
          intro entry hentry
          have hgroup := hempty entry.1 (List.mem_map_of_mem hentry)
          obtain ⟨earlier, rows, later, -, rfl⟩ := Table.mem_columnBlocks (hsub.subset hentry)
          obtain ⟨keyColumn, columns, hkeyed, -⟩ := h.wellFormed.keyed.keyFirst
          have hsize : schema.size = 0 := by simpa [logicalBlockMetas] using hgroup
          simp [Schema.size, hkeyed] at hsize
        rw [hnone] at hpruned
        exact ⟨none, next, w, [], rfl, rfl, hpruned⟩
      · obtain ⟨c, cache, hcreate, -, hholds⟩ := SSTableColumnCursor.create_spec h.wellFormed
          hlayout h.reader_data h.contents hbound range hsub hcache
        rw [hcreate, Result.ok_bind]
        exact ⟨some (.sstableColumn c), next, { w with blockCache := cache }, _, rfl,
          hholds { w with blockCache := cache }, hpruned⟩

end Make

end Htap.Cursor
