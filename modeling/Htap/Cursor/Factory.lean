import Htap.Cursor.Compose
import Htap.Cursor.SSTableRow
import Htap.Cursor.SSTableColumn
import Htap.Read.MetadataPages

/-!
`make_sstable_cursor`: the sparse index, the block bounds and the statistics
choose the blocks of an SSTable, and a row or column cursor goes through them.
-/

namespace Htap.Cursor

open Storage SSTable Read Words

/-- The cursors `LSMTree::scan` composes. -/
inductive ScanCursor where
  | activeMemTable (c : ActiveMemTableCursor)
  | immutableMemTable (c : ImmutableMemTableCursor)
  | sstableRow (c : SSTableRowCursor)
  | sstableColumn (c : SSTableColumnCursor)

instance : ICursor ScanCursor where
  valid
    | .activeMemTable c => ICursor.valid c
    | .immutableMemTable c => ICursor.valid c
    | .sstableRow c => ICursor.valid c
    | .sstableColumn c => ICursor.valid c
  next
    | .activeMemTable c, w => do
      let (c, w) ← ICursor.next c w
      return (.activeMemTable c, w)
    | .immutableMemTable c, w => do
      let (c, w) ← ICursor.next c w
      return (.immutableMemTable c, w)
    | .sstableRow c, w => do
      let (c, w) ← ICursor.next c w
      return (.sstableRow c, w)
    | .sstableColumn c, w => do
      let (c, w) ← ICursor.next c w
      return (.sstableColumn c, w)
  key
    | .activeMemTable c => ICursor.key c
    | .immutableMemTable c => ICursor.key c
    | .sstableRow c => ICursor.key c
    | .sstableColumn c => ICursor.key c
  value
    | .activeMemTable c => ICursor.value c
    | .immutableMemTable c => ICursor.value c
    | .sstableRow c => ICursor.value c
    | .sstableColumn c => ICursor.value c

/-! ## Choosing blocks -/

/-- The candidates of a ROW SSTable that are left after pruning. -/
def selectRowBlocks (disk : Disk) (metadataCache : SSTableMetadataCache) (range : KeyRange)
    (filter : DataSkippingFilter) (window : MetadataBlockRange) :
    Result (List RowBlockMeta × SSTableMetadataCache) := do
  let (candidates, metadataCache) ←
    metadataCache.readRowMetadataRange disk window.firstBlockId window.blockCount
  let filteredBlocks := filterCandidateRowBlocks candidates range
  if filteredBlocks.isEmpty || filter.empty then return (filteredBlocks, metadataCache)
  else do
    let (stats, metadataCache) ← metadataCache.readNumericStatsRange disk window.firstBlockId
      window.blockCount filter.referencedColumns
    return (filterRowBlocks filteredBlocks stats filter, metadataCache)

/-- The block ids in a list of column blocks, each once. -/
def logicalBlockIds (blocks : List ColumnBlockMeta) : List Nat :=
  (blocks.map fun block => u32 block.blockId).destutter (· ≠ ·)

/-- The candidates of a COLUMN SSTable that are left after pruning. -/
def selectColumnBlocks (disk : Disk) (metadataCache : SSTableMetadataCache) (range : KeyRange)
    (filter : DataSkippingFilter) (window : MetadataBlockRange) :
    Result (List ColumnBlockMeta × SSTableMetadataCache) := do
  let (candidates, metadataCache) ←
    metadataCache.readColumnMetadataRange disk window.firstBlockId window.blockCount
  let filteredBlocks := filterCandidateColumnBlocks candidates range
  if filteredBlocks.isEmpty || filter.empty then return (filteredBlocks, metadataCache)
  else do
    let (stats, metadataCache) ← metadataCache.readNumericStatsRange disk window.firstBlockId
      window.blockCount filter.referencedColumns
    let selectedBlockIds := filterLogicalBlockIds (logicalBlockIds filteredBlocks) stats filter
    return (filteredBlocks.filter fun block => selectedBlockIds.contains (u32 block.blockId),
      metadataCache)

def makeSSTableCursor (disk : Disk) (info : SSTableInfo) (metadataCache : SSTableMetadataCache)
    (range : KeyRange) (schema : List ValueType) (projection : List Nat)
    (filter : DataSkippingFilter) (w : World) :
    Result (Option ScanCursor × SSTableMetadataCache × World) := do
  let reader ← SSTableReader.open disk info.path info.id
  let window ← selectMetadataRange metadataCache.sparseIndex range info.numBlocks
  if window.blockCount = 0 then return (none, metadataCache, w)
  else
    if info.layout = SSTLayout.row.code then do
      let (filteredBlocks, metadataCache) ←
        selectRowBlocks disk metadataCache range filter window
      if filteredBlocks.isEmpty then return (none, metadataCache, w)
      else do
        let (cursor, blockCache) ←
          SSTableRowCursor.create reader filteredBlocks range schema projection w.blockCache
        return (some (.sstableRow cursor), metadataCache, { w with blockCache := blockCache })
    else if info.layout = SSTLayout.column.code then do
      let (filteredBlocks, metadataCache) ←
        selectColumnBlocks disk metadataCache range filter window
      if filteredBlocks.isEmpty then return (none, metadataCache, w)
      else do
        let projectedBlocks := SSTableColumnCursor.projectedBlocks projection filteredBlocks
        let (cursor, blockCache) ←
          SSTableColumnCursor.create reader projectedBlocks range schema projection w.blockCache
        return (some (.sstableColumn cursor), metadataCache, { w with blockCache := blockCache })
    else .error (.runtimeError "Unsupported SSTable layout type")

/-! ## What the cursors of a scan hold -/

namespace ScanCursor

def Holds (schema : Schema) (projection : List Nat) (contents : CacheKey → Option Bytes)
    (w : World) : ScanCursor → List Row → Prop
  | .activeMemTable c, rows => ActiveMemTableCursor.Holds schema.size w c rows
  | .immutableMemTable c, rows => ImmutableMemTableCursor.Holds schema.size w c rows
  | .sstableRow c, rows => SSTableRowCursor.Holds schema projection contents w c rows
  | .sstableColumn c, rows => SSTableColumnCursor.Holds schema projection contents w c rows

theorem model {schema : Schema} {projection : List Nat}
    (hprojection : ∀ i ∈ projection, i < schema.size) (contents : CacheKey → Option Bytes) :
    CursorModel projection contents (Holds schema projection contents) where
  stable := by
    intro w w' c rows h hsame
    cases c with
    | activeMemTable c => exact (ActiveMemTableCursor.model hprojection contents).stable h hsame
    | immutableMemTable c =>
      exact (ImmutableMemTableCursor.model hprojection contents).stable h hsame
    | sstableRow c => exact (SSTableRowCursor.model schema projection contents).stable h hsame
    | sstableColumn c =>
      exact (SSTableColumnCursor.model schema projection contents).stable h hsame
  done := by
    intro w c h
    cases c with
    | activeMemTable c => exact (ActiveMemTableCursor.model hprojection contents).done h
    | immutableMemTable c =>
      exact (ImmutableMemTableCursor.model hprojection contents).done (w := w) h
    | sstableRow c => exact (SSTableRowCursor.model schema projection contents).done (w := w) h
    | sstableColumn c =>
      exact (SSTableColumnCursor.model schema projection contents).done (w := w) h
  row := by
    intro w c row rest hcache h
    cases c with
    | activeMemTable c =>
      obtain ⟨hvalid, hkey, hvalue, c', w', hnext, hrest⟩ :=
        (ActiveMemTableCursor.model hprojection contents).row hcache h
      refine ⟨hvalid, hkey, hvalue, .activeMemTable c', w', ?_, hrest⟩
      change (ICursor.next c w >>= _) = _
      rw [hnext]
      rfl
    | immutableMemTable c =>
      obtain ⟨hvalid, hkey, hvalue, c', w', hnext, hrest⟩ :=
        (ImmutableMemTableCursor.model hprojection contents).row hcache h
      refine ⟨hvalid, hkey, hvalue, .immutableMemTable c', w', ?_, hrest⟩
      change (ICursor.next c w >>= _) = _
      rw [hnext]
      rfl
    | sstableRow c =>
      obtain ⟨hvalid, hkey, hvalue, c', w', hnext, hrest⟩ :=
        (SSTableRowCursor.model schema projection contents).row hcache h
      refine ⟨hvalid, hkey, hvalue, .sstableRow c', w', ?_, hrest⟩
      change (ICursor.next c w >>= _) = _
      rw [hnext]
      rfl
    | sstableColumn c =>
      obtain ⟨hvalid, hkey, hvalue, c', w', hnext, hrest⟩ :=
        (SSTableColumnCursor.model schema projection contents).row hcache h
      refine ⟨hvalid, hkey, hvalue, .sstableColumn c', w', ?_, hrest⟩
      change (ICursor.next c w >>= _) = _
      rw [hnext]
      rfl

end ScanCursor

/-! ## The blocks that are chosen -/

section Select

variable {schema : Schema} {options : SparseIndexOptions} {t : Table} {disk : Disk}
  {metadataCache : SSTableMetadataCache} {range : KeyRange} {filter : DataSkippingFilter}
  {window : MetadataBlockRange}

theorem selectMetadataRange_le {index : List SparseIndexEntry} {totalBlocks : Nat}
    (h : selectMetadataRange index range totalBlocks = .ok window) :
    window.firstBlockId + window.blockCount ≤ totalBlocks := by
  unfold selectMetadataRange at h
  split at h
  · cases h
    exact Nat.zero_le _
  · split at h
    · cases h
      simp
    · dsimp only at h
      split at h
      · cases h
      · rename_i _ _ hfirst
        split at h
        · split at h
          · cases h
          · rename_i hlast
            cases h
            exact blockWindow_le (not_le.mp hfirst).le (not_le.mp hlast).le
        · cases h
          exact blockWindow_le (not_le.mp hfirst).le le_rfl

/-- Entries whose rows are all outside of the range can go. -/
theorem inRange_filter {β : Type} (range : KeyRange) (entries : List (β × List Row))
    (keep : β × List Row → Bool)
    (hdropped : ∀ entry ∈ entries, keep entry = false →
      ∀ row ∈ entry.2, range.contains (rowKey row) = false) :
    inRange range ((entries.filter keep).map Prod.snd).flatten =
      inRange range (entries.map Prod.snd).flatten := by
  induction entries with
  | nil => rfl
  | cons entry entries ih =>
    have hrest := ih fun e he => hdropped e (List.mem_cons_of_mem _ he)
    rw [List.map_cons, List.flatten_cons, inRange_append, ← hrest, List.filter_cons]
    split
    · rw [List.map_cons, List.flatten_cons, inRange_append]
    · rename_i hkeep
      have hnone : inRange range entry.2 = [] := by
        rw [inRange, List.filter_eq_nil_iff]
        intro row hrow
        simp [hdropped entry List.mem_cons_self (by simpa using hkeep) row hrow]
      rw [hnone, List.nil_append]

/-- The window keeps every row of the range. -/
theorem inRange_window {β : Type} {entries : List (β × List Row)}
    (hsound : Sound (entries.map Prod.snd) range window)
    (hle : window.firstBlockId + window.blockCount ≤ entries.length) :
    inRange range ((Splitting.slice entries window.firstBlockId
        (window.firstBlockId + window.blockCount)).map Prod.snd).flatten =
      inRange range (entries.map Prod.snd).flatten := by
  have hout : ∀ part : List (β × List Row),
      (∀ entry ∈ part, ∃ i, entries[i]? = some entry ∧
        (i < window.firstBlockId ∨ window.firstBlockId + window.blockCount ≤ i)) →
      inRange range (part.map Prod.snd).flatten = [] := by
    intro part hpart
    rw [inRange, List.filter_eq_nil_iff]
    intro row hrow
    obtain ⟨rows, hrows, hin⟩ := List.mem_flatten.mp hrow
    obtain ⟨entry, hentry, rfl⟩ := List.mem_map.mp hrows
    obtain ⟨i, hi, houtside⟩ := hpart entry hentry
    have hblock : (entries.map Prod.snd)[i]? = some entry.2 := by
      rw [List.getElem?_map, hi]
      rfl
    simp [hsound i entry.2 hblock houtside row hin]
  have hbefore : inRange range ((Splitting.slice entries 0 window.firstBlockId).map
      Prod.snd).flatten = [] := by
    apply hout
    intro entry hentry
    obtain ⟨i, hi⟩ := List.mem_iff_getElem?.mp hentry
    rw [Splitting.slice, List.drop_zero, Nat.sub_zero, List.getElem?_take] at hi
    split at hi
    · exact ⟨i, hi, Or.inl ‹_›⟩
    · cases hi
  have hafter : inRange range ((Splitting.slice entries
      (window.firstBlockId + window.blockCount) entries.length).map Prod.snd).flatten = [] := by
    apply hout
    intro entry hentry
    obtain ⟨i, hi⟩ := List.mem_iff_getElem?.mp hentry
    rw [Splitting.slice, List.getElem?_take] at hi
    split at hi
    · rw [List.getElem?_drop] at hi
      exact ⟨_, hi, Or.inr (Nat.le_add_right _ _)⟩
    · cases hi
  have hparts : entries = Splitting.slice entries 0 window.firstBlockId ++
      (Splitting.slice entries window.firstBlockId (window.firstBlockId + window.blockCount) ++
        Splitting.slice entries (window.firstBlockId + window.blockCount) entries.length) := by
    rw [Splitting.slice_append_slice _ (Nat.le_add_right _ _) hle,
      Splitting.slice_append_slice _ (Nat.zero_le _) (by omega)]
    simp [Splitting.slice]
  conv_rhs => rw [hparts]
  rw [List.map_append, List.map_append, List.flatten_append, List.flatten_append, inRange_append,
    inRange_append, hbefore, hafter, List.nil_append, List.append_nil]

/-! ### Row blocks -/

private theorem filter_entries {β : Type} (p : β → Bool) (entries : List (β × List Row)) :
    (entries.map Prod.fst).filter p = (entries.filter fun entry => p entry.1).map Prod.fst :=
  List.filter_map

theorem map_slice {β γ : Type} (f : β → γ) (items : List β) (first last : Nat) :
    (Splitting.slice items first last).map f = Splitting.slice (items.map f) first last := by
  simp [Splitting.slice, List.map_take, List.map_drop]

/-- The entries of a window whose bounds meet the range. -/
def windowRows (t : Table) (range : KeyRange) (window : MetadataBlockRange) :
    List (RowBlockMeta × List Row) :=
  (Splitting.slice t.rowBlocks window.firstBlockId
    (window.firstBlockId + window.blockCount)).filter
    fun entry => intersects entry.1.minKey entry.1.maxKey range

theorem windowRows_sublist (t : Table) (range : KeyRange) (window : MetadataBlockRange) :
    (windowRows t range window).Sublist t.rowBlocks :=
  List.filter_sublist.trans ((List.take_sublist _ _).trans (List.drop_sublist _ _))

theorem inRange_windowRows (hsound : Sound t.blocks range window)
    (hle : window.firstBlockId + window.blockCount ≤ t.blocks.length) :
    inRange range ((windowRows t range window).map Prod.snd).flatten = inRange range t.rows := by
  have hlength : t.rowBlocks.length = t.blocks.length := by
    rw [← t.rowBlocks_snd, List.length_map]
  rw [windowRows, inRange_filter, inRange_window, t.rowBlocks_snd, Table.rows]
  · rwa [t.rowBlocks_snd]
  · rwa [hlength]
  · intro entry hentry hdropped row hrow
    have hmem : entry ∈ t.rowBlocks := ((List.take_sublist _ _).trans
      (List.drop_sublist _ _)).subset hentry
    obtain ⟨earlier, rows, later, -, rfl⟩ := Table.mem_rowBlocks hmem
    by_contra hin
    rw [Bool.not_eq_false] at hin
    have hmeets := intersects_of_contains (minKeyOf_le hrow) (le_maxKeyOf hrow) hin
    exact absurd hdropped (by simpa [rowBlockMeta] using hmeets)

theorem readCandidates_row (hwf : t.WellFormed schema options) (hlayout : t.layout = .row)
    (hcoherent : metadataCache.Coherent disk (t.files schema options))
    (hinfo : metadataCache.info.numBlocks = t.blocks.length)
    (hle : window.firstBlockId + window.blockCount ≤ t.blocks.length) (range : KeyRange) :
    ∃ candidates cache',
      metadataCache.readRowMetadataRange disk window.firstBlockId window.blockCount =
        .ok (candidates, cache') ∧
      filterCandidateRowBlocks candidates range = (windowRows t range window).map Prod.fst ∧
      cache'.Coherent disk (t.files schema options) ∧
      SSTableMetadataCache.SameTable cache' metadataCache := by
  have hmetas : (rowMetas t.blocks).length = t.blocks.length :=
    Splitting.length_mapPrefix _ _ _
  have hmetadata := @Table.metadata_row schema options t hlayout
  obtain ⟨cache', hread, hcoherent', hsame⟩ := SSTableMetadataCache.readRowMetadataRange_eq
    hcoherent hmetadata (hwf.rowMetas_fit hlayout) (hinfo.trans hmetas.symm)
    (hmetas ▸ hwf.counted.blocks) (hmetas.symm ▸ hle)
  refine ⟨_, cache', hread, ?_, hcoherent', hsame⟩
  have hfilter := filter_entries
    (fun block : RowBlockMeta => intersects block.minKey block.maxKey range)
    (Splitting.slice t.rowBlocks window.firstBlockId (window.firstBlockId + window.blockCount))
  rwa [map_slice, t.rowBlocks_fst] at hfilter

/-- Whatever the filter prunes, what is left are blocks of the SSTable. -/
theorem selectRowBlocks_of_ok (hwf : t.WellFormed schema options) (hlayout : t.layout = .row)
    (hcoherent : metadataCache.Coherent disk (t.files schema options))
    (hinfo : metadataCache.info.numBlocks = t.blocks.length)
    (hle : window.firstBlockId + window.blockCount ≤ t.blocks.length)
    {blocks : List RowBlockMeta} {cache' : SSTableMetadataCache}
    (h : selectRowBlocks disk metadataCache range filter window = .ok (blocks, cache')) :
    cache'.Coherent disk (t.files schema options) ∧
      SSTableMetadataCache.SameTable cache' metadataCache ∧
      ∃ entries : List (RowBlockMeta × List Row), entries.Sublist t.rowBlocks ∧
        blocks = entries.map Prod.fst := by
  obtain ⟨candidates, next, hread, hblocks, hnext, hsame⟩ :=
    readCandidates_row hwf hlayout hcoherent hinfo hle range
  have hsub := windowRows_sublist t range window
  unfold selectRowBlocks at h
  rw [hread, Result.ok_bind] at h
  dsimp only at h
  rw [hblocks] at h
  split at h
  · cases h
    exact ⟨hnext, hsame, _, hsub, rfl⟩
  · obtain ⟨⟨stats, last⟩, hstats, hok⟩ := Result.bind_eq_ok.mp h
    cases hok
    obtain ⟨hlast, hsame'⟩ := hnext.of_readNumericStatsRange hstats
    refine ⟨hlast, hsame'.trans hsame, ?_⟩
    unfold filterRowBlocks
    split
    · exact ⟨_, hsub, rfl⟩
    · exact ⟨_, List.filter_sublist.trans hsub, filter_entries _ _⟩

/-- Without a filter the blocks that are left hold every row of the range. -/
theorem selectRowBlocks_of_empty (hwf : t.WellFormed schema options) (hlayout : t.layout = .row)
    (hcoherent : metadataCache.Coherent disk (t.files schema options))
    (hinfo : metadataCache.info.numBlocks = t.blocks.length)
    (hle : window.firstBlockId + window.blockCount ≤ t.blocks.length)
    (hsound : Sound t.blocks range window) (hfilter : filter.empty = true) :
    ∃ cache', selectRowBlocks disk metadataCache range filter window =
        .ok ((windowRows t range window).map Prod.fst, cache') ∧
      inRange range ((windowRows t range window).map Prod.snd).flatten = inRange range t.rows := by
  obtain ⟨candidates, next, hread, hblocks, -, -⟩ :=
    readCandidates_row hwf hlayout hcoherent hinfo hle range
  refine ⟨next, ?_, inRange_windowRows hsound hle⟩
  unfold selectRowBlocks
  rw [hread, Result.ok_bind]
  dsimp only
  rw [hblocks, hfilter, Bool.or_true, if_pos rfl]
  rfl

/-! ### Column blocks -/

/-- A test that cannot tell the blocks of one entry apart keeps whole entries. -/
theorem filter_groups (p : ColumnBlockMeta → Bool)
    (entries : List (List ColumnBlockMeta × List Row))
    (hsame : ∀ entry ∈ entries, ∀ x ∈ entry.1, ∀ y ∈ entry.1, p x = p y) :
    (entries.map Prod.fst).flatten.filter p =
      ((entries.filter fun entry => entry.1.all p).map Prod.fst).flatten := by
  induction entries with
  | nil => rfl
  | cons entry entries ih =>
    have hrest := ih fun e he => hsame e (List.mem_cons_of_mem _ he)
    have hentry := hsame entry List.mem_cons_self
    rw [List.map_cons, List.flatten_cons, List.filter_append, hrest, List.filter_cons]
    split
    · rename_i hall
      rw [List.map_cons, List.flatten_cons,
        List.filter_eq_self.mpr fun x hx => List.all_eq_true.mp hall x hx]
    · rename_i hsome
      have hnone : entry.1.filter p = [] := by
        rw [List.filter_eq_nil_iff]
        intro x hx hpx
        exact hsome (List.all_eq_true.mpr fun y hy => (hentry y hy x hx).trans hpx)
      rw [hnone, List.nil_append]

/-- The blocks of an entry share their bounds and their block id. -/
theorem columnBlocks_alike {entry : List ColumnBlockMeta × List Row}
    (hentry : entry ∈ t.columnBlocks schema) :
    (∀ x ∈ entry.1, x.minKey = minKeyOf entry.2 ∧ x.maxKey = maxKeyOf entry.2) ∧
      ∀ x ∈ entry.1, ∀ y ∈ entry.1, x.blockId = y.blockId := by
  obtain ⟨earlier, rows, later, -, rfl⟩ := Table.mem_columnBlocks hentry
  constructor
  · intro x hx
    obtain ⟨_, -, rfl⟩ := List.mem_map.mp hx
    exact ⟨rfl, rfl⟩
  · intro x hx y hy
    obtain ⟨_, -, rfl⟩ := List.mem_map.mp hx
    obtain ⟨_, -, rfl⟩ := List.mem_map.mp hy
    rfl

/-- The entries of a window whose bounds meet the range. -/
def windowColumns (schema : Schema) (t : Table) (range : KeyRange) (window : MetadataBlockRange) :
    List (List ColumnBlockMeta × List Row) :=
  (Splitting.slice (t.columnBlocks schema) window.firstBlockId
    (window.firstBlockId + window.blockCount)).filter
    fun entry => entry.1.all fun block => intersects block.minKey block.maxKey range

theorem windowColumns_sublist (schema : Schema) (t : Table) (range : KeyRange)
    (window : MetadataBlockRange) :
    (windowColumns schema t range window).Sublist (t.columnBlocks schema) :=
  List.filter_sublist.trans ((List.take_sublist _ _).trans (List.drop_sublist _ _))

theorem inRange_windowColumns (hsound : Sound t.blocks range window)
    (hle : window.firstBlockId + window.blockCount ≤ t.blocks.length) :
    inRange range ((windowColumns schema t range window).map Prod.snd).flatten =
      inRange range t.rows := by
  have hlength : (t.columnBlocks schema).length = t.blocks.length := by
    rw [← t.columnBlocks_snd schema, List.length_map]
  rw [windowColumns, inRange_filter, inRange_window, t.columnBlocks_snd, Table.rows]
  · rwa [t.columnBlocks_snd]
  · rwa [hlength]
  · intro entry hentry hdropped row hrow
    have hmem : entry ∈ t.columnBlocks schema := ((List.take_sublist _ _).trans
      (List.drop_sublist _ _)).subset hentry
    by_contra hin
    rw [Bool.not_eq_false] at hin
    have hmeets := intersects_of_contains (minKeyOf_le hrow) (le_maxKeyOf hrow) hin
    have hall : entry.1.all (fun block => intersects block.minKey block.maxKey range) = true := by
      rw [List.all_eq_true]
      intro block hblock
      obtain ⟨hmin, hmax⟩ := (columnBlocks_alike hmem).1 block hblock
      rw [hmin, hmax, hmeets]
    exact absurd hdropped (by simp [hall])

/-- Whole groups of equal length are cut out by scaling the positions. -/
theorem slice_flatten {β : Type} {groups : List (List β)} {width : Nat}
    (hwidth : ∀ group ∈ groups, group.length = width) (first last : Nat) :
    Splitting.slice groups.flatten (first * width) (last * width) =
      (Splitting.slice groups first last).flatten := by
  have hdrop : ∀ (groups : List (List β)) (n : Nat), (∀ group ∈ groups, group.length = width) →
      groups.flatten.drop (n * width) = (groups.drop n).flatten := by
    intro groups
    induction groups with
    | nil => simp
    | cons group groups ih =>
      intro n hgroups
      cases n with
      | zero => simp
      | succ n =>
        have hlength := hgroups group List.mem_cons_self
        have hsplit : (n + 1) * width = group.length + n * width := by
          rw [hlength, Nat.succ_mul, Nat.add_comm]
        rw [List.flatten_cons, hsplit, ← List.drop_drop, List.drop_left, List.drop_succ_cons]
        exact ih n fun g hg => hgroups g (List.mem_cons_of_mem _ hg)
  have htake : ∀ (groups : List (List β)) (n : Nat), (∀ group ∈ groups, group.length = width) →
      groups.flatten.take (n * width) = (groups.take n).flatten := by
    intro groups
    induction groups with
    | nil => simp
    | cons group groups ih =>
      intro n hgroups
      cases n with
      | zero => simp
      | succ n =>
        have hlength := hgroups group List.mem_cons_self
        have hsplit : (n + 1) * width = group.length + n * width := by
          rw [hlength, Nat.succ_mul, Nat.add_comm]
        rw [List.flatten_cons, hsplit, List.take_length_add_append, List.take_succ_cons,
          List.flatten_cons, ih n fun g hg => hgroups g (List.mem_cons_of_mem _ hg)]
  rw [Splitting.slice, Splitting.slice, hdrop groups first hwidth, ← Nat.sub_mul]
  exact htake _ _ fun group hgroup => hwidth group (List.mem_of_mem_drop hgroup)

theorem readCandidates_column (hwf : t.WellFormed schema options) (hlayout : t.layout = .column)
    (hcoherent : metadataCache.Coherent disk (t.files schema options))
    (hinfo : metadataCache.info.numBlocks = t.blocks.length)
    (hcolumns : metadataCache.columnsCount = schema.size)
    (hle : window.firstBlockId + window.blockCount ≤ t.blocks.length) (range : KeyRange) :
    ∃ candidates cache',
      metadataCache.readColumnMetadataRange disk window.firstBlockId window.blockCount =
        .ok (candidates, cache') ∧
      filterCandidateColumnBlocks candidates range =
        ((windowColumns schema t range window).map Prod.fst).flatten ∧
      cache'.Coherent disk (t.files schema options) ∧
      SSTableMetadataCache.SameTable cache' metadataCache := by
  have hwidth := @Table.length_of_mem_columnMetas schema t.blocks
  have hmetas : (columnMetas schema t.blocks).flatten.length =
      metadataCache.info.numBlocks * metadataCache.columnsCount := by
    rw [Table.length_columnMetas, hinfo, hcolumns]
  have hmetadata := @Table.metadata_column schema options t hlayout
  obtain ⟨cache', hread, hcoherent', hsame⟩ := SSTableMetadataCache.readColumnMetadataRange_eq
    hcoherent hmetadata (hwf.columnMetas_fit hlayout) hmetas (hinfo ▸ hwf.counted.blocks)
    (hinfo.symm ▸ hle)
  refine ⟨_, cache', hread, ?_, hcoherent', hsame⟩
  rw [hcolumns, slice_flatten hwidth, windowColumns, ← filter_groups, map_slice,
    t.columnBlocks_fst]
  · rfl
  · intro entry hentry x hx y hy
    have hmem : entry ∈ t.columnBlocks schema := ((List.take_sublist _ _).trans
      (List.drop_sublist _ _)).subset hentry
    obtain ⟨halike, -⟩ := columnBlocks_alike hmem
    simp only [(halike x hx).1, (halike x hx).2, (halike y hy).1, (halike y hy).2]

/-- Whatever the filter prunes, what is left are logical blocks of the SSTable. -/
theorem selectColumnBlocks_of_ok (hwf : t.WellFormed schema options)
    (hlayout : t.layout = .column)
    (hcoherent : metadataCache.Coherent disk (t.files schema options))
    (hinfo : metadataCache.info.numBlocks = t.blocks.length)
    (hcolumns : metadataCache.columnsCount = schema.size)
    (hle : window.firstBlockId + window.blockCount ≤ t.blocks.length)
    {blocks : List ColumnBlockMeta} {cache' : SSTableMetadataCache}
    (h : selectColumnBlocks disk metadataCache range filter window = .ok (blocks, cache')) :
    cache'.Coherent disk (t.files schema options) ∧
      SSTableMetadataCache.SameTable cache' metadataCache ∧
      ∃ entries : List (List ColumnBlockMeta × List Row),
        entries.Sublist (t.columnBlocks schema) ∧ blocks = (entries.map Prod.fst).flatten := by
  obtain ⟨candidates, next, hread, hblocks, hnext, hsame⟩ :=
    readCandidates_column hwf hlayout hcoherent hinfo hcolumns hle range
  have hsub := windowColumns_sublist schema t range window
  unfold selectColumnBlocks at h
  rw [hread, Result.ok_bind] at h
  dsimp only at h
  rw [hblocks] at h
  split at h
  · cases h
    exact ⟨hnext, hsame, _, hsub, rfl⟩
  · obtain ⟨⟨stats, last⟩, hstats, hok⟩ := Result.bind_eq_ok.mp h
    cases hok
    obtain ⟨hlast, hsame'⟩ := hnext.of_readNumericStatsRange hstats
    refine ⟨hlast, hsame'.trans hsame, _, List.filter_sublist.trans hsub, filter_groups _ _ ?_⟩
    intro entry hentry x hx y hy
    rw [(columnBlocks_alike (hsub.subset hentry)).2 x hx y hy]

/-- Without a filter the logical blocks that are left hold every row of the
range. -/
theorem selectColumnBlocks_of_empty (hwf : t.WellFormed schema options)
    (hlayout : t.layout = .column)
    (hcoherent : metadataCache.Coherent disk (t.files schema options))
    (hinfo : metadataCache.info.numBlocks = t.blocks.length)
    (hcolumns : metadataCache.columnsCount = schema.size)
    (hle : window.firstBlockId + window.blockCount ≤ t.blocks.length)
    (hsound : Sound t.blocks range window) (hfilter : filter.empty = true) :
    ∃ cache', selectColumnBlocks disk metadataCache range filter window =
        .ok (((windowColumns schema t range window).map Prod.fst).flatten, cache') ∧
      inRange range ((windowColumns schema t range window).map Prod.snd).flatten =
        inRange range t.rows := by
  obtain ⟨candidates, next, hread, hblocks, -, -⟩ :=
    readCandidates_column hwf hlayout hcoherent hinfo hcolumns hle range
  refine ⟨next, ?_, inRange_windowColumns hsound hle⟩
  unfold selectColumnBlocks
  rw [hread, Result.ok_bind]
  dsimp only
  rw [hblocks, hfilter, Bool.or_true, if_pos rfl]
  rfl

end Select

/-! ## The cursor of an SSTable -/

/-- An SSTable on disk, known to the registry as `info`, with a metadata cache
that was opened for it. -/
structure Serves (schema : Schema) (options : SparseIndexOptions) (disk : Disk)
    (contents : CacheKey → Option Bytes) (t : Table) (info : SSTableInfo)
    (metadataCache : SSTableMetadataCache) : Prop where
  wellFormed : t.WellFormed schema options
  describes : t.Describes info
  onDisk : disk.sstables info.path = some (t.files schema options)
  contents : ∀ key, key.sstableId = info.id → contents key = t.contents key
  info : metadataCache.info = info
  columnsCount : metadataCache.columnsCount = u32 schema.size
  index : readSparseIndex (t.files schema options) = .ok metadataCache.sparseIndex
  coherent : metadataCache.Coherent disk (t.files schema options)

/-- A freshly opened metadata cache serves its SSTable. -/
theorem serves_create {schema : Schema} {options : SparseIndexOptions} {disk : Disk}
    {contents : CacheKey → Option Bytes} {t : Table} {info : SSTableInfo}
    (hwf : t.WellFormed schema options) (hdescribes : t.Describes info)
    (hdisk : disk.sstables info.path = some (t.files schema options))
    (hcontents : ∀ key, key.sstableId = info.id → contents key = t.contents key) :
    ∃ metadataCache, SSTableMetadataCache.create disk info (u32 schema.size) = .ok metadataCache ∧
      Serves schema options disk contents t info metadataCache := by
  obtain ⟨metadataCache, hcreate, hinfo, hcolumns, hindex, hcoherent⟩ :=
    Table.create_metadataCache hdisk (u32 schema.size)
  exact ⟨metadataCache, hcreate, hwf, hdescribes, hdisk, hcontents, hinfo, hcolumns, hindex,
    hcoherent⟩

/-- No cursor stands for no rows. -/
def HoldsOption (schema : Schema) (projection : List Nat) (contents : CacheKey → Option Bytes)
    (w : World) (cursor : Option ScanCursor) (rows : List Row) : Prop :=
  match cursor with
  | none => rows = []
  | some c => c.Holds schema projection contents w rows

section Make

variable {schema : Schema} {options : SparseIndexOptions} {disk : Disk}
  {contents : CacheKey → Option Bytes} {t : Table} {info : SSTableInfo}
  {metadataCache : SSTableMetadataCache} {projection : List Nat} {range : KeyRange}
  {filter : DataSkippingFilter} {w : World}

theorem Serves.of_sameTable (h : Serves schema options disk contents t info metadataCache)
    {cache' : SSTableMetadataCache} (hcoherent : cache'.Coherent disk (t.files schema options))
    (hsame : SSTableMetadataCache.SameTable cache' metadataCache) :
    Serves schema options disk contents t info cache' where
  wellFormed := h.wellFormed
  describes := h.describes
  onDisk := h.onDisk
  contents := h.contents
  info := hsame.1.trans h.info
  columnsCount := hsame.2.1.trans h.columnsCount
  index := by
    rw [hsame.2.2.2]
    exact h.index
  coherent := hcoherent

/-- Other SSTables may come and go. -/
theorem Serves.changed (h : Serves schema options disk contents t info metadataCache)
    {disk' : Disk} {contents' : CacheKey → Option Bytes}
    (hdisk : disk'.sstables info.path = disk.sstables info.path)
    (hcontents : ∀ key : CacheKey, key.sstableId = info.id → contents' key = contents key) :
    Serves schema options disk' contents' t info metadataCache where
  wellFormed := h.wellFormed
  describes := h.describes
  onDisk := hdisk.trans h.onDisk
  contents := fun key hkey => (hcontents key hkey).trans (h.contents key hkey)
  info := h.info
  columnsCount := h.columnsCount
  index := h.index
  coherent := h.coherent.disk_changed (by
    rw [h.info]
    exact hdisk.trans h.onDisk)

private theorem sublist_flatten_snd {β : Type} {entries all : List (β × List Row)}
    (h : entries.Sublist all) (range : KeyRange) :
    (inRange range (entries.map Prod.snd).flatten).Sublist (all.map Prod.snd).flatten :=
  List.filter_sublist.trans (h.map Prod.snd).flatten

theorem Serves.sparseIndex (h : Serves schema options disk contents t info metadataCache) :
    ∀ entry ∈ metadataCache.sparseIndex, entry ∈ indexCandidates t.blocks := by
  obtain ⟨entries, hread, hentries⟩ := Table.exists_sparseIndex schema options t
  rw [h.index] at hread
  cases hread
  exact hentries

theorem Serves.columnsCount_eq (h : Serves schema options disk contents t info metadataCache)
    (hlayout : t.layout = .column) : metadataCache.columnsCount = schema.size := by
  have hnarrow := h.wellFormed.narrow hlayout
  rw [h.columnsCount]
  exact u32_of_lt (by omega)

theorem Serves.open_eq (h : Serves schema options disk contents t info metadataCache) :
    SSTableReader.open disk info.path info.id = .ok ⟨(t.files schema options).data, info.id⟩ := by
  rw [SSTableReader.open, h.onDisk]

theorem Serves.reader_data (_ : Serves schema options disk contents t info metadataCache) :
    (SSTableReader.mk (t.files schema options).data info.id).data =
      (t.files schema options).data := rfl

/-- Any cursor of an SSTable goes through some of its rows, in their order. -/
theorem makeSSTableCursor_of_ok (h : Serves schema options disk contents t info metadataCache)
    (hnodup : projection.Nodup) (hbound : ∀ i ∈ projection, i < schema.size)
    (hcache : CacheCoherent contents w.blockCache) {cursor : Option ScanCursor}
    {cache' : SSTableMetadataCache} {w' : World}
    (hmake : makeSSTableCursor disk info metadataCache range schema.types projection filter w =
      .ok (cursor, cache', w')) :
    Serves schema options disk contents t info cache' ∧ CacheCoherent contents w'.blockCache ∧
      SameMemory w w' ∧
      ∃ rows, rows.Sublist t.rows ∧ HoldsOption schema projection contents w' cursor rows := by
  have hnum := h.describes.numBlocks_eq h.wellFormed
  have hinfoNum : metadataCache.info.numBlocks = t.blocks.length := by rw [h.info, hnum]
  have hnothing : Serves schema options disk contents t info metadataCache ∧
      CacheCoherent contents w.blockCache ∧ SameMemory w w ∧
      ∃ rows, rows.Sublist t.rows ∧ HoldsOption schema projection contents w none rows :=
    ⟨h, hcache, SameMemory.refl w, [], List.nil_sublist _, rfl⟩
  unfold makeSSTableCursor at hmake
  rw [h.open_eq, Result.ok_bind] at hmake
  obtain ⟨window, hwindow, hmake⟩ := Result.bind_eq_ok.mp hmake
  have hle := selectMetadataRange_le hwindow
  rw [hnum] at hle
  split at hmake
  · cases hmake
    exact hnothing
  · split at hmake
    · rename_i hcode
      rw [h.describes.layout] at hcode
      have hlayout : t.layout = .row := SSTLayout.code_injective hcode
      obtain ⟨⟨blocks, next⟩, hselect, hmake⟩ := Result.bind_eq_ok.mp hmake
      obtain ⟨hnext, hsame, entries, hsub, rfl⟩ :=
        selectRowBlocks_of_ok h.wellFormed hlayout h.coherent hinfoNum hle hselect
      have hserves := h.of_sameTable hnext hsame
      dsimp only at hmake
      split at hmake
      · cases hmake
        exact ⟨hserves, hnothing.2⟩
      · obtain ⟨c, cache, hcreate, hcache', hholds⟩ := SSTableRowCursor.create_spec h.wellFormed
          hlayout h.reader_data h.contents hnodup hbound range hsub.subset hcache
        rw [hcreate, Result.ok_bind] at hmake
        cases hmake
        have hrows := sublist_flatten_snd hsub range
        rw [t.rowBlocks_snd] at hrows
        exact ⟨hserves, hcache', ⟨rfl, rfl⟩, _, hrows,
          hholds { w with blockCache := cache }⟩
    · rename_i hrow
      have hlayout : t.layout = .column := by
        cases hcase : t.layout with
        | row => exact absurd (h.describes.layout.trans (congrArg _ hcase)) hrow
        | column => rfl
      rw [if_pos (h.describes.layout.trans (congrArg _ hlayout))] at hmake
      obtain ⟨⟨blocks, next⟩, hselect, hmake⟩ := Result.bind_eq_ok.mp hmake
      obtain ⟨hnext, hsame, entries, hsub, rfl⟩ := selectColumnBlocks_of_ok h.wellFormed hlayout
        h.coherent hinfoNum (h.columnsCount_eq hlayout) hle hselect
      have hserves := h.of_sameTable hnext hsame
      dsimp only at hmake
      split at hmake
      · cases hmake
        exact ⟨hserves, hnothing.2⟩
      · obtain ⟨c, cache, hcreate, hcache', hholds⟩ := SSTableColumnCursor.create_spec
          h.wellFormed hlayout h.reader_data h.contents hbound range hsub hcache
        rw [hcreate, Result.ok_bind] at hmake
        cases hmake
        have hrows := sublist_flatten_snd hsub range
        rw [t.columnBlocks_snd] at hrows
        exact ⟨hserves, hcache', ⟨rfl, rfl⟩, _, hrows,
          hholds { w with blockCache := cache }⟩

/-- Without a filter the cursor goes through exactly the rows of the range. A
range with a lower bound needs distinct keys. -/
theorem makeSSTableCursor_spec (h : Serves schema options disk contents t info metadataCache)
    (hnodup : projection.Nodup) (hbound : ∀ i ∈ projection, i < schema.size)
    (hcache : CacheCoherent contents w.blockCache) (hfilter : filter.empty = true)
    (hrange : range.fromKey = none ∨ StrictRows t.rows) :
    ∃ cursor cache' w',
      makeSSTableCursor disk info metadataCache range schema.types projection filter w =
        .ok (cursor, cache', w') ∧
      HoldsOption schema projection contents w' cursor (inRange range t.rows) := by
  have hnum := h.describes.numBlocks_eq h.wellFormed
  have hinfoNum : metadataCache.info.numBlocks = t.blocks.length := by rw [h.info, hnum]
  obtain ⟨window, hwindow, hle, hsound⟩ :=
    selectMetadataRange_sound (h.wellFormed.indexed hrange) h.sparseIndex
  have hrows := inRange_windowRows hsound hle
  have hcolumns : inRange range ((windowColumns schema t range window).map Prod.snd).flatten =
      inRange range t.rows := inRange_windowColumns hsound hle
  unfold makeSSTableCursor
  rw [h.open_eq, Result.ok_bind, hnum, hwindow, Result.ok_bind]
  split
  · rename_i hzero
    refine ⟨none, metadataCache, w, rfl, ?_⟩
    rw [windowRows, hzero, Nat.add_zero, Splitting.slice_self] at hrows
    exact hrows.symm
  · rw [h.describes.layout]
    cases hlayout : t.layout with
    | row =>
      obtain ⟨next, hselect, -⟩ := selectRowBlocks_of_empty h.wellFormed hlayout h.coherent
        hinfoNum hle hsound hfilter
      rw [if_pos rfl, hselect, Result.ok_bind]
      dsimp only
      split
      · rename_i hempty
        have hnone : windowRows t range window = [] := by simpa using hempty
        refine ⟨none, next, w, rfl, ?_⟩
        rw [hnone] at hrows
        exact hrows.symm
      · obtain ⟨c, cache, hcreate, -, hholds⟩ := SSTableRowCursor.create_spec h.wellFormed
          hlayout h.reader_data h.contents hnodup hbound range
          (windowRows_sublist t range window).subset hcache
        rw [hcreate, Result.ok_bind]
        refine ⟨some (.sstableRow c), next, { w with blockCache := cache }, rfl, ?_⟩
        rw [← hrows]
        exact hholds { w with blockCache := cache }
    | column =>
      obtain ⟨next, hselect, -⟩ := selectColumnBlocks_of_empty h.wellFormed hlayout h.coherent
        hinfoNum (h.columnsCount_eq hlayout) hle hsound hfilter
      rw [if_neg (by decide), if_pos rfl, hselect, Result.ok_bind]
      dsimp only
      split
      · rename_i hempty
        refine ⟨none, next, w, rfl, ?_⟩
        have hnone : windowColumns schema t range window = [] := by
          rw [List.isEmpty_iff, List.flatten_eq_nil_iff] at hempty
          rw [List.eq_nil_iff_forall_not_mem]
          intro entry hentry
          have hgroup := hempty entry.1 (List.mem_map_of_mem hentry)
          obtain ⟨earlier, rows, later, -, rfl⟩ := Table.mem_columnBlocks
            ((windowColumns_sublist schema t range window).subset hentry)
          obtain ⟨keyColumn, columns, hkeyed, -⟩ := h.wellFormed.keyed.keyFirst
          have hsize : schema.size = 0 := by simpa [logicalBlockMetas] using hgroup
          simp [Schema.size, hkeyed] at hsize
        rw [hnone] at hcolumns
        exact hcolumns.symm
      · obtain ⟨c, cache, hcreate, -, hholds⟩ := SSTableColumnCursor.create_spec h.wellFormed
          hlayout h.reader_data h.contents hbound range
          (windowColumns_sublist schema t range window) hcache
        rw [hcreate, Result.ok_bind]
        refine ⟨some (.sstableColumn c), next, { w with blockCache := cache }, rfl, ?_⟩
        rw [← hcolumns]
        exact hholds { w with blockCache := cache }

end Make

end Htap.Cursor
