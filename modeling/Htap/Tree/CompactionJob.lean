import Htap.Cursor.Factory
import Htap.Tree.Manifest

/-!
`CompactionJob::run`: the SSTables of a level are opened, merged in key order
and written as one SSTable of the next level.
-/

namespace Htap.Tree

open Storage SSTable Read Cursor Words

/-- `sparse_index_options_from_config`. -/
def sparseIndexOptions (config : StorageConfig) : SparseIndexOptions where
  fixedStep := config.sparseIndexStep
  targetIndexBytes := config.sparseIndexTargetBytes
  minStep := config.sparseIndexMinStep
  maxStep := config.sparseIndexMaxStep

def blockTargets (config : StorageConfig) : BlockTargets where
  rowBlockBytes := config.rowBlockTargetBytes
  columnBlockRows := config.columnBlockTargetRows
  columnBlockBytes := config.columnBlockTargetBytes

/-- The registry entry of an SSTable that was just built. -/
def builtInfo (config : StorageConfig) (sstId level : Nat) (layout : SSTLayout)
    (result : SSTableBuildResult) (files : SSTableFiles) : SSTableInfo where
  id := sstId
  path := sstPath config.rootPath sstId
  level := level
  minKey := result.minKey
  maxKey := result.maxKey
  fileSizeBytes := files.sizeBytes
  numBlocks := result.numBlocks
  layout := layout.code

namespace CompactionJob

/-- Open a cursor over a whole candidate, with a metadata cache of its own. -/
def openCandidate (disk : Disk) (schema : Schema) :
    List ScanCursor × World → SSTableInfo → Result (List ScanCursor × World)
  | (cursors, w), sst => do
    let metadataCache ← SSTableMetadataCache.create disk sst (u32 schema.size)
    let (cursor, _, w) ← makeSSTableCursor disk sst metadataCache KeyRange.full schema.types
      (List.range schema.size) {} w
    match cursor with
    | none => return (cursors, w)
    | some cursor => return (if ICursor.valid cursor then cursors ++ [cursor] else cursors, w)

section Feed

variable {α σ : Type} [ICursor α]

/-- The row a cursor stands at, with all its columns. -/
def mergedRow (schema : Schema) (merged : α) (w : World) : Result Row := do
  let key ← ICursor.key merged w
  let cells ← (List.range' 1 (schema.size - 1)).mapM (ICursor.value merged w)
  return some (.int64 key) :: cells

/-- Hand the rows of a cursor to a builder. -/
def feed (schema : Schema) (add : σ → Row → Result σ) : Nat → α → World → σ → Result σ
  | 0, _, _, _ => .error .outOfFuel
  | fuel + 1, merged, w, builder =>
    if !ICursor.valid merged then .ok builder
    else do
      let row ← mergedRow schema merged w
      let builder ← add builder row
      let (merged, w) ← ICursor.next merged w
      feed schema add fuel merged w builder

def buildMerged (layout : SSTLayout) (schema : Schema) (config : StorageConfig) (fuel : Nat)
    (merged : α) (w : World) : Result (SSTableBuildResult × SSTableFiles) :=
  match layout with
  | .column => do
    let builder ← ColumnSSTableBuilder.create schema (sparseIndexOptions config)
      config.columnBlockTargetRows config.columnBlockTargetBytes
    let builder ← feed schema ColumnSSTableBuilder.add fuel merged w builder
    let (result, builder) ← builder.finish
    return (result, builder.files)
  | .row => do
    let builder ← RowSSTableBuilder.create schema (sparseIndexOptions config)
      config.rowBlockTargetBytes
    let builder ← feed schema RowSSTableBuilder.add fuel merged w builder
    let (result, builder) ← builder.finish
    return (result, builder.files)

end Feed

/-- The size of the candidates' data files. A row takes at least one byte, so
a merge has no more rows. -/
def dataBytes (disk : Disk) (candidates : List SSTableInfo) : Nat :=
  (candidates.map fun sst =>
      ((disk.sstables sst.path).map fun files => files.data.length).getD 0).sum

/-- The new SSTable and its files; the registry is left to the caller. -/
def run (disk : Disk) (schema : Schema) (config : StorageConfig) (candidates : List SSTableInfo)
    (task : CompactionTask) (newSstId : Nat) : Result (SSTableInfo × SSTableFiles) :=
  if candidates.isEmpty then .error (.runtimeError "CompactionJob::run: no candidates")
  else do
    let (cursors, w) ← candidates.foldlM (openCandidate disk schema)
      ([], ⟨0, MemTable.empty, some SSTableBlockCache.create⟩)
    if cursors.isEmpty then
      throw (.runtimeError "CompactionJob::run: all candidate cursors are empty")
    else do
      let merged ← MergeCursor.create cursors w
      let (result, files) ← buildMerged task.outputLayout schema config
        (dataBytes disk candidates + 1) merged w
      return (builtInfo config newSstId task.dstLevel task.outputLayout result files, files)

/-! ## The rows a builder is fed -/

section Fed

variable {α σ : Type} [ICursor α] {schema : Schema} {contents : CacheKey → Option Bytes}
  {Holds : World → α → List Row → Prop}

/-- A valid row is its key and its other cells. -/
private theorem cells_eq {row : Row} (h : ValidRow schema row) :
    some (.int64 (rowKey row)) :: (List.range' 1 (schema.size - 1)).map (cell row) = row := by
  have hlength := h.length
  obtain ⟨rest, hrow⟩ := h.head
  rw [hrow, List.length_cons] at hlength
  have hrest : (List.range' 1 (schema.size - 1)).map (cell row) = rest := by
    apply List.ext_getElem
    · rw [List.length_map, List.length_range']
      omega
    · intro i h1 h2
      rw [List.getElem_map, List.getElem_range', cell, hrow, Nat.one_mul, Nat.add_comm 1 i,
        List.getD_cons_succ, List.getD_eq_getElem _ _ h2]
  rw [hrest]
  exact hrow.symm

/-- Feeding a builder from a cursor is adding the cursor's rows to it. -/
theorem feed_eq (hmodel : CursorModel (List.range schema.size) contents Holds)
    (hsize : 0 < schema.size) (add : σ → Row → Result σ) {fuel : Nat} {merged : α} {w : World}
    {rows : List Row} (builder : σ) (hcache : CacheCoherent contents w.blockCache)
    (h : Holds w merged rows) (hvalid : ∀ row ∈ rows, ValidRow schema row)
    (hfuel : rows.length < fuel) :
    feed schema add fuel merged w builder = rows.foldlM add builder := by
  induction fuel generalizing merged w rows builder with
  | zero => omega
  | succ fuel ih =>
    unfold feed
    cases rows with
    | nil =>
      rw [hmodel.done h]
      rfl
    | cons row rest =>
      obtain ⟨hat, hkey, hvalue, merged', w', hnext, hcache', -, hrest⟩ := hmodel.row hcache h
      have hcells := Result.mapM_eq_map (List.range' 1 (schema.size - 1))
        fun i hi => hvalue i (by
          rw [List.mem_range'_1] at hi
          exact List.mem_range.mpr (by omega))
      have hrow : mergedRow schema merged w = .ok row := by
        rw [mergedRow, hkey, Result.ok_bind, hcells, Result.ok_bind, Result.pure_eq,
          cells_eq (hvalid row List.mem_cons_self)]
      rw [hat, hrow]
      simp only [Bool.not_true, Bool.false_eq_true, if_false, Result.ok_bind, hnext,
        List.foldlM_cons]
      congr 1
      funext next
      exact ih next hcache' hrest (fun r hr => hvalid r (List.mem_cons_of_mem row hr))
        (Nat.lt_of_succ_lt_succ hfuel)

/-- The merged SSTable is the one a builder makes of the cursor's rows. -/
theorem buildMerged_eq (hmodel : CursorModel (List.range schema.size) contents Holds)
    (hsize : 0 < schema.size) (layout : SSTLayout) (config : StorageConfig) {fuel : Nat}
    {merged : α} {w : World} {rows : List Row} (hcache : CacheCoherent contents w.blockCache)
    (h : Holds w merged rows) (hvalid : ∀ row ∈ rows, ValidRow schema row)
    (hfuel : rows.length < fuel) :
    buildMerged layout schema config fuel merged w =
      buildSSTable layout schema (sparseIndexOptions config) (blockTargets config) rows := by
  unfold buildMerged buildSSTable
  cases layout with
  | row =>
    dsimp only [blockTargets]
    rw [buildRowSSTable]
    congr 1
    funext builder
    rw [feed_eq hmodel hsize RowSSTableBuilder.add builder hcache h hvalid hfuel]
  | column =>
    dsimp only [blockTargets]
    rw [buildColumnSSTable]
    congr 1
    funext builder
    rw [feed_eq hmodel hsize ColumnSSTableBuilder.add builder hcache h hvalid hfuel]

end Fed

end CompactionJob

/-! ## SSTables on disk -/

/-- An SSTable of the table, complete on disk and described by its entry. -/
structure Stored (schema : Schema) (options : SparseIndexOptions) (disk : Disk)
    (info : SSTableInfo) (t : Table) : Prop where
  wellFormed : t.WellFormed schema options
  describes : t.Describes info
  onDisk : disk.sstables info.path = some (t.files schema options)

namespace CompactionJob

section Run

variable {schema : Schema} {config : StorageConfig} {disk : Disk}
  {contents : CacheKey → Option Bytes}

/-- All rows of the tables, in key order. -/
def mergedRows (tables : List Table) : List Row :=
  Merging.stableSort rowKey (tables.map Table.rows).flatten

private theorem openCandidate_eq {info : SSTableInfo} {t : Table}
    (hstored : Stored schema (sparseIndexOptions config) disk info t)
    (hcontents : ∀ key, key.sstableId = info.id → contents key = t.contents key)
    (cursors : List ScanCursor) {w : World} (hcache : CacheCoherent contents w.blockCache) :
    ∃ cursor w', openCandidate disk schema (cursors, w) info = .ok (cursors ++ [cursor], w') ∧
      CacheCoherent contents w'.blockCache ∧ SameMemory w w' ∧
      cursor.Holds schema (List.range schema.size) contents w' t.rows := by
  obtain ⟨metadataCache, hcreate, hserves⟩ := serves_create hstored.wellFormed hstored.describes
    hstored.onDisk hcontents
  have hbound : ∀ i ∈ List.range schema.size, i < schema.size := fun i hi => List.mem_range.mp hi
  have hfull : KeyRange.full.fromKey = none ∨ StrictRows t.rows := Or.inl rfl
  obtain ⟨cursor, cache', w', hmake, hholds⟩ := makeSSTableCursor_spec hserves List.nodup_range
    hbound hcache (show DataSkippingFilter.empty {} = true from rfl) hfull
  obtain ⟨-, hcache', hsame, -⟩ := makeSSTableCursor_of_ok hserves List.nodup_range hbound hcache
    hmake
  rw [inRange_full] at hholds
  cases cursor with
  | none => exact absurd hholds hstored.wellFormed.nonempty
  | some cursor =>
    refine ⟨cursor, w', ?_, hcache', hsame, hholds⟩
    have hvalid : ICursor.valid cursor = true := by
      have hempty := (ScanCursor.model hbound contents).valid_eq hcache' hholds
      rw [hempty, Bool.not_eq_true', List.isEmpty_eq_false_iff]
      exact hstored.wellFormed.nonempty
    rw [openCandidate, hcreate, Result.ok_bind, hmake, Result.ok_bind]
    dsimp only
    rw [hvalid, if_pos rfl, Result.pure_eq]

private theorem openCandidates_eq {candidates : List SSTableInfo} {tables : List Table}
    (hstored : List.Forall₂ (Stored schema (sparseIndexOptions config) disk) candidates tables)
    (hcontents : List.Forall₂ (fun info t => ∀ key : CacheKey, key.sstableId = info.id →
      contents key = t.contents key) candidates tables)
    {cursors : List ScanCursor} {sources : List (List Row)} {w : World}
    (hcache : CacheCoherent contents w.blockCache)
    (hheld : List.Forall₂ (ScanCursor.Holds schema (List.range schema.size) contents w) cursors
      sources) :
    ∃ cursors' w', candidates.foldlM (openCandidate disk schema) (cursors, w) =
        .ok (cursors', w') ∧ CacheCoherent contents w'.blockCache ∧
      List.Forall₂ (ScanCursor.Holds schema (List.range schema.size) contents w') cursors'
        (sources ++ tables.map Table.rows) := by
  induction hstored generalizing cursors sources w with
  | nil => exact ⟨cursors, w, rfl, hcache, by simpa using hheld⟩
  | @cons info t candidates tables hhead htail ih =>
    obtain ⟨hkey, hkeys⟩ := List.forall₂_cons.mp hcontents
    obtain ⟨cursor, w1, hopen, hcache1, hsame, hholds⟩ :=
      openCandidate_eq hhead hkey cursors hcache
    have hbound : ∀ i ∈ List.range schema.size, i < schema.size := fun i hi => List.mem_range.mp hi
    have hkept := hheld.imp fun c rows hc =>
      (ScanCursor.model hbound contents).stable hc hsame
    have hnext := List.rel_append hkept (List.Forall₂.cons hholds List.Forall₂.nil)
    obtain ⟨cursors', w', hfold, hcache', hall⟩ := ih hkeys hcache1 hnext
    refine ⟨cursors', w', ?_, hcache', by simpa using hall⟩
    rw [List.foldlM_cons, hopen, Result.ok_bind, hfold]

theorem length_mergedRows (tables : List Table) :
    (mergedRows tables).length = (tables.map fun t => t.rows.length).sum := by
  rw [mergedRows, (Merging.stableSort_perm rowKey _).length_eq, List.length_flatten, List.map_map]
  rfl

private theorem length_mergedRows_le {candidates : List SSTableInfo} {tables : List Table}
    (hstored : List.Forall₂ (Stored schema (sparseIndexOptions config) disk) candidates tables) :
    (mergedRows tables).length ≤ dataBytes disk candidates := by
  rw [length_mergedRows]
  induction hstored with
  | nil => exact le_rfl
  | @cons info t candidates tables hhead _ ih =>
    rw [List.map_cons, List.sum_cons, dataBytes, List.map_cons, List.sum_cons, hhead.onDisk]
    exact Nat.add_le_add hhead.wellFormed.length_rows_le ih

/-- Rows of a table among the merged ones. -/
theorem mem_mergedRows {tables : List Table} {row : Row} :
    row ∈ mergedRows tables ↔ ∃ t ∈ tables, row ∈ t.rows := by
  rw [mergedRows, (Merging.stableSort_perm rowKey _).mem_iff, List.mem_flatten]
  simp

/-- The merged rows of stored SSTables can be written to another one. -/
theorem buildable_mergedRows {candidates : List SSTableInfo} {tables : List Table}
    (hstored : List.Forall₂ (Stored schema (sparseIndexOptions config) disk) candidates tables)
    (hne : candidates ≠ []) (hkeyed : schema.WellFormed) (hnarrow : schema.size ≤ 65535)
    (hfew : (mergedRows tables).length + 7 < 2 ^ 32) (layout : SSTLayout) :
    Buildable layout schema (blockTargets config) (mergedRows tables) := by
  have hwf : ∀ t ∈ tables, t.WellFormed schema (sparseIndexOptions config) := by
    intro t ht
    obtain ⟨i, hi, rfl⟩ := List.getElem_of_mem ht
    exact (hstored.get (hstored.length_eq ▸ hi) hi).wellFormed
  refine ⟨hkeyed, fun _ => by omega, ?_, ?_, ?_, ?_,
    counted_tableOf layout schema _ hfew⟩
  · cases hstored with
    | nil => exact absurd rfl hne
    | @cons info t candidates tables hhead _ =>
      obtain ⟨row, hrow⟩ := List.exists_mem_of_ne_nil _ hhead.wellFormed.nonempty
      exact List.ne_nil_of_mem (mem_mergedRows.mpr ⟨t, List.mem_cons_self, hrow⟩)
  · intro row hrow
    obtain ⟨t, ht, hmem⟩ := mem_mergedRows.mp hrow
    exact (hwf t ht).valid row hmem
  · intro row hrow
    obtain ⟨t, ht, hmem⟩ := mem_mergedRows.mp hrow
    exact (hwf t ht).storable row hmem
  · exact Merging.sortedBy_stableSort rowKey _

/-- A compaction builds an SSTable of the rows of its candidates, all of them
and nothing else. -/
theorem run_eq {candidates : List SSTableInfo} {tables : List Table}
    (hstored : List.Forall₂ (Stored schema (sparseIndexOptions config) disk) candidates tables)
    (hcontents : List.Forall₂ (fun info t => ∀ key : CacheKey, key.sstableId = info.id →
      contents key = t.contents key) candidates tables)
    (hne : candidates ≠ []) (hkeyed : schema.WellFormed) (hnarrow : schema.size ≤ 65535)
    (hfew : (mergedRows tables).length + 7 < 2 ^ 32) (task : CompactionTask) (newSstId : Nat) :
    run disk schema config candidates task newSstId = (do
      let (result, files) ← buildSSTable task.outputLayout schema (sparseIndexOptions config)
        (blockTargets config) (mergedRows tables)
      return (builtInfo config newSstId task.dstLevel task.outputLayout result files, files)) := by
  have hbuildable := buildable_mergedRows hstored hne hkeyed hnarrow hfew task.outputLayout
  have hbound : ∀ i ∈ List.range schema.size, i < schema.size := fun i hi => List.mem_range.mp hi
  have hsize : 0 < schema.size := by
    obtain ⟨keyColumn, columns, hcolumns, -⟩ := hkeyed.keyFirst
    simp [Schema.size, hcolumns]
  have hempty : CacheCoherent contents (some SSTableBlockCache.create) := by
    intro cache hcache
    cases hcache
    intro e he
    cases he
  obtain ⟨cursors, w, hopen, hcache, hheld⟩ := openCandidates_eq hstored hcontents
    (w := ⟨0, MemTable.empty, some SSTableBlockCache.create⟩) hempty List.Forall₂.nil
  rw [List.nil_append] at hheld
  have hsorted : ∀ source ∈ tables.map Table.rows, Merging.SortedBy rowKey source := by
    intro source hsource
    obtain ⟨t, ht, rfl⟩ := List.mem_map.mp hsource
    obtain ⟨i, hi, rfl⟩ := List.getElem_of_mem ht
    exact (hstored.get (hstored.length_eq ▸ hi) hi).wellFormed.sorted
  have hmodel := ScanCursor.model hbound contents
  obtain ⟨merged, hcreate, hmerged⟩ := MergeCursor.create_spec hmodel hcache hheld hsorted
  have hbuilt := buildMerged_eq (MergeCursor.model hmodel) hsize task.outputLayout config hcache
    hmerged hbuildable.valid (Nat.lt_succ_of_le (length_mergedRows_le hstored))
  have hnonempty : cursors.isEmpty = false := by
    rw [List.isEmpty_eq_false_iff]
    intro hnil
    have hlength := hheld.length_eq
    rw [hnil, List.length_map, ← hstored.length_eq, List.length_nil] at hlength
    exact hne (List.length_eq_zero_iff.mp hlength.symm)
  unfold run
  rw [if_neg (by simpa using hne), hopen, Result.ok_bind]
  dsimp only
  rw [hnonempty, if_neg (by decide), hcreate, Result.ok_bind, hbuilt]
  rfl

end Run

end CompactionJob

end Htap.Tree
