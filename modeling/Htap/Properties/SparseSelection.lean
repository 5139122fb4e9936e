import Htap.Read.LinearSelector
import Htap.Properties.SparseIndexBudget

/-!
The blocks a scan selects by way of the sparse index and those it would select by looking
at all of them. They differ where a run of equal keys goes on into a block that the index
knows and the range begins with that key: the index enters at the last such block.
-/

namespace Htap.Properties

open Storage SSTable Read Words ByteFormat

/-- What `make_sstable_cursor` selects of a row SSTable. -/
def sparseRowBlocks (files : SSTableFiles) (numBlocks : Nat) (range : KeyRange) :
    Result (List RowBlockMeta) := do
  let index ← readSparseIndex files
  let window ← selectMetadataRange index range numBlocks
  let candidates ← readRowMetadataRange files window.firstBlockId window.blockCount
  return filterCandidateRowBlocks candidates range

def linearRowBlocks (files : SSTableFiles) (numBlocks : Nat) (range : KeyRange) :
    Result (List RowBlockMeta) := do
  let blocks ← readRowMetadataRange files 0 numBlocks
  return LinearRowBlockSelector.selectBlocks blocks range

/-- What `make_sstable_cursor` selects of a column SSTable. -/
def sparseColumnBlocks (files : SSTableFiles) (numBlocks columnsCount : Nat) (range : KeyRange) :
    Result (List ColumnBlockMeta) := do
  let index ← readSparseIndex files
  let window ← selectMetadataRange index range numBlocks
  let candidates ←
    readColumnMetadataRange files window.firstBlockId window.blockCount columnsCount
  return filterCandidateColumnBlocks candidates range

def linearColumnBlocks (files : SSTableFiles) (numBlocks columnsCount : Nat) (range : KeyRange) :
    Result (List ColumnBlockMeta) := do
  let blocks ← readColumnMetadataRange files 0 numBlocks columnsCount
  return LinearColumnBlockSelector.selectBlocks blocks range

/-- Both ways select the same blocks. -/
def SelectionsAgree (layout : SSTLayout) (schema : Schema) (files : SSTableFiles)
    (numBlocks : Nat) (range : KeyRange) : Prop :=
  match layout with
  | .row => ∃ blocks, linearRowBlocks files numBlocks range = .ok blocks ∧
      sparseRowBlocks files numBlocks range = .ok blocks
  | .column => ∃ blocks, linearColumnBlocks files numBlocks schema.size range = .ok blocks ∧
      sparseColumnBlocks files numBlocks schema.size range = .ok blocks

/-- The metadata of all blocks, as far as keys go. -/
def blockRecords (layout : SSTLayout) (schema : Schema) (files : SSTableFiles) (numBlocks : Nat) :
    Result (List BlockRecord) :=
  match layout with
  | .row => do
    let metas ← readRowMetadataRange files 0 numBlocks
    return metas.map RowBlockMeta.record
  | .column => do
    let metas ← readColumnMetadataRange files 0 numBlocks schema.size
    return metas.map ColumnBlockMeta.record

/-- The range begins with the key of a run that goes on into a block of the index, and
some earlier block of the run begins before the range ends. -/
def CutsRun (layout : SSTLayout) (schema : Schema) (files : SSTableFiles) (numBlocks : Nat)
    (range : KeyRange) : Prop :=
  ∃ index records, readSparseIndex files = .ok index ∧
    blockRecords layout schema files numBlocks = .ok records ∧
    ∃ block ∈ records, RunCut index range block

section

variable {schema : Schema} {options : SparseIndexOptions} {blocks : List KeyBounds}
  {result : SSTableBuildResult} {files : SSTableFiles} {α : Type} {record : α → BlockRecord}
  {encode : α → Bytes} {size : Nat} {metas : List α}

private theorem readSparseIndex_of_built (hfew : blocks.length < 2 ^ 32)
    (h : BuiltBlocks options record encode size blocks metas result files) :
    ∃ index, readSparseIndex files = .ok index ∧ index.Sublist (candidatesOf blocks) := by
  have hids : ∀ entry ∈ candidatesOf blocks, entry.blockId < 2 ^ 32 := by
    intro entry hentry
    obtain ⟨k, hget, -⟩ := mem_candidatesOf hfew hentry
    exact (List.getElem?_eq_some_iff.mp hget).1.trans hfew
  exact ⟨_, readSparseIndex_eq h.index hids, List.filter_sublist⟩

private theorem length_metas
    (h : BuiltBlocks options record encode size blocks metas result files) :
    metas.length = blocks.length * size := by
  rw [← length_recordsOf, ← h.records, List.length_map]

/-- Selecting from the records of the window is selecting from all of them unless a run
is cut. -/
private theorem filter_eq_iff
    (h : BuiltBlocks options record encode size blocks metas result files)
    (hfew : blocks.length < 2 ^ 32) {index : List SparseIndexEntry} {range : KeyRange}
    {window : MetadataBlockRange}
    (hwindow : ∀ i k, blocks[i]? = some k → intersects k.minKey k.maxKey range = true →
      ((i < window.firstBlockId ∨ window.firstBlockId + window.blockCount ≤ i) ↔
        RunCut index range ⟨i, k⟩)) :
    (metas.filter fun m => intersects (record m).keys.minKey (record m).keys.maxKey range) =
        (((metas.drop (window.firstBlockId * size)).take (window.blockCount * size)).filter
          fun m => intersects (record m).keys.minKey (record m).keys.maxKey range) ↔
      ¬ ∃ block ∈ metas.map record, RunCut index range block := by
  rw [filter_window_eq_iff h.size_pos h.records window.firstBlockId window.blockCount
    fun k => intersects k.minKey k.maxKey range, h.records]
  constructor
  · rintro hkept ⟨block, hmem, hcut⟩
    have hget := (mem_recordsOf h.size_pos hfew).mp hmem
    exact hkept block.blockId block.keys hget hcut.intersects
      ((hwindow _ _ hget hcut.intersects).mpr hcut)
  · intro hnone i k hget hmeets houtside
    exact hnone ⟨⟨i, k⟩, (mem_recordsOf h.size_pos hfew).mpr hget,
      (hwindow i k hget hmeets).mp houtside⟩

private theorem both_ok_iff {β : Type} {a b : Result β} {x y : β} (ha : a = .ok x)
    (hb : b = .ok y) : (∃ r, a = .ok r ∧ b = .ok r) ↔ x = y := by
  rw [ha, hb]
  constructor
  · rintro ⟨r, hx, hy⟩
    exact (Except.ok.inj hx).trans (Except.ok.inj hy).symm
  · rintro rfl
    exact ⟨x, rfl, rfl⟩

private theorem cutsRun_iff {layout : SSTLayout} {numBlocks : Nat} {range : KeyRange}
    {index : List SparseIndexEntry} {records : List BlockRecord}
    (hindex : readSparseIndex files = .ok index)
    (hrecords : blockRecords layout schema files numBlocks = .ok records) :
    CutsRun layout schema files numBlocks range ↔ ∃ block ∈ records, RunCut index range block := by
  constructor
  · rintro ⟨index', records', hindex', hrecords', hcut⟩
    rw [hindex] at hindex'
    rw [hrecords] at hrecords'
    cases hindex'
    cases hrecords'
    exact hcut
  · exact fun hcut => ⟨index, records, hindex, hrecords, hcut⟩

/-! ## Row and column SSTables -/

private theorem row_agree_iff {metas : List RowBlockMeta}
    (h : BuiltBlocks options RowBlockMeta.record RowBlockMeta.encode 1 blocks metas result files)
    (hfits : ∀ m ∈ metas, m.Fits) (hfew : blocks.length < 2 ^ 32) (range : KeyRange) :
    SelectionsAgree .row schema files result.numBlocks range ↔
      ¬ CutsRun .row schema files result.numBlocks range := by
  have hlength : metas.length = blocks.length := (length_metas h).trans (Nat.mul_one _)
  obtain ⟨index, hindex, hsublist⟩ := readSparseIndex_of_built hfew h
  obtain ⟨window, hselect, hle, hwindow⟩ := exists_window h.ascending h.nonempty hfew hsublist range
  have hfilter := filter_eq_iff h hfew hwindow
  have hall : readRowMetadataRange files 0 blocks.length = .ok metas := by
    rw [readRowMetadataRange_eq h.metadata hfits (by omega), List.drop_zero, ← hlength,
      List.take_length]
  have hsome := readRowMetadataRange_eq h.metadata hfits (hle.trans hlength.ge)
  rw [Nat.mul_one, Nat.mul_one] at hfilter
  have hlinear : linearRowBlocks files blocks.length range =
      .ok (LinearRowBlockSelector.selectBlocks metas range) := by
    rw [linearRowBlocks, hall]
    rfl
  have hsparse : sparseRowBlocks files blocks.length range = .ok (filterCandidateRowBlocks
      ((metas.drop window.firstBlockId).take window.blockCount) range) := by
    rw [sparseRowBlocks, hindex, Result.ok_bind, hselect, Result.ok_bind, hsome]
    rfl
  have hrecords : blockRecords .row schema files blocks.length =
      .ok (metas.map RowBlockMeta.record) := by
    rw [blockRecords, hall]
    rfl
  rw [h.numBlocks, u32_of_lt hfew, cutsRun_iff hindex hrecords]
  exact (both_ok_iff hlinear hsparse).trans hfilter

private theorem column_agree_iff {metas : List ColumnBlockMeta}
    (h : BuiltBlocks options ColumnBlockMeta.record ColumnBlockMeta.encode schema.size blocks metas
      result files) (hfits : ∀ m ∈ metas, m.Fits) (hfew : blocks.length < 2 ^ 32)
    (range : KeyRange) :
    SelectionsAgree .column schema files result.numBlocks range ↔
      ¬ CutsRun .column schema files result.numBlocks range := by
  have hlength := length_metas h
  obtain ⟨index, hindex, hsublist⟩ := readSparseIndex_of_built hfew h
  obtain ⟨window, hselect, hle, hwindow⟩ := exists_window h.ascending h.nonempty hfew hsublist range
  have hfilter := filter_eq_iff h hfew hwindow
  have hall : readColumnMetadataRange files 0 blocks.length schema.size = .ok metas := by
    rw [readColumnMetadataRange_eq h.metadata hfits (by rw [Nat.zero_add, hlength]), Nat.zero_mul,
      List.drop_zero, ← hlength, List.take_length]
  have hwindow_le : (window.firstBlockId + window.blockCount) * schema.size ≤ metas.length :=
    (Nat.mul_le_mul_right _ hle).trans hlength.ge
  have hsome := readColumnMetadataRange_eq h.metadata hfits hwindow_le
  have hlinear : linearColumnBlocks files blocks.length schema.size range =
      .ok (LinearColumnBlockSelector.selectBlocks metas range) := by
    rw [linearColumnBlocks, hall]
    rfl
  have hsparse : sparseColumnBlocks files blocks.length schema.size range =
      .ok (filterCandidateColumnBlocks ((metas.drop (window.firstBlockId * schema.size)).take
        (window.blockCount * schema.size)) range) := by
    rw [sparseColumnBlocks, hindex, Result.ok_bind, hselect, Result.ok_bind, hsome]
    rfl
  have hrecords : blockRecords .column schema files blocks.length =
      .ok (metas.map ColumnBlockMeta.record) := by
    rw [blockRecords, hall]
    rfl
  rw [h.numBlocks, u32_of_lt hfew, cutsRun_iff hindex hrecords]
  exact (both_ok_iff hlinear hsparse).trans hfilter

end

/-- Both ways select the same blocks unless the range cuts a run of equal keys. The SSTable
is any that a builder wrote within the block counter, so its keys ascend but need not
differ, and it is equal keys across blocks that the index skips. -/
theorem selections_agree_iff {layout : SSTLayout} {schema : Schema} {options : SparseIndexOptions}
    {targets : BlockTargets} {rows : List Row} {result : SSTableBuildResult} {files : SSTableFiles}
    (h : buildSSTable layout schema options targets rows = .ok (result, files))
    (hfew : logicalBlocks layout schema files < 2 ^ 32) (range : KeyRange) :
    SelectionsAgree layout schema files result.numBlocks range ↔
      ¬ CutsRun layout schema files result.numBlocks range := by
  cases layout with
  | row =>
    obtain ⟨blocks, metas, hbuilt, hfits⟩ := blocks_of_buildRowSSTable h
    rw [logicalBlocks_of_row hbuilt] at hfew
    exact row_agree_iff hbuilt hfits hfew range
  | column =>
    obtain ⟨blocks, metas, hbuilt, hfits⟩ := blocks_of_buildColumnSSTable h
    rw [logicalBlocks_of_column hbuilt] at hfew
    exact column_agree_iff hbuilt hfits hfew range

/-- Two blocks of one row each, both of key 7. -/
def sevenTwice : Result (SSTableBuildResult × SSTableFiles) :=
  buildSSTable .row ⟨[⟨[107], .int64, true, false⟩]⟩ {} ⟨1, 1, 1⟩
    [[some (.int64 7)], [some (.int64 7)]]

/-- All blocks, and how many of them either way selects from key 7 on. -/
private def countsFromSeven : Result (Nat × Nat × Nat) := do
  let (result, files) ← sevenTwice
  let linear ← linearRowBlocks files result.numBlocks ⟨some 7, none⟩
  let sparse ← sparseRowBlocks files result.numBlocks ⟨some 7, none⟩
  return (logicalBlocks .row ⟨[⟨[107], .int64, true, false⟩]⟩ files, linear.length, sparse.length)

private theorem countsFromSeven_eq : countsFromSeven = .ok (2, 2, 1) := by
  decide +kernel

/-- From key 7 on, the first of two blocks of key 7 is not selected. -/
theorem sparse_selection_loses_block : ∃ result files,
    sevenTwice = .ok (result, files) ∧
      ¬ SelectionsAgree .row ⟨[⟨[107], .int64, true, false⟩]⟩ files result.numBlocks
        ⟨some 7, none⟩ := by
  obtain ⟨⟨result, files⟩, hbuild, hcounts⟩ := Result.bind_eq_ok.mp countsFromSeven_eq
  obtain ⟨linear, hlinear, hcounts⟩ := Result.bind_eq_ok.mp hcounts
  obtain ⟨sparse, hsparse, hcounts⟩ := Result.bind_eq_ok.mp hcounts
  refine ⟨result, files, hbuild, ?_⟩
  rintro ⟨blocks, hall, hsome⟩
  rw [hlinear] at hall
  rw [hsparse] at hsome
  cases hall
  cases hsome
  have hlengths := Except.ok.inj hcounts
  rw [Prod.mk.injEq, Prod.mk.injEq] at hlengths
  omega

theorem selections_agree_iff_sevenTwice : ∃ result files,
    sevenTwice = .ok (result, files) ∧
      (SelectionsAgree .row ⟨[⟨[107], .int64, true, false⟩]⟩ files result.numBlocks ⟨some 7, none⟩ ↔
        ¬ CutsRun .row ⟨[⟨[107], .int64, true, false⟩]⟩ files result.numBlocks ⟨some 7, none⟩) := by
  obtain ⟨⟨result, files⟩, hbuild, hcounts⟩ := Result.bind_eq_ok.mp countsFromSeven_eq
  obtain ⟨linear, -, hcounts⟩ := Result.bind_eq_ok.mp hcounts
  obtain ⟨sparse, -, hcounts⟩ := Result.bind_eq_ok.mp hcounts
  have htwo : logicalBlocks .row ⟨[⟨[107], .int64, true, false⟩]⟩ files = 2 :=
    congrArg Prod.fst (Except.ok.inj hcounts)
  exact ⟨result, files, hbuild, selections_agree_iff hbuild (by rw [htwo]; norm_num) _⟩

end Htap.Properties
