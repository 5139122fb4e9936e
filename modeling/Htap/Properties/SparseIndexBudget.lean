import Htap.Read.Table
import Htap.SSTable.IndexEntries

/-!
The sparse index of an SSTable: which blocks it lists, and that the adaptive step
keeps it within its budget.
-/

namespace Htap.Properties

open Storage SSTable Read Words ByteFormat

/-- The logical blocks of an SSTable, by what `meta.bin` holds of them. -/
def logicalBlocks (layout : SSTLayout) (schema : Schema) (files : SSTableFiles) : Nat :=
  match layout with
  | .row => files.metadata.length / rowBlockMetaOnDiskSize
  | .column => files.metadata.length / (schema.size * columnBlockMetaOnDiskSize)

/-- `raw_step` of `choose_sparse_index_step`. -/
def rawStep (numBlocks : Nat) (options : SparseIndexOptions) : Nat :=
  let maxEntries := max 1 (options.targetIndexBytes / sparseIndexEntryOnDiskSize)
  (numBlocks + maxEntries - 1) / maxEntries

/-- What the index is to hold: the first block of every `step` blocks. -/
structure Sampled (step numBlocks : Nat) (entries : List SparseIndexEntry) : Prop where
  ids : entries.map (·.blockId) = (List.range numBlocks).filter fun id => step ∣ id
  first : ∃ entry ∈ entries.head?, entry.blockId = 0
  sorted : entries.Pairwise fun a b => a.minKey ≤ b.minKey
  length_eq : entries.length = (numBlocks + step - 1) / step

/-! ## The step -/

private theorem clamp_mem {value low high : Nat} (h : low ≤ high) :
    low ≤ clamp value low high ∧ clamp value low high ≤ high := by
  unfold clamp
  split_ifs <;> omega

private theorem le_clamp {value low high : Nat} (h : value ≤ high) :
    value ≤ clamp value low high := by
  unfold clamp
  split_ifs <;> omega

/-- The step stays within its bounds. -/
private theorem step_mem {numBlocks : Nat} {options : SparseIndexOptions}
    (hoptions : options.Accepted) (hpos : 0 < numBlocks) :
    options.minStep ≤ chooseSparseIndexStep numBlocks options ∧
      chooseSparseIndexStep numBlocks options ≤ options.maxStep := by
  have hmin : max 1 options.minStep = options.minStep := max_eq_right hoptions.1
  have hmax : max options.minStep options.maxStep = options.maxStep := max_eq_right hoptions.2
  unfold chooseSparseIndexStep
  dsimp only
  rw [if_neg hpos.ne', hmin, hmax]
  split
  · exact clamp_mem hoptions.2
  · split
    · exact ⟨hoptions.2, le_rfl⟩
    · exact clamp_mem hoptions.2

/-- In adaptive mode the step is at least the raw one, where the bounds leave room. -/
private theorem rawStep_le {numBlocks : Nat} {options : SparseIndexOptions}
    (hoptions : options.Accepted) (hpos : 0 < numBlocks) (hlt : numBlocks < 2 ^ 32)
    (hadaptive : options.fixedStep = 0)
    (htarget : sparseIndexEntryOnDiskSize ≤ options.targetIndexBytes)
    (hraw : rawStep numBlocks options ≤ options.maxStep) :
    rawStep numBlocks options ≤ chooseSparseIndexStep numBlocks options := by
  have hmin : max 1 options.minStep = options.minStep := max_eq_right hoptions.1
  have hmax : max options.minStep options.maxStep = options.maxStep := max_eq_right hoptions.2
  have hwide : rawStep numBlocks options ≤ 2 ^ 32 - 1 := by
    have hentries : 0 < max 1 (options.targetIndexBytes / sparseIndexEntryOnDiskSize) :=
      Nat.lt_of_lt_of_le Nat.one_pos (Nat.le_max_left _ _)
    have hle : rawStep numBlocks options ≤ numBlocks := by
      obtain ⟨entries, hsucc⟩ := Nat.exists_eq_succ_of_ne_zero hentries.ne'
      obtain ⟨before, rfl⟩ := Nat.exists_eq_succ_of_ne_zero hpos.ne'
      apply Nat.div_le_of_le_mul
      rw [hsucc, Nat.succ_mul, Nat.mul_succ]
      omega
    omega
  unfold chooseSparseIndexStep
  dsimp only
  rw [if_neg hpos.ne', hmin, hmax, if_neg (not_not.mpr hadaptive), if_neg (not_lt.mpr htarget)]
  change _ ≤ clamp (min (rawStep numBlocks options) (2 ^ 32 - 1)) _ _
  rw [min_eq_left hwide]
  exact le_clamp hraw

/-! ## The entries -/

private theorem length_multiples {step : Nat} (hstep : 0 < step) (numBlocks : Nat) :
    ((List.range numBlocks).filter fun id => step ∣ id).length = (numBlocks + step - 1) / step := by
  induction numBlocks with
  | zero =>
    rw [Nat.zero_add, Nat.div_eq_of_lt (Nat.sub_lt hstep Nat.one_pos)]
    rfl
  | succ numBlocks ih =>
    have hnext : numBlocks + 1 + step - 1 = numBlocks + step - 1 + 1 := by omega
    have hdvd : step ∣ numBlocks + step - 1 + 1 ↔ step ∣ numBlocks := by
      rw [Nat.sub_add_cancel (by omega)]
      exact Nat.dvd_add_self_right
    rw [List.range_succ, List.filter_append, List.length_append, ih, hnext, Nat.succ_div]
    by_cases hmultiple : step ∣ numBlocks
    · rw [if_pos (hdvd.mpr hmultiple), List.filter_cons_of_pos (by simpa using hmultiple)]
      rfl
    · rw [if_neg (mt hdvd.mp hmultiple), List.filter_cons_of_neg (by simpa using hmultiple)]
      rfl

private theorem sampled_entries {step : Nat} {options : SparseIndexOptions}
    {blocks : List KeyBounds} (hstep : 0 < step) (hne : blocks ≠ [])
    (hlt : blocks.length < 2 ^ 32) (hascending : Ascending blocks)
    (hchosen : chooseSparseIndexStep (u32 blocks.length) options = step) :
    Sampled step blocks.length
      (sparseIndexEntries (u32 blocks.length) options (candidatesOf blocks)) := by
  have hpos := List.length_pos_of_ne_nil hne
  have hids : (sparseIndexEntries (u32 blocks.length) options (candidatesOf blocks)).map
      (·.blockId) = (List.range blocks.length).filter fun id => step ∣ id := by
    rw [← ids_candidatesOf hlt, List.filter_map, sparseIndexEntries, hchosen]
    congr 1
    apply List.filter_congr
    intro entry _
    rw [Function.comp_apply, decide_eq_decide.mpr Nat.dvd_iff_mod_eq_zero]
    rfl
  refine ⟨hids, ?_, hascending.sorted_candidatesOf.filter _, ?_⟩
  · have hzero : ((List.range blocks.length).filter fun id => step ∣ id).head? = some 0 := by
      obtain ⟨count, hcount⟩ := Nat.exists_eq_succ_of_ne_zero hpos.ne'
      rw [hcount, List.range_succ_eq_map, List.filter_cons_of_pos (by simp), List.head?_cons]
    rw [← hids, List.head?_map] at hzero
    obtain ⟨entry, hentry, hid⟩ := Option.map_eq_some_iff.mp hzero
    exact ⟨entry, hentry, hid⟩
  · rw [← length_multiples hstep, ← hids, List.length_map]

/-- Two roundings compose: a step rounded up from a number of entries rounded down
samples at most that many blocks. -/
private theorem entries_le {step numBlocks entries : Nat} (hentries : 0 < entries)
    (hstep : 0 < step) (hraw : (numBlocks + entries - 1) / entries ≤ step) :
    (numBlocks + step - 1) / step ≤ entries := by
  have hcover : numBlocks ≤ entries * step := by
    have hlt := Nat.lt_mul_div_succ (numBlocks + entries - 1) hentries
    have hle := Nat.mul_le_mul_left entries (Nat.add_le_add_right hraw 1)
    rw [Nat.mul_add_one entries step] at hle
    omega
  apply Nat.le_of_lt_succ
  apply (Nat.div_lt_iff_lt_mul hstep).mpr
  rw [Nat.succ_mul]
  omega

private theorem index_le_target {step numBlocks : Nat} {options : SparseIndexOptions}
    {entries : List SparseIndexEntry} (hstep : 0 < step)
    (htarget : sparseIndexEntryOnDiskSize ≤ options.targetIndexBytes)
    (hraw : rawStep numBlocks options ≤ step) (hsampled : Sampled step numBlocks entries) :
    (entries.flatMap SparseIndexEntry.encode).length ≤ options.targetIndexBytes := by
  have hmost : max 1 (options.targetIndexBytes / sparseIndexEntryOnDiskSize) =
      options.targetIndexBytes / sparseIndexEntryOnDiskSize :=
    max_eq_right (Nat.div_pos htarget (by decide))
  have hle : entries.length ≤ options.targetIndexBytes / sparseIndexEntryOnDiskSize := by
    rw [hsampled.length_eq]
    apply entries_le (Nat.div_pos htarget (by decide)) hstep
    rw [rawStep, hmost] at hraw
    exact hraw
  rw [length_records _ fun entry _ => entry.length_encode]
  exact (Nat.mul_le_mul_right _ hle).trans (Nat.div_mul_le_self _ _)

section

variable {schema : Schema} {options : SparseIndexOptions} {blocks : List KeyBounds}
  {result : SSTableBuildResult} {files : SSTableFiles}

theorem logicalBlocks_of_row {metas : List RowBlockMeta}
    (h : BuiltBlocks options RowBlockMeta.record RowBlockMeta.encode 1 blocks metas result files) :
    logicalBlocks .row schema files = blocks.length := by
  rw [logicalBlocks, h.length_metadata fun m _ => m.length_encode, Nat.one_mul]
  exact Nat.mul_div_cancel _ (by decide)

theorem logicalBlocks_of_column {metas : List ColumnBlockMeta}
    (h : BuiltBlocks options ColumnBlockMeta.record ColumnBlockMeta.encode schema.size blocks metas
      result files) : logicalBlocks .column schema files = blocks.length := by
  rw [logicalBlocks, h.length_metadata fun m _ => m.length_encode]
  exact Nat.mul_div_cancel _ (Nat.mul_pos h.size_pos (by decide))

end

private theorem exists_blocks {layout : SSTLayout} {schema : Schema}
    {options : SparseIndexOptions} {targets : BlockTargets} {rows : List Row}
    {result : SSTableBuildResult} {files : SSTableFiles}
    (h : buildSSTable layout schema options targets rows = .ok (result, files)) :
    ∃ blocks, options.Accepted ∧ blocks ≠ [] ∧ Ascending blocks ∧
      logicalBlocks layout schema files = blocks.length ∧
      files.index = sparseIndexFile (u32 blocks.length) options (candidatesOf blocks) := by
  cases layout with
  | row =>
    obtain ⟨blocks, metas, hbuilt, -⟩ := blocks_of_buildRowSSTable h
    exact ⟨blocks, hbuilt.accepted, hbuilt.nonempty, hbuilt.ascending,
      logicalBlocks_of_row hbuilt, hbuilt.index⟩
  | column =>
    obtain ⟨blocks, metas, hbuilt, -⟩ := blocks_of_buildColumnSSTable h
    exact ⟨blocks, hbuilt.accepted, hbuilt.nonempty, hbuilt.ascending,
      logicalBlocks_of_column hbuilt, hbuilt.index⟩

/-- The index a successful build writes samples the blocks with one step within the bounds,
and in adaptive mode it keeps the target the bounds leave reachable. That needs room for one
entry and a step that `maxStep` allows; `hblocks` is the width of the block counter. -/
theorem sparse_index_sampled {layout : SSTLayout} {schema : Schema} {options : SparseIndexOptions}
    {targets : BlockTargets} {rows : List Row} {result : SSTableBuildResult} {files : SSTableFiles}
    (h : buildSSTable layout schema options targets rows = .ok (result, files))
    (hblocks : logicalBlocks layout schema files < 2 ^ 32) :
    ∃ step entries, files.index = entries.flatMap SparseIndexEntry.encode ∧
      options.minStep ≤ step ∧ step ≤ options.maxStep ∧
      Sampled step (logicalBlocks layout schema files) entries ∧
      (options.fixedStep = 0 → sparseIndexEntryOnDiskSize ≤ options.targetIndexBytes →
        rawStep (logicalBlocks layout schema files) options ≤ options.maxStep →
        files.index.length ≤ options.targetIndexBytes) := by
  obtain ⟨blocks, haccepted, hne, hascending, hlength, hindex⟩ := exists_blocks h
  rw [hlength] at hblocks ⊢
  have hpos := List.length_pos_of_ne_nil hne
  have hcount : u32 blocks.length = blocks.length := u32_of_lt hblocks
  have hstep := chooseSparseIndexStep_pos (u32 blocks.length) options
  obtain ⟨hmin, hmax⟩ := step_mem haccepted (hcount.symm ▸ hpos)
  have hsampled := sampled_entries hstep hne hblocks hascending rfl
  refine ⟨_, _, hindex, hmin, hmax, hsampled, ?_⟩
  intro hadaptive htarget hraw
  rw [hindex]
  apply index_le_target hstep htarget _ hsampled
  rw [hcount]
  exact rawStep_le haccepted hpos hblocks hadaptive htarget hraw

/-- Three blocks of one row, and a target of two index entries. -/
def sampledBuild : Result (SSTableBuildResult × SSTableFiles) :=
  buildSSTable .row ⟨[⟨[107], .int64, true, false⟩]⟩ { targetIndexBytes := 24 } ⟨1, 1, 1⟩
    [[some (.int64 1)], [some (.int64 2)], [some (.int64 2)]]

/-- Every second block is in the index, which takes the whole target. -/
theorem sparse_index_sampled_three :
    ∃ result files step entries, sampledBuild = .ok (result, files) ∧
      files.index = entries.flatMap SparseIndexEntry.encode ∧ 1 ≤ step ∧ step ≤ 4096 ∧
      Sampled step 3 entries ∧ files.index.length ≤ 24 := by
  have hbuilt : (sampledBuild.toOption.any fun out =>
      logicalBlocks .row ⟨[⟨[107], .int64, true, false⟩]⟩ out.2 == 3) = true := by
    decide +kernel
  cases hbuild : sampledBuild with
  | error e => simp [hbuild, Except.toOption] at hbuilt
  | ok out =>
    obtain ⟨result, files⟩ := out
    have hblocks : logicalBlocks .row ⟨[⟨[107], .int64, true, false⟩]⟩ files = 3 := by
      simpa [hbuild, Except.toOption] using hbuilt
    obtain ⟨step, entries, hindex, hmin, hmax, hsampled, hbudget⟩ :=
      sparse_index_sampled hbuild (by rw [hblocks]; norm_num)
    rw [hblocks] at hsampled hbudget
    exact ⟨result, files, step, entries, rfl, hindex, hmin, hmax, hsampled,
      hbudget rfl (by decide) (by decide)⟩

end Htap.Properties
