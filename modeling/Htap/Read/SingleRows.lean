import Htap.Read.Skipping

/-!
Row SSTables with one row to a block, as the builder makes them under a block target of one
byte. There may be more blocks than the counters of the formats can count.
-/

namespace Htap.Read

open Storage SSTable ByteFormat Words

variable {schema : Schema} {options : SparseIndexOptions} {rows : List Row}

theorem ofNat_lt_ofNat {i j : Nat} (hij : i < j) (hj : j < 2 ^ 63) :
    Int64.ofNat i < Int64.ofNat j := by
  rw [Int64.lt_iff_toInt_lt, Int64.toInt_ofNat_of_lt (hij.trans hj), Int64.toInt_ofNat_of_lt hj]
  exact_mod_cast hij

/-- Rows whose keys are their numbers. -/
theorem strictRows_numbered {row : Nat → Row} (hkey : ∀ i, rowKey (row i) = Int64.ofNat i)
    {count : Nat} (h : count ≤ 2 ^ 63) : StrictRows ((List.range count).map row) := by
  rw [StrictRows, List.pairwise_map]
  refine List.pairwise_lt_range.imp_of_mem ?_
  intro i j _ hj hij
  rw [hkey, hkey]
  exact ofNat_lt_ofNat hij ((List.mem_range.mp hj).trans_le h)

/-- With a target of one byte every row is a block. -/
theorem split_rowBlockFull_one (rows : List Row) :
    Splitting.split (rowBlockFull 1) rows = rows.map fun row => [row] := by
  apply Splitting.split_singletons
  intro row
  have hlength := length_rowBytes_pos row
  simp only [rowBlockFull, rowBlockBytes, List.flatMap_cons, List.flatMap_nil, List.append_nil,
    decide_eq_true_eq]
  omega

/-- Up to 2^40 such blocks of short rows fit into the files. -/
theorem fit_singletons (options : SparseIndexOptions)
    (hvalid : ∀ row ∈ rows, ValidRow schema row) (hsize : schema.size ≤ 65535)
    (hshort : ∀ row ∈ rows, (rowBytes row).length ≤ 2 ^ 16) (hcount : rows.length ≤ 2 ^ 40) :
    (rowSSTable schema options (rows.map fun row => [row])).Fit := by
  have hblocks : (rows.map fun row => [row]).length = rows.length := List.length_map _
  refine ⟨?_, ?_, ?_, ?_, ?_⟩
  · have hrow : ∀ n ∈ rows.map fun row => (rowBytes row).length, n ≤ 2 ^ 16 := by
      intro n hn
      obtain ⟨row, hrow, rfl⟩ := List.mem_map.mp hn
      exact hshort row hrow
    have hsum := List.sum_le_card_nsmul _ _ hrow
    have hdata : (rowSSTable schema options (rows.map fun row => [row])).data =
        rows.flatMap rowBytes := by
      simp only [rowSSTable, List.flatMap_map]
      congr 1
      funext row
      simp [rowBlockBytes]
    rw [List.length_map, smul_eq_mul] at hsum
    rw [hdata, List.length_flatMap]
    simp only [maxFileSize]
    omega
  · have hlength := ByteFormat.length_records (rowMetas (rows.map fun row => [row]))
      fun m _ => m.length_encode
    rw [rowMetas, Splitting.length_mapPrefix, hblocks] at hlength
    simp only [rowSSTable, rowMetas, hlength, maxFileSize, rowBlockMetaOnDiskSize]
    omega
  · have hcandidates : (indexCandidates (rows.map fun row => [row])).length = rows.length := by
      rw [indexCandidates, Splitting.length_mapPrefix, hblocks]
    have hle : (sparseIndexEntries (u32 (rows.map fun row => [row]).length) options
        (indexCandidates (rows.map fun row => [row]))).length ≤ rows.length :=
      (List.length_filter_le _ _).trans hcandidates.le
    simp only [rowSSTable, sparseIndexFile, maxFileSize]
    rw [ByteFormat.length_records _ fun e _ => e.length_encode, sparseIndexEntryOnDiskSize]
    omega
  · simp [rowSSTable, infoFile, maxFileSize]
  · apply length_statsFileBytes_le _ hsize
    · rwa [hblocks]
    · intro block hblock row hrow
      obtain ⟨only, honly, rfl⟩ := List.mem_map.mp hblock
      obtain rfl := List.mem_singleton.mp hrow
      exact hvalid row honly

/-- The build of such an SSTable. -/
theorem buildRowSSTable_singletons (hoptions : options.Accepted) (hne : rows ≠ [])
    (hvalid : ∀ row ∈ rows, ValidRow schema row) (hsorted : SortedRows rows)
    (hsize : schema.size ≤ 65535) (hshort : ∀ row ∈ rows, (rowBytes row).length ≤ 2 ^ 16)
    (hcount : rows.length ≤ 2 ^ 40) :
    buildRowSSTable schema options 1 rows =
      .ok (buildResult (rows.map fun row => [row]),
        rowSSTable schema options (rows.map fun row => [row])) := by
  have hsplit := split_rowBlockFull_one rows
  have hreturns := buildRowSSTable_returns hoptions Nat.one_pos hne hvalid hsorted (by
    intro block hblock
    rw [hsplit] at hblock
    obtain ⟨row, -, rfl⟩ := List.mem_map.mp hblock
    exact Nat.one_pos)
  rw [hsplit] at hreturns
  exact hreturns.eq_ok_of_fits (fit_singletons options hvalid hsize hshort hcount)

end Htap.Read
