import Htap.Read.Reader

/-!
What `SSTableReader` reads from a file of whole records, whatever the records
say: every range of blocks within the file is a slice of one list. For the
statistics that list exists per column, once the index of the file loads.
-/

namespace Htap.Read

open Storage SSTable ByteFormat Words

/-! ## Records of a fixed width -/

theorem total_i64 (e : Exception) : Total (readI64 e) 8 := (Total.word e 8).map int64OfBits

theorem total_double (e : Exception) : Total (readDouble e) 8 :=
  (Total.word e 8).map fun raw => Binary64.mk (UInt64.ofNat raw)

theorem total_rowBlockMeta (e : Exception) :
    Total (RowBlockMeta.read e) rowBlockMetaOnDiskSize :=
  (total_i64 e).bind fun _ => (total_i64 e).bind fun _ => (Total.word e 8).bind fun _ =>
    (Total.word e 8).bind fun _ => (Total.word e 4).bind fun _ => (Total.word e 4).map _

theorem total_columnBlockMeta (e : Exception) :
    Total (ColumnBlockMeta.read e) columnBlockMetaOnDiskSize :=
  (total_i64 e).bind fun _ => (total_i64 e).bind fun _ => (Total.word e 8).bind fun _ =>
    (Total.word e 8).bind fun _ => (Total.word e 4).bind fun _ => (Total.word e 4).bind fun _ =>
      (Total.word e 4).map _

theorem total_sparseIndexEntry (e : Exception) :
    Total (SparseIndexEntry.read e) sparseIndexEntryOnDiskSize :=
  (total_i64 e).bind fun _ => (Total.word e 4).map _

theorem total_statsEntry (columnIdx : Nat) (type : ValueType) :
    Total (readStatsEntry columnIdx type) numericStatsEntrySize := by
  have hwidth : numericStatsEntrySize = 1 + (8 + 8) := rfl
  rw [hwidth]
  refine (Total.word metadataEnd 1).bind fun flag => ?_
  cases type with
  | int64 => exact (total_i64 metadataEnd).bind fun _ => (total_i64 metadataEnd).map _
  | double => exact (total_double metadataEnd).bind fun _ => (total_double metadataEnd).map _
  | string => exact (total_double metadataEnd).bind fun _ => (total_double metadataEnd).map _

theorem readBytes_of_le {contents : Bytes} {offset size : Nat}
    (h : offset + size ≤ contents.length) :
    readBytes contents offset size = .ok ((contents.drop offset).take size) := by
  unfold readBytes
  rw [if_pos h]
  split
  · rename_i hzero
    rw [hzero, List.take_zero]
  · rfl

/-- The records behind `offset`, as far as the file has bytes for them. -/
theorem exists_parse_records {α : Type} {p : Parser Exception α} {size : Nat} (hp : Total p size)
    (count : Nat) {file : Bytes} {offset : Nat} (h : offset + count * size ≤ file.length) :
    ∃ records : List α, records.length = count ∧ ∀ first blocks, first + blocks ≤ count →
      (do
        let data ← readBytes file (offset + first * size) (blocks * size)
        parse (Parser.times p blocks) data) =
          .ok (Splitting.slice records first (first + blocks)) := by
  obtain ⟨records, hlength, hreads, hbytes⟩ := hp.exists_records count
    (show count * size ≤ (file.drop offset).length by rw [List.length_drop]; omega)
  refine ⟨records.map Prod.snd, by rw [List.length_map, hlength], ?_⟩
  intro first blocks hrange
  have hend : first * size + blocks * size ≤ count * size := by
    rw [← Nat.add_mul]
    exact Nat.mul_le_mul_right size hrange
  have hwindow := window_records records (fun r hr => (hreads r hr).1) first blocks
  rw [← hbytes, List.drop_take, List.take_take, min_eq_left (by omega), List.drop_drop] at hwindow
  have hpart : ((records.drop first).take blocks).length = blocks := by
    rw [List.length_take, List.length_drop]
    omega
  have hparts : ∀ r ∈ (records.drop first).take blocks, Reads p r.1 r.2 := fun r hr =>
    (hreads r (List.mem_of_mem_drop (List.mem_of_mem_take hr))).2
  have htimes := Reads.times_map ((records.drop first).take blocks) hparts
  rw [hpart] at htimes
  rw [readBytes_of_le (by omega), Result.ok_bind, hwindow, parse_eq htimes, Splitting.slice,
    Nat.add_sub_cancel_left, List.map_take, List.map_drop]

/-! ## Metadata -/

theorem exists_rowMetadata {files : SSTableFiles} {numBlocks : Nat}
    (h : numBlocks * rowBlockMetaOnDiskSize ≤ files.metadata.length) :
    ∃ metas : List RowBlockMeta, metas.length = numBlocks ∧ ∀ first count,
      first + count ≤ numBlocks →
        readRowMetadataRange files first count =
          .ok (Splitting.slice metas first (first + count)) := by
  obtain ⟨metas, hlength, hread⟩ := exists_parse_records (total_rowBlockMeta metadataEnd) numBlocks
    (show 0 + numBlocks * rowBlockMetaOnDiskSize ≤ files.metadata.length by omega)
  refine ⟨metas, hlength, fun first count hrange => ?_⟩
  unfold readRowMetadataRange
  split
  · rename_i hzero
    rw [hzero, Nat.add_zero, Splitting.slice_self]
  · have hrecords := hread first count hrange
    rwa [Nat.zero_add] at hrecords

theorem exists_columnMetadata {files : SSTableFiles} {numBlocks columnsCount : Nat}
    (h : numBlocks * columnsCount * columnBlockMetaOnDiskSize ≤ files.metadata.length) :
    ∃ metas : List ColumnBlockMeta, metas.length = numBlocks * columnsCount ∧ ∀ first count,
      first + count ≤ numBlocks → readColumnMetadataRange files first count columnsCount =
        .ok (Splitting.slice metas (first * columnsCount) ((first + count) * columnsCount)) := by
  obtain ⟨metas, hlength, hread⟩ := exists_parse_records (total_columnBlockMeta metadataEnd)
    (numBlocks * columnsCount)
    (show 0 + numBlocks * columnsCount * columnBlockMetaOnDiskSize ≤ files.metadata.length by omega)
  refine ⟨metas, hlength, fun first count hrange => ?_⟩
  unfold readColumnMetadataRange
  split
  · rename_i hzero
    rcases hzero with hzero | hzero
    · rw [hzero, Nat.add_zero, Splitting.slice_self]
    · rw [hzero, Nat.mul_zero, Nat.mul_zero, Splitting.slice_self]
  · have hentries : first * columnsCount + count * columnsCount ≤ numBlocks * columnsCount := by
      rw [← Nat.add_mul]
      exact Nat.mul_le_mul_right columnsCount hrange
    have hrecords := hread (first * columnsCount) (count * columnsCount) hentries
    rwa [Nat.zero_add, ← Nat.add_mul] at hrecords

/-- An index file of whole entries is read. -/
theorem exists_sparseIndex {files : SSTableFiles} {count : Nat}
    (h : files.index.length = count * sparseIndexEntryOnDiskSize) :
    ∃ entries, readSparseIndex files = .ok entries := by
  obtain ⟨entries, -, hread⟩ := exists_parse_records (total_sparseIndexEntry metadataEnd) count
    (show 0 + count * sparseIndexEntryOnDiskSize ≤ files.index.length by omega)
  unfold readSparseIndex
  split
  · exact ⟨[], rfl⟩
  · have hrecords := hread 0 count (Nat.zero_add count).le
    rw [Nat.zero_mul, Nat.add_zero] at hrecords
    rw [h, if_neg (by simp), Nat.mul_div_cancel _ (by decide)]
    exact ⟨_, hrecords⟩

/-! ## Statistics -/

/-- A descriptor that was accepted points to entries within the file. -/
def NumericStatsColumnDescriptor.Within (fileSize numBlocks : Nat)
    (descriptor : NumericStatsColumnDescriptor) : Prop :=
  descriptor.entrySize = numericStatsEntrySize ∧
    descriptor.offset + numBlocks * numericStatsEntrySize ≤ fileSize

private theorem within_of_readStatsDescriptor {fileSize numBlocks : Nat} {raw rest : Bytes}
    {descriptor : NumericStatsColumnDescriptor}
    (h : (readStatsDescriptor fileSize numBlocks).run raw = .ok (descriptor, rest)) :
    descriptor.Within fileSize numBlocks := by
  obtain ⟨columnIdx, _, -, h⟩ := Parser.run_bind_eq_ok.mp h
  obtain ⟨rawType, _, -, h⟩ := Parser.run_bind_eq_ok.mp h
  obtain ⟨offset, _, -, h⟩ := Parser.run_bind_eq_ok.mp h
  obtain ⟨entrySize, _, -, h⟩ := Parser.run_bind_eq_ok.mp h
  obtain ⟨type, _, -, h⟩ := Parser.run_bind_eq_ok.mp h
  split at h
  · cases h
  · rename_i hsize
    split at h
    · cases h
    · rename_i hbounds
      cases h
      rw [not_not] at hsize
      rw [hsize] at hbounds
      refine ⟨hsize, ?_⟩
      change offset + numBlocks * numericStatsEntrySize ≤ fileSize
      omega

private theorem within_of_loadNumericStatsIndex {files : SSTableFiles} {numBlocks : Nat}
    {descriptors : List NumericStatsColumnDescriptor}
    (h : loadNumericStatsIndex files = .ok (numBlocks, descriptors)) :
    ∀ d ∈ descriptors, d.Within files.stats.length numBlocks := by
  unfold loadNumericStatsIndex at h
  dsimp only at h
  split at h
  · cases h
  · obtain ⟨header, -, h⟩ := Result.bind_eq_ok.mp h
    obtain ⟨⟨magic, version, blocks, columns⟩, -, h⟩ := Result.bind_eq_ok.mp h
    split at h
    · cases h
    · split at h
      · cases h
      · split at h
        · cases h
        · obtain ⟨data, -, h⟩ := Result.bind_eq_ok.mp h
          obtain ⟨read, hparse, h⟩ := Result.bind_eq_ok.mp h
          cases h
          obtain ⟨⟨read', rest⟩, htimes, hok⟩ := Result.bind_eq_ok.mp hparse
          cases hok
          exact forall_of_times (fun raw a rest => within_of_readStatsDescriptor) htimes

/-- The columns a read of `columnIndices` collects. -/
def statsByColumn (column : Nat → Option (List NumericBlockStats)) (first count : Nat)
    (columnIndices : List Nat) : List (Nat × List NumericBlockStats) :=
  columnIndices.foldl (fun byColumn columnIdx =>
    match column columnIdx with
    | some stats =>
      emplaceColumn byColumn columnIdx (Splitting.slice stats first (first + count))
    | none => byColumn) []

private theorem foldlM_of_ok {σ ι : Type} {step : σ → ι → Result σ} {next : σ → ι → σ}
    (h : ∀ s i, step s i = .ok (next s i)) (items : List ι) (s : σ) :
    items.foldlM step s = .ok (items.foldl next s) := by
  induction items generalizing s with
  | nil => rfl
  | cons i items ih => rw [List.foldlM_cons, h, Result.ok_bind, ih, List.foldl_cons]

private theorem exists_statsColumn {files : SSTableFiles} {numBlocks : Nat}
    {descriptors : List NumericStatsColumnDescriptor}
    (h : ∀ d ∈ descriptors, d.Within files.stats.length numBlocks) (columnIdx : Nat) :
    ∃ column : Option (List NumericBlockStats), (∀ stats ∈ column, stats.length = numBlocks) ∧
      ∀ first count, first + count ≤ numBlocks →
        readStatsColumn files first count descriptors columnIdx =
          .ok (column.map fun stats => Splitting.slice stats first (first + count)) := by
  unfold readStatsColumn
  cases hfind : descriptors.find? fun d => d.columnIdx == columnIdx with
  | none => exact ⟨none, by simp, fun _ _ _ => rfl⟩
  | some d =>
    obtain ⟨hsize, hbounds⟩ := h d (List.mem_of_find?_eq_some hfind)
    obtain ⟨stats, hlength, hread⟩ :=
      exists_parse_records (total_statsEntry d.columnIdx d.type) numBlocks hbounds
    refine ⟨some stats, by simpa using hlength, fun first count hrange => ?_⟩
    have hrecords := hread first count hrange
    obtain ⟨data, hdata, hparse⟩ := Result.bind_eq_ok.mp hrecords
    simp only [hsize, hdata, hparse, Result.ok_bind, Result.pure_eq, Option.map_some]

/-- A range is read column by column, once the index loads. -/
theorem readNumericStatsRange_of_columns {files : SSTableFiles} {numBlocks : Nat}
    {descriptors : List NumericStatsColumnDescriptor}
    (h : loadNumericStatsIndex files = .ok (numBlocks, descriptors)) {first count : Nat}
    (hcount : 0 < count) (hrange : first + count ≤ numBlocks)
    {column : Nat → Option (List NumericBlockStats)}
    (hread : ∀ columnIdx, readStatsColumn files first count descriptors columnIdx =
      .ok ((column columnIdx).map fun stats => Splitting.slice stats first (first + count)))
    (columnIndices : List Nat) :
    readNumericStatsRange files first count columnIndices =
      .ok ⟨first, count, statsByColumn column first count columnIndices⟩ := by
  unfold readNumericStatsRange
  split
  · rename_i hnone
    have hempty : columnIndices = [] := by
      rcases hnone with hzero | hempty
      · omega
      · exact List.isEmpty_iff.mp hempty
    rw [hempty]
    rfl
  · rw [h, Result.ok_bind]
    dsimp only
    rw [if_neg (by omega)]
    have hstep : ∀ (byColumn : List (Nat × List NumericBlockStats)) (columnIdx : Nat),
        (do
          let stats ← readStatsColumn files first count descriptors columnIdx
          return match stats with
            | some stats => emplaceColumn byColumn columnIdx stats
            | none => byColumn : Result _) =
        .ok (match column columnIdx with
          | some stats =>
            emplaceColumn byColumn columnIdx (Splitting.slice stats first (first + count))
          | none => byColumn) := by
      intro byColumn columnIdx
      rw [hread columnIdx]
      cases column columnIdx <;> rfl
    exact Result.bind_eq_ok.mpr ⟨_, foldlM_of_ok hstep columnIndices [], rfl⟩

/-- Once the index loads, every range of every requested column is a slice of
the column's statistics. -/
theorem exists_statsColumns {files : SSTableFiles} {numBlocks : Nat}
    {descriptors : List NumericStatsColumnDescriptor}
    (h : loadNumericStatsIndex files = .ok (numBlocks, descriptors)) :
    ∃ column : Nat → Option (List NumericBlockStats),
      (∀ columnIdx, ∀ stats ∈ column columnIdx, stats.length = numBlocks) ∧
      ∀ first count columnIndices, 0 < count → first + count ≤ numBlocks →
        readNumericStatsRange files first count columnIndices =
          .ok ⟨first, count, statsByColumn column first count columnIndices⟩ := by
  have hwithin := within_of_loadNumericStatsIndex h
  choose column hlength hread using fun columnIdx => exists_statsColumn hwithin columnIdx
  exact ⟨column, hlength, fun first count columnIndices hcount hrange =>
    readNumericStatsRange_of_columns h hcount hrange
      (fun columnIdx => hread columnIdx first count hrange) columnIndices⟩

private theorem find?_emplaceColumn (byColumn : List (Nat × List NumericBlockStats))
    (columnIdx : Nat) (stats : List NumericBlockStats) (i : Nat) :
    (emplaceColumn byColumn columnIdx stats).find? (fun c => c.1 == i) =
      (byColumn.find? fun c => c.1 == i).or
        (if columnIdx = i then some (columnIdx, stats) else none) := by
  unfold emplaceColumn
  split
  · rename_i hany
    obtain ⟨c, hc, heq⟩ := List.any_eq_true.mp hany
    by_cases hi : columnIdx = i
    · subst hi
      have hfound : (byColumn.find? fun c => c.1 == columnIdx).isSome :=
        List.find?_isSome.mpr ⟨c, hc, heq⟩
      obtain ⟨found, hsome⟩ := Option.isSome_iff_exists.mp hfound
      rw [hsome, Option.some_or]
    · rw [if_neg hi, Option.or_none]
  · rw [List.find?_append]
    congr 1
    by_cases hi : columnIdx = i <;> simp [hi]

/-- The requested columns that have statistics, and no others. -/
theorem column_statsByColumn (column : Nat → Option (List NumericBlockStats))
    (first count : Nat) (columnIndices : List Nat) (i : Nat) :
    NumericStatsRange.column ⟨first, count, statsByColumn column first count columnIndices⟩ i =
      if i ∈ columnIndices then
        (column i).map fun stats => Splitting.slice stats first (first + count)
      else none := by
  unfold NumericStatsRange.column statsByColumn
  dsimp only
  induction columnIndices using List.reverseRecOn with
  | nil => rfl
  | append_singleton columnIndices columnIdx ih =>
    rw [List.foldl_append, List.foldl_cons, List.foldl_nil]
    generalize columnIndices.foldl _ [] = byColumn at ih
    cases hcolumn : column columnIdx with
    | none =>
      dsimp only
      rw [ih]
      by_cases hi : i = columnIdx
      · subst hi
        simp [hcolumn]
      · simp [hi]
    | some stats =>
      dsimp only
      rw [find?_emplaceColumn, Option.map_or, ih]
      by_cases hi : columnIdx = i
      · subst hi
        by_cases hmem : columnIdx ∈ columnIndices <;> simp [hmem, hcolumn]
      · by_cases hmem : i ∈ columnIndices <;> simp [hmem, hi, Ne.symm hi]

end Htap.Read
