import Htap.Read.FileRanges
import Htap.SSTable.ExactStats

/-!
The stats file read back: what `write_stats_file` wrote for some blocks is
accepted by `load_numeric_stats_index`, descriptor by descriptor.
-/

namespace Htap.Read

open Storage SSTable ByteFormat Words

/-! ## The size of the file -/

private theorem length_encodeStatsEntry {type : ValueType} (htype : type.isNumeric = true)
    {stats : Option NumericBlockStats} {bytes : Bytes}
    (h : encodeStatsEntry type stats = .ok bytes) : bytes.length = numericStatsEntrySize := by
  unfold encodeStatsEntry at h
  generalize stats.filter (·.hasValue) = kept at h
  cases kept with
  | none =>
    cases type with
    | int64 =>
      cases h
      rfl
    | double =>
      cases h
      rfl
    | string => cases htype
  | some stats =>
    cases type with
    | int64 =>
      obtain ⟨minValue, -, h⟩ := Result.bind_eq_ok.mp h
      obtain ⟨maxValue, -, h⟩ := Result.bind_eq_ok.mp h
      cases h
      simp [numericStatsEntrySize]
    | double =>
      obtain ⟨minValue, -, h⟩ := Result.bind_eq_ok.mp h
      obtain ⟨maxValue, -, h⟩ := Result.bind_eq_ok.mp h
      cases h
      simp [numericStatsEntrySize]
    | string => cases htype

private theorem length_flatten_of_forall {parts : List Bytes} {size : Nat}
    (h : ∀ part ∈ parts, part.length = size) : parts.flatten.length = parts.length * size := by
  have hrecords := @length_records Bytes UInt8 id size parts h
  simpa [List.flatMap_id] using hrecords

/-- Every block has an entry in every column with statistics. -/
private theorem length_statsEntries {schema : Schema} {blocks : List (List NumericBlockStats)}
    {entries : List (List Bytes)}
    (h : ((statsColumns schema).mapM fun column => blocks.mapM fun block =>
      encodeStatsEntry column.2 (block.find? fun stats => stats.columnIdx = column.1)) =
        .ok entries) :
    (entries.map List.flatten).flatten.length =
      (statsColumns schema).length * (blocks.length * numericStatsEntrySize) := by
  have hcolumn : ∀ part ∈ entries.map List.flatten,
      part.length = blocks.length * numericStatsEntrySize := by
    intro part hpart
    obtain ⟨parts, hparts, rfl⟩ := List.mem_map.mp hpart
    obtain ⟨column, hcolumn, hblocks⟩ := Result.exists_of_mem_mapM h hparts
    have hsize : ∀ entry ∈ parts, entry.length = numericStatsEntrySize := by
      intro entry hentry
      obtain ⟨block, -, hencode⟩ := Result.exists_of_mem_mapM hblocks hentry
      exact length_encodeStatsEntry (numeric_of_mem_statsColumns hcolumn) hencode
    rw [length_flatten_of_forall hsize, (Result.mapM_eq_ok.mp hblocks).length_eq]
  rw [length_flatten_of_forall hcolumn, List.length_map, (Result.mapM_eq_ok.mp h).length_eq]

/-! ## The descriptors -/

/-- The descriptors of the given columns over `numBlocks` blocks. -/
def descriptorsOf (columns : List (Nat × ValueType)) (numBlocks : Nat) :
    List NumericStatsColumnDescriptor :=
  columns.zipIdx.map fun c =>
    { columnIdx := u32 c.1.1
      type := c.1.2
      offset := statsHeaderSize + columns.length * statsColumnDescriptorSize +
        c.2 * numBlocks * numericStatsEntrySize
      entrySize := numericStatsEntrySize }

private theorem reads_statsDescriptor {fileSize numBlocks dataStart i : Nat}
    {column : Nat × ValueType} (hnumeric : column.2.isNumeric = true) (hfile : fileSize < 2 ^ 64)
    (hbounds : dataStart + i * numBlocks * numericStatsEntrySize +
      numBlocks * numericStatsEntrySize ≤ fileSize) :
    Reads (readStatsDescriptor fileSize numBlocks) (statsDescriptor dataStart numBlocks i column)
      { columnIdx := u32 column.1
        type := column.2
        offset := dataStart + i * numBlocks * numericStatsEntrySize
        entrySize := numericStatsEntrySize } := by
  have hcode : column.2.code < 256 ^ 1 := by cases column.2 <;> decide
  have hoffset : dataStart + i * numBlocks * numericStatsEntrySize < 256 ^ 8 := by
    have hpow : (256 : Nat) ^ 8 = 2 ^ 64 := by norm_num
    omega
  have hsize : numericStatsEntrySize < 256 ^ 4 := by decide
  refine (Reads.word metadataEnd 4 column.1).bind ((Reads.word_of_lt metadataEnd hcode).bind
    ((Reads.word_of_lt metadataEnd hoffset).bind ?_))
  refine ((Reads.word_of_lt metadataEnd hsize).bind (?_ : Reads _ [] _)).congr (by simp) rfl
  have htype : Reads (if column.2.code = ValueType.int64.code then pure ValueType.int64
      else if column.2.code = ValueType.double.code then pure ValueType.double
      else Parser.fail (.runtimeError "Invalid stats value type: ") : Parser Exception ValueType)
      [] column.2 := by
    cases htype : column.2 with
    | int64 => exact Reads.pure _
    | double => exact Reads.pure _
    | string => simp [htype, ValueType.isNumeric] at hnumeric
  refine (htype.bind (?_ : Reads _ [] _)).congr rfl rfl
  rw [if_neg (not_not.mpr rfl), if_neg (by omega)]
  exact Reads.pure _

private theorem reads_statsHeader (numBlocks numStatsColumns : Nat) (hblocks : numBlocks < 2 ^ 32)
    (hcolumns : numStatsColumns < 2 ^ 32) :
    parse (do
      let magic ← Parser.word metadataEnd 4
      let version ← Parser.word metadataEnd 4
      let numBlocks ← Parser.word metadataEnd 4
      let numStatsColumns ← Parser.word metadataEnd 4
      return (magic, version, numBlocks, numStatsColumns))
      (leBytes 4 statsMagic ++ (leBytes 4 statsVersion ++
        (leBytes 4 numBlocks ++ leBytes 4 numStatsColumns))) =
      .ok (statsMagic, statsVersion, numBlocks, numStatsColumns) :=
  parse_eq ((Reads.word_of_lt metadataEnd (by decide)).bind
    ((Reads.word_of_lt metadataEnd (by decide)).bind
      ((Reads.word_of_lt metadataEnd hblocks).bind
        ((Reads.word_of_lt metadataEnd hcolumns).map _))))

@[simp] theorem length_statsDescriptor (dataStart numBlocks i : Nat) (column : Nat × ValueType) :
    (statsDescriptor dataStart numBlocks i column).length = statsColumnDescriptorSize := by
  simp [statsDescriptor, statsColumnDescriptorSize]

/-- A header, its descriptors and enough entries behind them. -/
private theorem loadNumericStatsIndex_of_parts {columns : List (Nat × ValueType)} {numBlocks : Nat}
    {body : Bytes} {files : SSTableFiles} (hnumeric : ∀ c ∈ columns, c.2.isNumeric = true)
    (hcolumns : columns.length < 2 ^ 32) (hblocks : numBlocks < 2 ^ 32)
    (hbody : columns.length * (numBlocks * numericStatsEntrySize) ≤ body.length)
    (hfile : files.stats =
      (leBytes 4 statsMagic ++ (leBytes 4 statsVersion ++
        (leBytes 4 numBlocks ++ leBytes 4 columns.length))) ++
      ((columns.zipIdx.map fun c =>
        statsDescriptor (statsHeaderSize + columns.length * statsColumnDescriptorSize) numBlocks
          c.2 c.1).flatten ++ body))
    (hfits : files.stats.length < 2 ^ 64) :
    loadNumericStatsIndex files = .ok (numBlocks, descriptorsOf columns numBlocks) := by
  have hparse := reads_statsHeader numBlocks columns.length hblocks hcolumns
  generalize hheader : leBytes 4 statsMagic ++ (leBytes 4 statsVersion ++
    (leBytes 4 numBlocks ++ leBytes 4 columns.length)) = header at hfile hparse
  have hheaderLength : header.length = statsHeaderSize := by
    rw [← hheader]
    simp [statsHeaderSize]
  have hdescriptors : ∀ c ∈ columns.zipIdx, c.1.2.isNumeric = true ∧ c.2 < columns.length := by
    rintro ⟨column, i⟩ hc
    obtain ⟨hi, hget⟩ := List.getElem?_eq_some_iff.mp (List.mk_mem_zipIdx_iff_getElem?.mp hc)
    exact ⟨hnumeric column (hget ▸ List.getElem_mem _), hi⟩
  have hlength : (columns.zipIdx.map fun c =>
      statsDescriptor (statsHeaderSize + columns.length * statsColumnDescriptorSize) numBlocks
        c.2 c.1).flatten.length = columns.length * statsColumnDescriptorSize := by
    rw [@length_flatten_of_forall _ statsColumnDescriptorSize, List.length_map, List.length_zipIdx]
    intro part hpart
    obtain ⟨c, -, rfl⟩ := List.mem_map.mp hpart
    exact length_statsDescriptor _ _ _ _
  have hsize : files.stats.length =
      statsHeaderSize + (columns.length * statsColumnDescriptorSize + body.length) := by
    rw [hfile, List.length_append, List.length_append, hheaderLength, hlength]
  have hbounds : ∀ c ∈ columns.zipIdx,
      statsHeaderSize + columns.length * statsColumnDescriptorSize +
        c.2 * numBlocks * numericStatsEntrySize + numBlocks * numericStatsEntrySize ≤
          files.stats.length := by
    intro c hc
    have hi := Nat.mul_le_mul_right (numBlocks * numericStatsEntrySize)
      (Nat.succ_le_of_lt (hdescriptors c hc).2)
    rw [Nat.succ_mul, ← Nat.mul_assoc] at hi
    omega
  have hreads := Reads.times_map columns.zipIdx fun c hc =>
    reads_statsDescriptor (hdescriptors c hc).1 hfits (hbounds c hc)
  rw [List.length_zipIdx, List.flatMap_def] at hreads
  generalize (columns.zipIdx.map fun c =>
    statsDescriptor (statsHeaderSize + columns.length * statsColumnDescriptorSize) numBlocks
      c.2 c.1).flatten = descriptors at hfile hlength hreads
  have hreadHeader : readBytes files.stats 0 statsHeaderSize = .ok header := by
    rw [hfile, ← hheaderLength]
    exact readBytes_window [] header _
  have hreadDescriptors : readBytes files.stats statsHeaderSize
      (columns.length * statsColumnDescriptorSize) = .ok descriptors := by
    rw [hfile, ← hheaderLength, ← hlength, ← List.append_assoc]
    exact readBytes_window header descriptors body
  unfold loadNumericStatsIndex
  dsimp only
  rw [if_neg (by omega), hreadHeader, Result.ok_bind, hparse, Result.ok_bind]
  dsimp only
  rw [if_neg (not_not.mpr rfl), if_neg (not_not.mpr rfl), if_neg (by omega), hreadDescriptors,
    Result.ok_bind, parse_eq hreads]
  rfl

/-- The columns whose descriptors fit the counter of the header. -/
def countedColumns (schema : Schema) : List (Nat × ValueType) :=
  (statsColumns schema).take (u32 (statsColumns schema).length)

/-- The index of a stats file that was written loads. -/
theorem loadNumericStatsIndex_eq {schema : Schema} {blocks : List (List NumericBlockStats)}
    {files : SSTableFiles} (hstats : statsFile schema blocks = .ok files.stats)
    (hfits : files.stats.length ≤ maxFileSize) :
    loadNumericStatsIndex files =
      .ok (u32 blocks.length, descriptorsOf (countedColumns schema) (u32 blocks.length)) := by
  unfold statsFile at hstats
  obtain ⟨entries, hentries, hstats⟩ := Result.bind_eq_ok.mp hstats
  rw [Result.pure_eq, Except.ok.injEq] at hstats
  have hcolumnsLe : u32 (statsColumns schema).length ≤ (statsColumns schema).length :=
    Nat.mod_le _ _
  have hcount : (countedColumns schema).length = u32 (statsColumns schema).length := by
    rw [countedColumns, List.length_take, min_eq_left hcolumnsLe]
  have hbody : (countedColumns schema).length * (u32 blocks.length * numericStatsEntrySize) ≤
      ((entries.map List.flatten).flatten).length := by
    rw [length_statsEntries hentries, hcount]
    exact Nat.mul_le_mul hcolumnsLe (Nat.mul_le_mul_right _ (Nat.mod_le _ _))
  refine loadNumericStatsIndex_of_parts ?_ (by rw [hcount]; exact u32_lt _) (u32_lt _) hbody ?_ ?_
  · exact fun c hc => numeric_of_mem_statsColumns (List.mem_of_mem_take hc)
  · rw [hcount]
    exact hstats.symm
  · have hmax : maxFileSize < 2 ^ 64 := by decide
    omega

/-! ## The entries -/

/-- The entry of statistics that were never touched, or that saw a value. -/
private theorem reads_statsEntry {stats : NumericBlockStats} (htyped : stats.Typed)
    (hnone : stats.hasValue = false →
      stats = NumericBlockStats.initial stats.columnIdx stats.type) :
    Reads (readStatsEntry stats.columnIdx stats.type) (statsEntryBytes stats) stats := by
  obtain ⟨columnIdx, type, hasValue, minValue, maxValue⟩ := stats
  obtain ⟨hnumeric, hmin, hmax⟩ := htyped
  simp only at hnumeric hmin hmax hnone ⊢
  have hflag : ∀ flag : Nat, flag < 2 → Reads (Parser.word metadataEnd 1) (leBytes 1 flag) flag :=
    fun flag h => Reads.word_of_lt metadataEnd (by omega)
  cases type with
  | string => cases hnumeric
  | int64 =>
    cases minValue <;> cases hmin
    rename_i low
    cases maxValue <;> cases hmax
    rename_i high
    cases hasValue with
    | true => exact (hflag 1 (by omega)).bind ((reads_i64 _ low).bind ((reads_i64 _ high).map _))
    | false =>
      cases hnone rfl
      exact (hflag 0 (by omega)).bind ((reads_i64 _ 0).bind ((reads_i64 _ 0).map _))
  | double =>
    cases minValue <;> cases hmin
    rename_i low
    cases maxValue <;> cases hmax
    rename_i high
    cases hasValue with
    | true =>
      exact (hflag 1 (by omega)).bind ((reads_double _ low).bind ((reads_double _ high).map _))
    | false =>
      cases hnone rfl
      exact (hflag 0 (by omega)).bind ((reads_double _ Binary64.zero).bind
        ((reads_double _ Binary64.zero).map _))

section Columns

variable {schema : Schema} {blocks : List (List Row)} {files : SSTableFiles}
  {column : Nat × ValueType}

/-- The entry of a block reads back as the statistics of its rows. -/
private theorem reads_columnStats (hcolumn : column ∈ statsColumns schema) {rows : List Row}
    (hrows : ∀ row ∈ rows, ValidRow schema row) :
    Reads (readStatsEntry column.1 column.2) (statsEntryBytes (columnStats rows column))
      (columnStats rows column) := by
  obtain ⟨htyped, htype, hidx⟩ := typed_columnStats hcolumn hrows
  have hreads := reads_statsEntry htyped fun hnone => by
    rw [htype, hidx]
    exact columnStats_of_hasNoValue hcolumn hrows hnone
  rwa [htype, hidx] at hreads

theorem length_statsEntryBytes (hcolumn : column ∈ statsColumns schema) {rows : List Row}
    (hrows : ∀ row ∈ rows, ValidRow schema row) :
    (statsEntryBytes (columnStats rows column)).length = numericStatsEntrySize := by
  obtain ⟨htyped, -, -⟩ := typed_columnStats hcolumn hrows
  have hencode := encodeStatsEntry_of_typed htyped
  exact length_encodeStatsEntry htyped.numeric hencode

/-- The descriptor of a column is the one that is found for it. -/
private theorem find?_descriptorsOf {columns : List (Nat × ValueType)}
    (hnodup : (columns.map Prod.fst).Nodup) (hfits : ∀ c ∈ columns, c.1 < 2 ^ 32) {i : Nat}
    (hget : columns[i]? = some column) (numBlocks : Nat) :
    (descriptorsOf columns numBlocks).find? (fun d => d.columnIdx == column.1) =
      some {
        columnIdx := column.1
        type := column.2
        offset := statsHeaderSize + columns.length * statsColumnDescriptorSize +
          i * numBlocks * numericStatsEntrySize
        entrySize := numericStatsEntrySize } := by
  obtain ⟨hi, heq⟩ := List.getElem?_eq_some_iff.mp hget
  have hcolumn : u32 column.1 = column.1 := u32_of_lt (hfits column (heq ▸ List.getElem_mem hi))
  have hlength : (descriptorsOf columns numBlocks).length = columns.length := by
    simp [descriptorsOf]
  refine List.find?_eq_some_iff_getElem.mpr ⟨by simp, i, by omega, ?_, ?_⟩
  · simp [descriptorsOf, heq, hcolumn]
  · intro j hj
    have hjlt : j < columns.length := by omega
    have hother : u32 (columns[j]).1 = (columns[j]).1 :=
      u32_of_lt (hfits _ (List.getElem_mem hjlt))
    have hne : (columns[j]).1 ≠ column.1 := by
      intro hsame
      rw [← heq] at hsame
      have hinj := (@List.Nodup.getElem_inj_iff _ _ hnodup j (by simpa using hjlt) i
        (by simpa using hi)).mp (by simpa using hsame)
      omega
    simpa [descriptorsOf, hother] using hne

private theorem find?_descriptorsOf_none {columns : List (Nat × ValueType)}
    (hfits : ∀ c ∈ columns, c.1 < 2 ^ 32) {columnIdx : Nat}
    (hnone : columnIdx ∉ columns.map Prod.fst) (numBlocks : Nat) :
    (descriptorsOf columns numBlocks).find? (fun d => d.columnIdx == columnIdx) = none := by
  refine List.find?_eq_none.mpr fun d hd => ?_
  obtain ⟨⟨c, i⟩, hc, rfl⟩ := List.mem_map.mp hd
  have hmem : c ∈ columns := List.fst_mem_of_mem_zipIdx hc
  have hne : c.1 ≠ columnIdx := fun h => hnone (h ▸ List.mem_map_of_mem hmem)
  simpa [u32_of_lt (hfits c hmem)] using hne

private theorem statsColumns_lt (hsize : schema.size < 2 ^ 32) :
    ∀ c ∈ statsColumns schema, c.1 < 2 ^ 32 := by
  intro c hc
  obtain ⟨_, hget, -⟩ := mem_statsColumns.mp hc
  exact (List.getElem?_eq_some_iff.mp hget).1.trans hsize

private theorem length_statsColumns_lt (hsize : schema.size < 2 ^ 32) :
    (statsColumns schema).length < 2 ^ 32 := by
  have hle : (statsColumns schema).length ≤ schema.size := by
    unfold statsColumns
    rw [List.length_map]
    exact (List.length_filter_le _ _).trans (by simp [Schema.size])
  omega

/-- The stats file of blocks of valid rows: what stands before the entries of a
column, and the entries of the column. The header may have lost count of both. -/
theorem statsFile_window (hstats : files.stats = statsFileBytes schema blocks)
    (hvalid : ∀ rows ∈ blocks, ∀ row ∈ rows, ValidRow schema row) {i : Nat}
    (hget : (statsColumns schema)[i]? = some column) :
    ∃ before after : Bytes,
      files.stats = before ++
        (blocks.flatMap fun rows => statsEntryBytes (columnStats rows column)) ++ after ∧
      before.length = statsHeaderSize +
        (countedColumns schema).length * statsColumnDescriptorSize +
        i * blocks.length * numericStatsEntrySize := by
  obtain ⟨hi, heq⟩ := List.getElem?_eq_some_iff.mp hget
  have hsplit : statsColumns schema =
      (statsColumns schema).take i ++ column :: (statsColumns schema).drop (i + 1) := by
    rw [← heq, List.getElem_cons_drop, List.take_append_drop]
  unfold statsFileBytes at hstats
  dsimp only at hstats
  generalize hheader : leBytes 4 statsMagic ++ (leBytes 4 statsVersion ++
    (leBytes 4 (u32 blocks.length) ++ leBytes 4 (u32 (statsColumns schema).length))) = header
    at hstats
  generalize hdescriptors : (((statsColumns schema).take
    (u32 (statsColumns schema).length)).zipIdx.map fun c =>
      statsDescriptor (statsHeaderSize + u32 (statsColumns schema).length *
        statsColumnDescriptorSize) (u32 blocks.length) c.2 c.1).flatten = descriptors at hstats
  have hheaderLength : header.length = statsHeaderSize := by
    rw [← hheader]
    simp [statsHeaderSize]
  have hdescriptorsLength : descriptors.length =
      (countedColumns schema).length * statsColumnDescriptorSize := by
    rw [← hdescriptors, @length_flatten_of_forall _ statsColumnDescriptorSize, List.length_map,
      List.length_zipIdx, countedColumns]
    intro part hpart
    obtain ⟨c, -, rfl⟩ := List.mem_map.mp hpart
    exact length_statsDescriptor _ _ _ _
  have hearlier : (((statsColumns schema).take i).flatMap fun c =>
      blocks.flatMap fun rows => statsEntryBytes (columnStats rows c)).length =
        i * (blocks.length * numericStatsEntrySize) := by
    rw [length_records ((statsColumns schema).take i), List.length_take, min_eq_left hi.le]
    intro c hc
    exact length_records blocks fun rows hrows =>
      length_statsEntryBytes (List.mem_of_mem_take hc) (hvalid rows hrows)
  refine ⟨header ++ (descriptors ++ ((statsColumns schema).take i).flatMap fun c =>
      blocks.flatMap fun rows => statsEntryBytes (columnStats rows c)),
    ((statsColumns schema).drop (i + 1)).flatMap fun c =>
      blocks.flatMap fun rows => statsEntryBytes (columnStats rows c), ?_, ?_⟩
  · rw [hstats]
    conv_lhs => rw [hsplit]
    simp only [List.flatMap_append, List.flatMap_cons, List.append_assoc]
  · rw [List.length_append, List.length_append, hheaderLength, hdescriptorsLength, hearlier]
    ring

/-- The entries of a requested column over a range of blocks. -/
theorem readStatsColumn_eq (hstats : files.stats = statsFileBytes schema blocks)
    (hvalid : ∀ rows ∈ blocks, ∀ row ∈ rows, ValidRow schema row) (hsize : schema.size < 2 ^ 32)
    (hcolumn : column ∈ statsColumns schema) {first count : Nat}
    (hrange : first + count ≤ blocks.length) :
    readStatsColumn files first count (descriptorsOf (statsColumns schema) blocks.length) column.1 =
      .ok (some (((blocks.drop first).take count).map fun rows => columnStats rows column)) := by
  obtain ⟨i, hi, hgetElem⟩ := List.getElem_of_mem hcolumn
  have hget : (statsColumns schema)[i]? = some column := by
    rw [List.getElem?_eq_getElem hi, hgetElem]
  obtain ⟨before, after, hfile, hbefore⟩ := statsFile_window hstats hvalid hget
  rw [countedColumns, u32_of_lt (length_statsColumns_lt hsize), List.take_length] at hbefore
  unfold readStatsColumn
  rw [find?_descriptorsOf (nodup_statsColumns schema) (statsColumns_lt hsize) hget]
  dsimp only
  have hentry : ∀ rows ∈ blocks,
      (statsEntryBytes (columnStats rows column)).length = numericStatsEntrySize :=
    fun rows hrows => length_statsEntryBytes hcolumn (hvalid rows hrows)
  have hreads : ∀ rows ∈ blocks, Reads (readStatsEntry column.1 column.2)
      (statsEntryBytes (columnStats rows column)) (columnStats rows column) :=
    fun rows hrows => reads_columnStats hcolumn (hvalid rows hrows)
  have hwindow : readBytes files.stats (before.length + first * numericStatsEntrySize)
      (count * numericStatsEntrySize) =
      .ok (((blocks.drop first).take count).flatMap fun rows =>
        statsEntryBytes (columnStats rows column)) := by
    have hskipped := length_records (blocks.take first)
      fun rows hrows => hentry rows (List.mem_of_mem_take hrows)
    have htaken := length_records ((blocks.drop first).take count)
      fun rows hrows => hentry rows (List.mem_of_mem_drop (List.mem_of_mem_take hrows))
    rw [List.length_take, min_eq_left (by omega)] at hskipped
    rw [List.length_take, List.length_drop, min_eq_left (by omega)] at htaken
    have hread := readBytes_window
      (before ++ (blocks.take first).flatMap fun rows => statsEntryBytes (columnStats rows column))
      (((blocks.drop first).take count).flatMap fun rows =>
        statsEntryBytes (columnStats rows column))
      ((((blocks.drop first).drop count).flatMap fun rows =>
        statsEntryBytes (columnStats rows column)) ++ after)
    rw [List.length_append, hskipped, htaken] at hread
    rw [hfile, ← hread]
    congr 1
    conv_lhs => rw [← List.take_append_drop first blocks,
      ← List.take_append_drop count (blocks.drop first)]
    simp only [List.flatMap_append, List.append_assoc]
  have hparse : parse (Parser.times (readStatsEntry column.1 column.2) count)
      (((blocks.drop first).take count).flatMap fun rows =>
        statsEntryBytes (columnStats rows column)) =
      .ok (((blocks.drop first).take count).map fun rows => columnStats rows column) := by
    have htimes := Reads.times_map ((blocks.drop first).take count)
      fun rows hrows => hreads rows (List.mem_of_mem_drop (List.mem_of_mem_take hrows))
    have hlength : ((blocks.drop first).take count).length = count := by
      rw [List.length_take, List.length_drop]
      omega
    rw [hlength] at htimes
    exact parse_eq htimes
  rw [← hbefore, hwindow, Result.ok_bind, hparse]
  rfl

/-- A range of statistics, for the requested columns that have any. -/
theorem readNumericStatsRange_eq (hstats : files.stats = statsFileBytes schema blocks)
    (hfits : files.stats.length ≤ maxFileSize)
    (hvalid : ∀ rows ∈ blocks, ∀ row ∈ rows, ValidRow schema row) (hsize : schema.size < 2 ^ 32)
    (hblocks : blocks.length < 2 ^ 32) {first count : Nat} (hcount : 0 < count)
    (hrange : first + count ≤ blocks.length) (requested : List Nat) :
    ∃ range, readNumericStatsRange files first count requested = .ok range ∧
      range.firstBlockId = first ∧ range.blockCount = count ∧
      ∀ columnIdx, range.column columnIdx =
        if columnIdx ∈ requested then
          ((statsColumns schema).find? fun c => c.1 == columnIdx).map fun column =>
            ((blocks.drop first).take count).map fun rows => columnStats rows column
        else none := by
  have hload := loadNumericStatsIndex_eq
    ((statsFile_of_valid blocks hvalid).trans (congrArg Except.ok hstats.symm)) hfits
  rw [countedColumns, u32_of_lt (length_statsColumns_lt hsize), List.take_length, List.length_map,
    u32_of_lt hblocks] at hload
  have hslice : ∀ column, Splitting.slice (blocks.map fun rows => columnStats rows column) first
      (first + count) = ((blocks.drop first).take count).map fun rows =>
        columnStats rows column := by
    intro column
    rw [Splitting.slice, Nat.add_sub_cancel_left, List.map_take, List.map_drop]
  have hread := @readNumericStatsRange_of_columns files blocks.length _ hload first count hcount
    hrange (fun columnIdx =>
      ((statsColumns schema).find? fun c => c.1 == columnIdx).map fun column =>
        blocks.map fun rows => columnStats rows column) (by
      intro columnIdx
      cases hfind : (statsColumns schema).find? fun c => c.1 == columnIdx with
      | none =>
        have hnone : columnIdx ∉ (statsColumns schema).map Prod.fst := by
          intro hmem
          obtain ⟨c, hc, rfl⟩ := List.mem_map.mp hmem
          simpa using List.find?_eq_none.mp hfind c hc
        rw [readStatsColumn, find?_descriptorsOf_none (statsColumns_lt hsize) hnone]
        rfl
      | some column =>
        have hcolumn := List.mem_of_find?_eq_some hfind
        have hidx : column.1 = columnIdx := by simpa using List.find?_some hfind
        rw [← hidx, readStatsColumn_eq hstats hvalid hsize hcolumn hrange, Option.map_some,
          Option.map_some, hslice]) requested
  refine ⟨_, hread, rfl, rfl, fun columnIdx => ?_⟩
  rw [column_statsByColumn]
  split
  · cases (statsColumns schema).find? fun c => c.1 == columnIdx with
    | none => rfl
    | some column => rw [Option.map_some, Option.map_some, Option.map_some, hslice]
  · rfl

end Columns

end Htap.Read
