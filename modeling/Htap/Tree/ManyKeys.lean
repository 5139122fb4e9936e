import Htap.Read.SingleRows
import Htap.Tree.Reading
import Htap.Tree.WholeSteps

/-!
A table with more rows than the counters of the formats count. The keys are inserted in order,
the last insertion freezes the memtable, and the flush writes every row as a block of its own.
-/

namespace Htap.Tree.Session

open Storage SSTable Read Cursor Words

/-- The keys below `count`. -/
def numberedKeys (count : Nat) : List Row :=
  (List.range count).map fun i => keyOnlyRow (Int64.ofNat i)

@[simp] theorem length_numberedKeys (count : Nat) : (numberedKeys count).length = count := by
  simp [numberedKeys]

private theorem numberedKeys_succ (count : Nat) :
    numberedKeys (count + 1) = numberedKeys count ++ [keyOnlyRow (Int64.ofNat count)] := by
  simp [numberedKeys, List.range_succ]

theorem strictRows_numberedKeys {count : Nat} (h : count ≤ 2 ^ 40) :
    StrictRows (numberedKeys count) := strictRows_numbered (fun _ => rfl) (by omega)

theorem valid_numberedKeys (count : Nat) :
    ∀ row ∈ numberedKeys count, ValidRow keyOnlySchema row := by
  intro row hrow
  obtain ⟨i, -, rfl⟩ := List.mem_map.mp hrow
  exact validRow_of_validateRow keyOnlySchema_wellFormed rfl

/-! ## Insertions -/

def manyConfig (count : Nat) : StorageConfig :=
  { rootPath := [47, 100], memtableThreshold := count, rowBlockTargetBytes := 1 }

/-- The first `n` of the keys are in the table. -/
def insertNumbered (count : Nat) : Nat → Session
  | 0 => keyTable (manyConfig count)
  | n + 1 => (insertNumbered count n).insertKey (Int64.ofNat n)

theorem starts_manyKeys (count : Nat) : Starts (keyTable (manyConfig count)) := starts_keyTable rfl

theorem frame_insertNumbered (count n : Nat) :
    (insertNumbered count n).tree.schema = keyOnlySchema ∧ (insertNumbered count n).jobs = [] ∧
      (insertNumbered count n).inserted = numberedKeys n := by
  induction n with
  | zero => exact ⟨rfl, rfl, rfl⟩
  | succ n ih =>
    obtain ⟨hschema, hjobs, hinserted⟩ := ih
    refine ⟨hschema, hjobs, ?_⟩
    rw [numberedKeys_succ, ← hinserted]
    rfl

theorem steps_insertNumbered (count n : Nat) :
    Steps (keyTable (manyConfig count)) (insertNumbered count n) := by
  induction n with
  | zero => exact .refl
  | succ n ih =>
    obtain ⟨hschema, -, -⟩ := frame_insertNumbered count n
    refine ih.tail ⟨step_insertKey hschema _, ?_⟩
    rw [Alone, (frame_insertNumbered count (n + 1)).2.1]
    exact Nat.zero_le 1

/-- A row behind all others is put at the end. -/
private theorem rows_insert_last {m : MemTable} {row : Row}
    (h : ∀ r ∈ m.rows, rowKey r < rowKey row) : (m.insert row).rows = m.rows ++ [row] := by
  have hall : (m.rows.filter fun r => rowKey r ≠ rowKey row) = m.rows := by
    apply List.filter_eq_self.mpr
    intro r hr
    simpa using (h r hr).ne
  have hperm := m.rows_insert_perm row
  rw [hall] at hperm
  have hsorted : (m.rows ++ [row]).Pairwise fun a b => rowKey a < rowKey b := by
    apply List.pairwise_append.mpr
    refine ⟨m.sorted_rows, List.pairwise_singleton _ _, ?_⟩
    intro r hr last hlast
    rw [List.mem_singleton.mp hlast]
    exact h r hr
  have hlast : (row :: m.rows).Perm (m.rows ++ [row]) :=
    (List.perm_append_singleton row m.rows).symm
  refine (hperm.trans hlast).eq_of_pairwise ?_ (m.insert row).sorted_rows hsorted
  intro a b _ _ hab hba
  exact absurd hba hab.asymm

private theorem rows_insert_numbered {m : MemTable} {n : Nat} (hrows : m.rows = numberedKeys n)
    (hn : n < 2 ^ 63) : (m.insert (keyOnlyRow (Int64.ofNat n))).rows = numberedKeys (n + 1) := by
  rw [numberedKeys_succ, ← hrows]
  apply rows_insert_last
  intro r hr
  rw [hrows] at hr
  obtain ⟨i, hi, rfl⟩ := List.mem_map.mp hr
  exact ofNat_lt_ofNat (List.mem_range.mp hi) hn

/-- The table with its memory as it is given. -/
def withMemory (count : Nat) (layer : MemoryLayer) : LSMTree :=
  { (keyTable (manyConfig count)).tree with memoryLayer := layer }

private theorem size_eq (m : MemTable) : m.size = m.rows.length := by
  rw [MemTable.size, SortedMap.size, MemTable.rows, List.length_map]

private theorem tree_insertNumbered {count n : Nat} (hn : n < count) (hcount : count ≤ 2 ^ 40) :
    ∃ m : MemTable, m.rows = numberedKeys n ∧
      (insertNumbered count n).tree = withMemory count { threshold := count, active := m } := by
  induction n with
  | zero => exact ⟨MemTable.empty, rfl, rfl⟩
  | succ n ih =>
    obtain ⟨m, hrows, htree⟩ := ih (by omega)
    have hnext := rows_insert_numbered hrows (by omega)
    refine ⟨_, hnext, ?_⟩
    have hroom : (m.insert (keyOnlyRow (Int64.ofNat n))).size < count := by
      rw [size_eq, hnext, length_numberedKeys]
      exact hn
    rw [insertNumbered, insertKey]
    dsimp only
    rw [htree, LSMTree.insertRow, withMemory]
    dsimp only
    rw [MemoryLayer.insert, if_pos hroom]
    rfl

/-- The last insertion freezes the memtable. -/
theorem tree_manyKeys {count : Nat} (hpos : 0 < count) (hcount : count ≤ 2 ^ 40) :
    ∃ imm : ImmutableMemTable, imm.data = numberedKeys count ∧
      (insertNumbered count count).tree =
        withMemory count { threshold := count, generation := 1, immutables := [imm] } := by
  obtain ⟨n, rfl⟩ : ∃ n, count = n + 1 := ⟨count - 1, by omega⟩
  obtain ⟨m, hrows, htree⟩ := tree_insertNumbered (Nat.lt_succ_self n) hcount
  have hnext := rows_insert_numbered hrows (by omega)
  have hfull : ¬(m.insert (keyOnlyRow (Int64.ofNat n))).size < n + 1 := by
    rw [size_eq, hnext, length_numberedKeys]
    exact lt_irrefl _
  refine ⟨(m.insert (keyOnlyRow (Int64.ofNat n))).toSortedImmutable 0, hnext, ?_⟩
  rw [insertNumbered, insertKey]
  dsimp only
  rw [htree, LSMTree.insertRow, withMemory]
  dsimp only
  rw [MemoryLayer.insert, if_neg hfull]
  rfl

private theorem invariant_insertNumbered (count n : Nat) :
    Invariant (fun _ => none) (insertNumbered count n).tree := by
  induction n with
  | zero => exact (sound_of_starts (starts_manyKeys count) (bounded_keyTable _)).invariant
  | succ n ih =>
    apply ih.insertRow
    · rw [(frame_insertNumbered count n).1]
      exact validRow_of_validateRow keyOnlySchema_wellFormed rfl
    · exact storable_keyOnlyRow _

/-- Before the flush, a full scan finds all keys. -/
theorem scan_insertNumbered {count : Nat} (hpos : 0 < count) (hcount : count ≤ 2 ^ 40) :
    ScanYields (insertNumbered count count).tree none none .unordered
      ((numberedKeys count).map (viewAll keyOnlySchema)) := by
  obtain ⟨imm, hdata, htree⟩ := tree_manyKeys hpos hcount
  have hyields := (invariant_insertNumbered count count).scanYields_full
    (by rw [htree]; exact Nat.zero_le _) .unordered
  have hrows : rowsOf (fun _ => none) (insertNumbered count count).tree = numberedKeys count := by
    rw [htree, ← hdata]
    exact (List.append_nil _).trans (List.append_nil _)
  rwa [arrange, hrows, (frame_insertNumbered count count).1] at hyields

/-! ## The flush -/

/-- Every row in a block of its own. -/
def manyTable (count : Nat) : Table := ⟨.row, (numberedKeys count).map fun row => [row]⟩

/-- What the flush registers. -/
def manyInfo (count : Nat) : SSTableInfo :=
  tableInfo (withMemory count { threshold := count }) 0 0 (manyTable count)

/-- The table once the memtable is flushed. -/
def manyFlushed (count : Nat) : LSMTree :=
  manifested { writtenTable (withMemory count { threshold := count, generation := 1 }) 0
      (manyTable count) with
    registry := ({} : SSTableRegistry).add (manyInfo count)
    nextSstId := 1 }

theorem registry_manyFlushed (count : Nat) :
    (manyFlushed count).registry = ⟨[[manyInfo count]]⟩ := rfl

private theorem memory_manyFlushed (count : Nat) :
    (manyFlushed count).memoryLayer = { threshold := count, generation := 1 } := rfl

private theorem build_numberedKeys {count : Nat} (hpos : 0 < count) (hcount : count ≤ 2 ^ 40) :
    buildRowSSTable keyOnlySchema (sparseIndexOptions (manyConfig count)) 1 (numberedKeys count) =
      .ok (buildResult (manyTable count).blocks,
        (manyTable count).files keyOnlySchema (sparseIndexOptions (manyConfig count))) := by
  have hne : numberedKeys count ≠ [] := List.ne_nil_of_length_pos (by rwa [length_numberedKeys])
  have hshort : ∀ row ∈ numberedKeys count, (rowBytes row).length ≤ 2 ^ 16 := by
    intro row hrow
    obtain ⟨i, -, rfl⟩ := List.mem_map.mp hrow
    simp [rowBytes, keyOnlyRow, Bitmap.byteCount, Bitmap.mark]
  have hlength : (numberedKeys count).length ≤ 2 ^ 40 := by rwa [length_numberedKeys]
  exact buildRowSSTable_singletons ⟨Nat.one_pos, (by decide : 1 ≤ 4096)⟩ hne
    (valid_numberedKeys count) (strictRows_numberedKeys hcount).sorted (by decide) hshort hlength

theorem flushOne_manyKeys {count : Nat} (hpos : 0 < count) (hcount : count ≤ 2 ^ 40) :
    (insertNumbered count count).tree.flushOne = .ok (true, manyFlushed count) := by
  obtain ⟨imm, hdata, htree⟩ := tree_manyKeys hpos hcount
  let layer : MemoryLayer := { threshold := count, generation := 1, immutables := [imm] }
  let begun : LSMTree := { withMemory count layer with nextSstId := 1 }
  have hsize : imm.size ≠ 0 := by
    rw [ImmutableMemTable.size, hdata, length_numberedKeys]
    omega
  have hbegin : (withMemory count layer).beginFlush = (.writing ⟨imm, 0⟩, begun) := if_neg hsize
  have hbuild : buildRowSSTable begun.schema (sparseIndexOptions begun.config)
      begun.config.rowBlockTargetBytes imm.data = _ := hdata ▸ build_numberedKeys hpos hcount
  have hwrite : begun.writeFlush ⟨imm, 0⟩ =
      .ok (manyInfo count, writtenTable begun 0 (manyTable count)) := by
    rw [LSMTree.writeFlush, hbuild]
    rfl
  have hend : (writtenTable begun 0 (manyTable count)).endFlush (manyInfo count) =
      .ok (manyFlushed count) := by
    apply saveManifest_ok
    have hone : (({} : SSTableRegistry).add (manyInfo count)).entries.length = 1 :=
      congrArg (fun r => r.entries.length) (registry_manyFlushed count)
    exact hone.trans_lt (by decide)
  rw [htree, LSMTree.flushOne, hbegin]
  dsimp only
  rw [hwrite, Result.ok_bind]
  dsimp only
  rw [hend]
  rfl

theorem exists_manyFlushed {count : Nat} (hpos : 0 < count) (hcount : count ≤ 2 ^ 40) :
    ∃ s, Steps (keyTable (manyConfig count)) s ∧ s.inserted = numberedKeys count ∧
      s.tree = manyFlushed count := by
  obtain ⟨-, hidle, hinserted⟩ := frame_insertNumbered count count
  obtain ⟨issued, hsteps⟩ := flushOne_steps hidle (flushOne_manyKeys hpos hcount)
  have hall := (steps_insertNumbered count count).trans (steps_of_jobSteps hsteps)
  exact ⟨_, hall, hinserted, rfl⟩

/-! ## Reading it -/

theorem files_manyFlushed (count : Nat) :
    (manyFlushed count).disk.sstables (manyInfo count).path =
      some ((manyTable count).files keyOnlySchema (sparseIndexOptions (manyConfig count))) := by
  have hsaved : ∀ (disk : Disk) (contents path : Bytes),
      (replay disk [.writeManifest contents]).sstables path = disk.sstables path :=
    fun _ _ _ => rfl
  rw [manyFlushed, manifested, Invariant.disk_perform, hsaved]
  exact sstables_writtenTable (withMemory count { threshold := count, generation := 1 }) 0 _

/-- Where at most one block is counted, every block has an index entry. -/
private theorem create_manyFlushed {count : Nat} (hfew : u32 count ≤ 1) :
    ∃ cache, SSTableMetadataCache.create (manyFlushed count).disk (manyInfo count) 1 = .ok cache ∧
      cache.sparseIndex = indexCandidates (manyTable count).blocks := by
  have hread := readSparseIndex_eq (Table.index_eq keyOnlySchema
    (sparseIndexOptions (manyConfig count)) (manyTable count))
    fun entry hentry => indexCandidates_blockId_lt hentry
  have hblocks : (manyTable count).blocks.length = count := by simp [manyTable]
  have hstep : chooseSparseIndexStep (u32 count) (sparseIndexOptions (manyConfig count)) = 1 := by
    have hcases : u32 count = 0 ∨ u32 count = 1 := by omega
    have hoptions : sparseIndexOptions (manyConfig count) = {} := rfl
    rw [hoptions]
    rcases hcases with h | h <;> rw [h] <;> decide
  have hall : sparseIndexEntries (u32 count) (sparseIndexOptions (manyConfig count))
      (indexCandidates (manyTable count).blocks) = indexCandidates (manyTable count).blocks := by
    apply List.filter_eq_self.mpr
    intro entry _
    rw [hstep, Nat.mod_one]
    rfl
  rw [hblocks, hall] at hread
  rw [SSTableMetadataCache.create, SSTableMetadataCache.createWith, sstableFiles,
    files_manyFlushed, Result.ok_bind, hread]
  exact ⟨_, rfl, rfl⟩

private theorem nothing_in_memory (count : Nat) (range : KeyRange) :
    (manyFlushed count).scanActive range ++
      (manyFlushed count).memoryLayer.immutables.flatMap (LSMTree.scanImmutable range) = [] := by
  have hnothing : MemTable.empty.data.start range.fromKey =
      MemTable.empty.data.stop range.toKey := by
    cases range.fromKey <;> cases range.toKey <;>
      simp [SortedMap.start, SortedMap.stop, SortedMap.lowerBound, SortedMap.begin,
        MemTable.empty, SortedMap.empty]
  rw [LSMTree.scanActive, memory_manyFlushed]
  dsimp only
  rw [if_neg (not_not.mpr hnothing)]
  rfl

section Scan

variable {count : Nat} {range : KeyRange} {projection : List Nat} {order : ScanOrder}

/-- A scan to which the one SSTable has no blocks. -/
private theorem scan_of_none {tree : LSMTree}
    (hmeets : (manyFlushed count).scannedSSTables range = [manyInfo count])
    (h : (manyFlushed count).openSSTable range projection {} (manyInfo count) =
      .ok (none, tree)) :
    (manyFlushed count).scan range projection order {} = .ok (.empty {}, tree) := by
  rw [LSMTree.scan, hmeets, nothing_in_memory, List.foldlM_cons, LSMTree.scanSSTable, h]
  rfl

/-- What the sparse index says to opening the SSTable. -/
private theorem openSSTable_eq {cache : SSTableMetadataCache}
    (hcreate : SSTableMetadataCache.create (manyFlushed count).disk (manyInfo count) 1 =
      .ok cache) :
    (∀ x, selectMetadataRange cache.sparseIndex range (manyInfo count).numBlocks = .error x →
      (manyFlushed count).openSSTable range projection {} (manyInfo count) = .error x) ∧
    (∀ first, selectMetadataRange cache.sparseIndex range (manyInfo count).numBlocks =
        .ok ⟨first, 0⟩ →
      ∃ tree, (manyFlushed count).openSSTable range projection {} (manyInfo count) =
        .ok (none, tree)) := by
  have hcache : (manyFlushed count).getOrCreateMetadataCache (manyInfo count) = .ok cache := hcreate
  have hopen : ∃ reader, SSTableReader.open (manyFlushed count).disk (manyInfo count).path
      (manyInfo count).id = .ok reader := by
    rw [SSTableReader.open, files_manyFlushed]
    exact ⟨_, rfl⟩
  obtain ⟨reader, hopen⟩ := hopen
  rw [LSMTree.openSSTable, hcache, Result.ok_bind]
  unfold makeSSTableCursor
  simp only [hopen, Result.ok_bind]
  constructor
  · intro x hselect
    rw [hselect]
    rfl
  · intro first hselect
    rw [hselect]
    exact ⟨_, rfl⟩

end Scan

theorem numBlocks_manyInfo (count : Nat) : (manyInfo count).numBlocks = u32 count := by
  simp [manyInfo, tableInfo, builtInfo, buildResult, manyTable]

/-- No block is counted: a full scan finds nothing. -/
theorem scan_manyFlushed_nothing {count : Nat} (hwrap : u32 count = 0) (order : ScanOrder) :
    ScanYields (manyFlushed count) none none order [] := by
  obtain ⟨cache, hcreate, -⟩ := create_manyFlushed (hwrap.trans_le (Nat.zero_le 1))
  have hmeets : (manyFlushed count).scannedSSTables KeyRange.full = [manyInfo count] := rfl
  have hselect : selectMetadataRange cache.sparseIndex KeyRange.full (manyInfo count).numBlocks =
      .ok ⟨0, 0⟩ := if_pos ((numBlocks_manyInfo count).trans hwrap)
  obtain ⟨tree, hopen⟩ := (@openSSTable_eq count KeyRange.full
    (List.range (manyFlushed count).schema.size) _ hcreate).2 0 hselect
  refine ⟨.empty {}, tree, ?_, .done rfl⟩
  rw [LSMStorageEngine.scan, validateProjection_range, Result.ok_bind]
  exact scan_of_none hmeets hopen

end Htap.Tree.Session
