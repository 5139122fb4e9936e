import Htap.SSTable.ColumnBuilder

/-!
The shape of the files of any successful build, whatever rows it was given:
whole metadata records for every block that was flushed, a whole number of
index entries, and a stats file of as many blocks.
-/

namespace Htap.SSTable

open Storage ByteFormat Words

/-- `recordBytes` of metadata for each of the blocks the stats file is about. -/
def Shaped (schema : Schema) (recordBytes : Nat) (result : SSTableBuildResult)
    (files : SSTableFiles) : Prop :=
  ∃ blocks : List (List NumericBlockStats), result.numBlocks = u32 blocks.length ∧
    files.metadata.length = blocks.length * recordBytes ∧
    statsFile schema blocks = .ok files.stats ∧ files.stats.length ≤ maxFileSize ∧
    ∃ count, files.index.length = count * sparseIndexEntryOnDiskSize

private theorem length_sparseIndexFile (numBlocks : Nat) (options : SparseIndexOptions)
    (candidates : List SparseIndexEntry) :
    ∃ count, (sparseIndexFile numBlocks options candidates).length =
      count * sparseIndexEntryOnDiskSize :=
  ⟨_, length_records _ fun entry _ => entry.length_encode⟩

/-! ## Row SSTables -/

namespace RowSSTableBuilder

/-- So far one metadata record a flushed block. -/
structure Counts (schema : Schema) (b : RowSSTableBuilder) : Prop where
  sameSchema : b.schema = schema
  metadata : b.metadata.length = b.blockNumericStats.length * rowBlockMetaOnDiskSize
  blockId : b.blockId = u32 b.blockNumericStats.length

variable {schema : Schema} {b b' : RowSSTableBuilder}

theorem Counts.flushBlock (hb : b.Counts schema) (h : b.flushBlock = .ok b') :
    b'.Counts schema := by
  unfold RowSSTableBuilder.flushBlock at h
  obtain ⟨⟨block, blockBuilder⟩, -, h⟩ := Result.bind_eq_ok.mp h
  obtain ⟨data, -, h⟩ := Result.bind_eq_ok.mp h
  obtain ⟨metadata, hmetadata, h⟩ := Result.bind_eq_ok.mp h
  cases h
  refine ⟨hb.sameSchema, ?_, ?_⟩
  · rw [(length_of_writeBytes hmetadata).1, List.length_append, hb.metadata,
      RowBlockMeta.length_encode, List.length_append, List.length_singleton, Nat.succ_mul]
  · change u32 (b.blockId + 1) = _
    rw [hb.blockId, u32_add_one, List.length_append, List.length_singleton]

theorem Counts.flushIf {c : Prop} [Decidable c] (hb : b.Counts schema)
    (h : (if c then b.flushBlock else .ok b) = .ok b') : b'.Counts schema := by
  split at h
  · exact hb.flushBlock h
  · cases h
    exact hb

theorem Counts.add (row : Row) (hb : b.Counts schema) (h : b.add row = .ok b') :
    b'.Counts schema := by
  unfold RowSSTableBuilder.add at h
  split at h
  · cases h
  · obtain ⟨flushed, hflushed, h⟩ := Result.bind_eq_ok.mp h
    have hcounts := hb.flushIf hflushed
    dsimp only at h
    split at h
    · cases h
    · obtain ⟨blockBuilder, -, h⟩ := Result.bind_eq_ok.mp h
      cases h
      exact ⟨hcounts.sameSchema, hcounts.metadata, hcounts.blockId⟩

theorem counts_create {options : SparseIndexOptions} {target : Nat}
    (h : create schema options target = .ok b) : b.Counts schema := by
  unfold RowSSTableBuilder.create at h
  obtain ⟨blockBuilder, -, h⟩ := Result.bind_eq_ok.mp h
  split at h
  · cases h
  · split at h
    · cases h
    · cases h
      exact ⟨rfl, rfl, rfl⟩

private theorem Counts.finish {result : SSTableBuildResult} (hb : b.Counts schema)
    (h : b.finish = .ok (result, b')) :
    Shaped schema rowBlockMetaOnDiskSize result b'.files := by
  unfold RowSSTableBuilder.finish at h
  split at h
  · cases h
  · split at h
    · cases h
    · obtain ⟨flushed, hflushed, h⟩ := Result.bind_eq_ok.mp h
      have hcounts := hb.flushIf hflushed
      obtain ⟨info, -, h⟩ := Result.bind_eq_ok.mp h
      obtain ⟨index, hindex, h⟩ := Result.bind_eq_ok.mp h
      obtain ⟨statsBytes, hstatsBytes, h⟩ := Result.bind_eq_ok.mp h
      obtain ⟨stats, hstats, h⟩ := Result.bind_eq_ok.mp h
      cases h
      obtain ⟨hwritten, hfits⟩ := length_of_writeBytes hstats
      obtain ⟨hindexWritten, -⟩ := length_of_writeBytes hindex
      subst hwritten hindexWritten
      exact ⟨flushed.blockNumericStats, hcounts.blockId, hcounts.metadata,
        hcounts.sameSchema ▸ hstatsBytes, hfits, length_sparseIndexFile _ _ _⟩

end RowSSTableBuilder

theorem shaped_of_buildRowSSTable {schema : Schema} {options : SparseIndexOptions} {target : Nat}
    {rows : List Row} {result : SSTableBuildResult} {files : SSTableFiles}
    (h : buildRowSSTable schema options target rows = .ok (result, files)) :
    Shaped schema rowBlockMetaOnDiskSize result files := by
  unfold buildRowSSTable at h
  obtain ⟨b, hcreate, h⟩ := Result.bind_eq_ok.mp h
  obtain ⟨filled, hfilled, h⟩ := Result.bind_eq_ok.mp h
  obtain ⟨⟨built, last⟩, hfinish, h⟩ := Result.bind_eq_ok.mp h
  cases h
  have hcounts := Result.foldlM_invariant (fun b : RowSSTableBuilder => b.Counts schema)
    (fun b row b' hb h => hb.add row h) rows (RowSSTableBuilder.counts_create hcreate) hfilled
  exact hcounts.finish hfinish

/-! ## Column SSTables -/

namespace ColumnSSTableBuilder

private theorem length_writeBlock {out out' : ColumnOutput} {bytes : Bytes} {size : Nat}
    {blockMeta : ColumnBlockMeta} (h : out.writeBlock bytes size blockMeta = .ok out') :
    out'.metadata.length = out.metadata.length + columnBlockMetaOnDiskSize := by
  unfold ColumnOutput.writeBlock at h
  obtain ⟨data, -, h⟩ := Result.bind_eq_ok.mp h
  obtain ⟨metadata, hmetadata, h⟩ := Result.bind_eq_ok.mp h
  cases h
  rw [(length_of_writeBytes hmetadata).1, List.length_append, ColumnBlockMeta.length_encode]

private theorem length_flushColumns {blockId : Nat}
    {builders builders' : List ColumnSSTBlockBuilder}
    {columnIdx : Nat} {out out' : ColumnOutput} {stats : List NumericBlockStats}
    (h : flushColumns blockId columnIdx out builders = .ok (builders', out', stats)) :
    builders'.length = builders.length ∧ out'.metadata.length =
      out.metadata.length + builders.length * columnBlockMetaOnDiskSize := by
  induction builders generalizing columnIdx out builders' out' stats with
  | nil =>
    cases h
    simp
  | cons builder builders ih =>
    rw [flushColumns] at h
    obtain ⟨⟨block, builder'⟩, -, h⟩ := Result.bind_eq_ok.mp h
    obtain ⟨written, hwritten, h⟩ := Result.bind_eq_ok.mp h
    obtain ⟨⟨rest, last, restStats⟩, hlast, h⟩ := Result.bind_eq_ok.mp h
    cases h
    obtain ⟨hbuilders, hmetadata⟩ := ih hlast
    refine ⟨by rw [List.length_cons, List.length_cons, hbuilders], ?_⟩
    rw [hmetadata, length_writeBlock hwritten, List.length_cons, Nat.succ_mul]
    omega

/-- So far one metadata record a column for each flushed block. -/
structure Counts (schema : Schema) (b : ColumnSSTableBuilder) : Prop where
  sameSchema : b.schema = schema
  builders : b.colBuilders.length + 1 = schema.size
  metadata : b.out.metadata.length =
    b.blockNumericStats.length * (schema.size * columnBlockMetaOnDiskSize)
  blockId : b.blockId = u32 b.blockNumericStats.length

variable {schema : Schema} {b b' : ColumnSSTableBuilder}

theorem Counts.flushBlock (hb : b.Counts schema) (h : b.flushBlock = .ok b') :
    b'.Counts schema := by
  unfold ColumnSSTableBuilder.flushBlock at h
  split at h
  · cases h
    exact hb
  · obtain ⟨out, hout, h⟩ := Result.bind_eq_ok.mp h
    obtain ⟨⟨colBuilders, out', stats⟩, hcolumns, h⟩ := Result.bind_eq_ok.mp h
    cases h
    obtain ⟨hbuilders, hmetadata⟩ := length_flushColumns hcolumns
    refine ⟨hb.sameSchema, ?_, ?_, ?_⟩
    · rw [hbuilders]
      exact hb.builders
    · rw [hmetadata, length_writeBlock hout, hb.metadata, List.length_append,
        List.length_singleton, Nat.succ_mul, ← hb.builders, Nat.succ_mul]
      omega
    · change u32 (b.blockId + 1) = _
      rw [hb.blockId, u32_add_one, List.length_append, List.length_singleton]

theorem Counts.add (row : Row) (hb : b.Counts schema) (h : b.add row = .ok b') :
    b'.Counts schema := by
  unfold ColumnSSTableBuilder.add at h
  split at h
  · cases h
  · dsimp only at h
    split at h
    · cases h
    · obtain ⟨flushed, hflushed, h⟩ := Result.bind_eq_ok.mp h
      obtain ⟨colBuilders, hbuilders, h⟩ := Result.bind_eq_ok.mp h
      have hcounts : flushed.Counts schema := by
        split at hflushed
        · exact hb.flushBlock hflushed
        · cases hflushed
          exact hb
      cases h
      refine ⟨hcounts.sameSchema, ?_, hcounts.metadata, hcounts.blockId⟩
      rw [← (Result.mapM_eq_ok.mp hbuilders).length_eq]
      exact hcounts.builders

private theorem Counts.finish {result : SSTableBuildResult} (hb : b.Counts schema)
    (h : b.finish = .ok (result, b')) :
    Shaped schema (schema.size * columnBlockMetaOnDiskSize) result b'.files := by
  unfold ColumnSSTableBuilder.finish at h
  split at h
  · cases h
  · split at h
    · cases h
    · obtain ⟨flushed, hflushed, h⟩ := Result.bind_eq_ok.mp h
      have hcounts := hb.flushBlock hflushed
      obtain ⟨info, -, h⟩ := Result.bind_eq_ok.mp h
      obtain ⟨index, hindex, h⟩ := Result.bind_eq_ok.mp h
      obtain ⟨statsBytes, hstatsBytes, h⟩ := Result.bind_eq_ok.mp h
      obtain ⟨stats, hstats, h⟩ := Result.bind_eq_ok.mp h
      cases h
      obtain ⟨hwritten, hfits⟩ := length_of_writeBytes hstats
      obtain ⟨hindexWritten, -⟩ := length_of_writeBytes hindex
      subst hwritten hindexWritten
      exact ⟨flushed.blockNumericStats, hcounts.blockId, hcounts.metadata,
        hcounts.sameSchema ▸ hstatsBytes, hfits, length_sparseIndexFile _ _ _⟩

theorem counts_create {options : SparseIndexOptions} {targetRows targetBytes : Nat}
    (h : create schema options targetRows targetBytes = .ok b) : b.Counts schema := by
  unfold ColumnSSTableBuilder.create at h
  split at h
  · cases h
  rename_i hsize
  split at h
  · cases h
  split at h
  · cases h
  split at h
  · cases h
  split at h
  · cases h
  obtain ⟨colBuilders, hbuilders, h⟩ := Result.bind_eq_ok.mp h
  cases h
  refine ⟨rfl, ?_, by simp, rfl⟩
  rw [← (Result.mapM_eq_ok.mp hbuilders).length_eq, List.length_tail, List.length_zipIdx]
  exact Nat.succ_pred_eq_of_ne_zero hsize

end ColumnSSTableBuilder

theorem shaped_of_buildColumnSSTable {schema : Schema} {options : SparseIndexOptions}
    {targetRows targetBytes : Nat} {rows : List Row} {result : SSTableBuildResult}
    {files : SSTableFiles}
    (h : buildColumnSSTable schema options targetRows targetBytes rows = .ok (result, files)) :
    Shaped schema (schema.size * columnBlockMetaOnDiskSize) result files := by
  unfold buildColumnSSTable at h
  obtain ⟨b, hcreate, h⟩ := Result.bind_eq_ok.mp h
  obtain ⟨filled, hfilled, h⟩ := Result.bind_eq_ok.mp h
  obtain ⟨⟨built, last⟩, hfinish, h⟩ := Result.bind_eq_ok.mp h
  cases h
  have hcounts := Result.foldlM_invariant (fun b : ColumnSSTableBuilder => b.Counts schema)
    (fun b row b' hb h => hb.add row h) rows (ColumnSSTableBuilder.counts_create hcreate) hfilled
  exact hcounts.finish hfinish

end Htap.SSTable
