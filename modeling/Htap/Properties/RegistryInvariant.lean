import Htap.Properties.DirectoryContents
import Htap.Tree.ManyKeys

/-!
The registry of a table and the caches that are kept by the ids of SSTables. An id stands for one
SSTable, so what a cache holds under it comes from the files of that SSTable.
-/

namespace Htap.Properties

open Storage SSTable Read Cursor Words Executor Htap.Tree Htap.Tree.Session

variable {start s : Session}

/-- A block that is read through the block cache is the block in the data file. -/
def ReadsOwnBlock (s : Session) (reader : SSTableReader) (key : CacheKey) (offset size : Nat) :
    Prop :=
  ∃ bytes blockCache, readBytes reader.data offset size = .ok bytes ∧
    reader.readBlock s.tree.blockCache key offset size = .ok (bytes, blockCache)

/-- What both caches answer under the id of an SSTable is what its files say: the sparse index,
the pages of metadata and statistics, and the blocks that the metadata names. -/
structure CachesAgree (s : Session) (info : SSTableInfo) (files : SSTableFiles) : Prop where
  metadata : ∃ cache, s.tree.getOrCreateMetadataCache info = .ok cache ∧ cache.info = info ∧
    readSparseIndex files = .ok cache.sparseIndex ∧
    ∀ key page cache', cache.getPage s.tree.disk key = .ok (page, cache') →
      cache.loadPage s.tree.disk key = .ok page
  rowBlocks : info.layout = SSTLayout.row.code → ∀ first count metas,
    first + count ≤ info.numBlocks → readRowMetadataRange files first count = .ok metas →
    ∀ m ∈ metas, ReadsOwnBlock s ⟨files.data, info.id⟩
      (SSTableReader.rowKey ⟨files.data, info.id⟩ m) m.offset m.size
  columnBlocks : info.layout = SSTLayout.column.code → ∀ first count metas,
    first + count ≤ info.numBlocks →
    readColumnMetadataRange files first count s.tree.schema.size = .ok metas →
    ∀ m ∈ metas, ReadsOwnBlock s ⟨files.data, info.id⟩
      (SSTableReader.columnKey ⟨files.data, info.id⟩ m) m.offset m.size

/-- Ids are given out once, and every entry of the registry is where its level says and tells
what is in the files of its SSTable, as do the caches. -/
structure RegistryKept (s : Session) : Prop where
  distinct : (s.tree.registry.entries.map SSTableInfo.id).Nodup
  below : ∀ info ∈ s.tree.registry.entries, info.id < s.tree.nextSstId
  issuedOnce : s.issued.Nodup
  issuedBelow : ∀ id ∈ s.issued, id < s.tree.nextSstId
  filed : s.tree.registry.Filed
  described : ∀ info ∈ s.tree.registry.entries, ∃ t, DescribesFiles s info t ∧
    CachesAgree s info (t.files s.tree.schema (sparseIndexOptions s.tree.config))

private theorem readsOwnBlock {contents : CacheKey → Option Bytes}
    (hblocks : CacheCoherent contents s.tree.blockCache) {reader : SSTableReader} {key : CacheKey}
    {offset size : Nat} {bytes : Bytes}
    (hread : ∀ {cache}, CacheCoherent contents cache → ∃ cache',
      reader.readBlock cache key offset size = .ok (bytes, cache') ∧
        CacheCoherent contents cache') : ReadsOwnBlock s reader key offset size := by
  have hnocache : CacheCoherent contents none := by
    intro cache hcache
    cases hcache
  obtain ⟨_, hfile, -⟩ := hread hnocache
  obtain ⟨blockCache, hcached, -⟩ := hread hblocks
  obtain ⟨found, hfound, hfile⟩ := Result.bind_eq_ok.mp hfile
  cases hfile
  exact ⟨bytes, blockCache, hfound, hcached⟩

private theorem cachesAgree {built : Nat → Option Table} (h : Sound built s) {info : SSTableInfo}
    (hinfo : info ∈ s.tree.registry.entries) {t : Table} (hbuilt : built info.id = some t)
    (hstored : Stored s.tree.schema (sparseIndexOptions s.tree.config) s.tree.disk info t) :
    CachesAgree s info (t.files s.tree.schema (sparseIndexOptions s.tree.config)) := by
  have hwf := hstored.wellFormed
  have hcontents := contentsOf_eq (h.invariant.issued info hinfo) hbuilt
  have hcount := hstored.describes.numBlocks_eq hwf
  have hlayout : ∀ {layout : SSTLayout}, info.layout = layout.code → t.layout = layout :=
    fun hcode => SSTLayout.code_injective (hstored.describes.layout.symm.trans hcode)
  constructor
  · obtain ⟨cache, t', hget, hbuilt', hserves⟩ := h.invariant.getOrCreateMetadataCache hinfo
    rw [hbuilt] at hbuilt'
    cases hbuilt'
    exact ⟨cache, hget, hserves.info, hserves.index,
      fun key page cache' hpage => hserves.coherent.loadPage_of_getPage hpage⟩
  · intro hcode first count metas hle hread m hm
    rw [hcount] at hle
    obtain ⟨rows, hentry⟩ := hwf.mem_rowMetas (hlayout hcode) hle hread hm
    apply readsOwnBlock h.invariant.blocks
    exact SSTableRowCursor.read_rowBlock hwf (hlayout hcode) rfl hcontents hentry
  · intro hcode first count metas hle hread m hm
    rw [hcount] at hle
    have hmem := hwf.mem_columnMetas (hlayout hcode) hle hread hm
    obtain ⟨group, hgroup, hm⟩ := List.mem_flatten.mp hmem
    obtain ⟨earlier, rows, later, hblocks, rfl⟩ := Splitting.exists_of_mem_mapPrefix hgroup
    obtain ⟨i, hi, rfl⟩ := List.mem_map.mp hm
    apply readsOwnBlock h.invariant.blocks
    exact SSTableColumnCursor.read_physical hwf (hlayout hcode) rfl hcontents hblocks
      (List.mem_range.mp hi)

/-- In every state of every life, with one job at a time, restarts and reads that fill the caches
included. `Life` keeps the counters of the formats: with more blocks than 32 bits count, an entry
tells a wrong number of blocks. -/
theorem registry_is_kept (hstart : Starts start) (hlife : Life start s) : RegistryKept s := by
  have haccounted := accounted_of_life hstart hlife
  obtain ⟨built, h⟩ := hlife.sound hstart
  constructor
  · exact h.invariant.distinct
  · exact h.invariant.issued
  · exact haccounted.issuedOnce
  · exact haccounted.below.1
  · exact h.invariant.filed
  · intro info hinfo
    obtain ⟨t, hbuilt, hstored⟩ := h.invariant.stored info hinfo
    exact ⟨t, describesFiles hstored, cachesAgree h hinfo hbuilt hstored⟩

/-- What the two caches hold once two SSTables were scanned. -/
private def scannedTwo : Result (Nat × Option Nat) := do
  let flushed ← flushTwo (insertTwo 1 2).tree
  let scanned ← LSMStorageEngine.scan flushed none none [0] .unordered {}
  return (scanned.2.metadataCaches.length, scanned.2.blockCache.map fun cache =>
    cache.blocks.entries.length)

/-- Two SSTables, with their metadata and one block of each in the caches. -/
theorem registry_is_kept_scanned : ∃ s, Life (keyTable eagerConfig) s ∧
    s.tree.metadataCaches.length = 2 ∧
    (s.tree.blockCache.map fun cache => cache.blocks.entries.length) = some 2 ∧
    RegistryKept s := by
  have hscanned : scannedTwo = .ok (2, some 2) := by decide +kernel
  obtain ⟨flushed, hflushed, hscanned⟩ := Result.bind_eq_ok.mp hscanned
  obtain ⟨⟨cursor, tree⟩, hscan, hscanned⟩ := Result.bind_eq_ok.mp hscanned
  obtain ⟨hmetadata, hblocks⟩ := Prod.mk.inj (Except.ok.inj hscanned)
  obtain ⟨issued, hlife, -⟩ := exists_flushedKeys hflushed
  obtain ⟨built, h⟩ := hlife.sound starts_eager
  have hsame := (h.invariant.opened_scan h.levelCount_le hscan).same
  have hbounded := h.bounded
  have hread := Life.step hlife (.scan hscan) (Nat.zero_le 1)
    ⟨hsame ▸ hbounded.columns, hbounded.strings, hbounded.rows, hsame ▸ hbounded.ids⟩
  exact ⟨_, hread, hmetadata, hblocks, registry_is_kept starts_eager hread⟩

/-- A memtable of so many keys, each of which is a block of its own, that a counter of 32 bits is
back at zero when the SSTable is finished. -/
theorem registry_miscounts_blocks : Starts (keyTable (manyConfig (2 ^ 32))) ∧
    ∃ s info, Steps (keyTable (manyConfig (2 ^ 32))) s ∧ s.tree.registry.entries = [info] ∧
      info.numBlocks = 0 ∧ s.tree.disk.sstables info.path = some
        ((manyTable (2 ^ 32)).files keyOnlySchema (sparseIndexOptions (manyConfig (2 ^ 32)))) ∧
      ¬ RegistryKept s := by
  have hcount : 2 ^ 32 ≤ 2 ^ 40 := by norm_num
  obtain ⟨s, hsteps, -, htree⟩ := exists_manyFlushed (Nat.two_pow_pos 32) hcount
  have hentries : s.tree.registry.entries = [manyInfo (2 ^ 32)] := by
    rw [htree, registry_manyFlushed]
    rfl
  have hnone : (manyInfo (2 ^ 32)).numBlocks = 0 :=
    (numBlocks_manyInfo _).trans (Nat.mod_self (2 ^ 32))
  refine ⟨starts_manyKeys _, s, _, hsteps, hentries, hnone, ?_, ?_⟩
  · rw [htree]
    exact files_manyFlushed _
  · intro hkept
    obtain ⟨t, hdescribes, -⟩ := hkept.described _ (by rw [hentries]; exact List.mem_cons_self)
    have hblocks : t.blocks = [] := by
      apply List.length_eq_zero_iff.mp
      rw [← hdescribes.numBlocks, hnone]
    have hmin := hdescribes.minKey
    rw [Table.rows, hblocks] at hmin
    cases hmin

end Htap.Properties
