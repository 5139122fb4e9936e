import Htap.SSTable.Shape

/-!
What a build writes of its blocks: their bounds in the metadata, and every block, with
its least key, as a candidate for the sparse index. The sort check of `add` keeps the
blocks in the order of their keys, whatever the rows are.
-/

namespace Htap.SSTable

open Storage ByteFormat Words

/-- The least and the greatest key of a block. -/
structure KeyBounds where
  minKey : Key
  maxKey : Key
  deriving DecidableEq

/-- What a metadata record says of the logical block it belongs to. -/
structure BlockRecord where
  blockId : Nat
  keys : KeyBounds
  deriving DecidableEq

def RowBlockMeta.record (m : RowBlockMeta) : BlockRecord := ⟨m.blockId, ⟨m.minKey, m.maxKey⟩⟩

def ColumnBlockMeta.record (m : ColumnBlockMeta) : BlockRecord :=
  ⟨m.blockId, ⟨m.minKey, m.maxKey⟩⟩

/-- Blocks in the order of their keys; the key one ends with may be the first of the
next. -/
structure Ascending (blocks : List KeyBounds) : Prop where
  bounds : ∀ k ∈ blocks, k.minKey ≤ k.maxKey
  sorted : blocks.Pairwise fun a b => a.maxKey ≤ b.minKey

theorem Ascending.nil : Ascending [] := ⟨nofun, List.Pairwise.nil⟩

theorem Ascending.push {blocks : List KeyBounds} (h : Ascending blocks) {k : KeyBounds}
    (hbounds : k.minKey ≤ k.maxKey) (hle : ∀ a ∈ blocks, a.maxKey ≤ k.minKey) :
    Ascending (blocks ++ [k]) := by
  constructor
  · intro a ha
    rcases List.mem_append.mp ha with hold | hnew
    · exact h.bounds a hold
    · rw [List.mem_singleton.mp hnew]
      exact hbounds
  · apply List.pairwise_append.mpr
    refine ⟨h.sorted, List.pairwise_singleton _ _, ?_⟩
    intro a ha b hb
    rw [List.mem_singleton.mp hb]
    exact hle a ha

/-- The metadata of these blocks, `size` records for each. -/
def recordsOf (size : Nat) (blocks : List KeyBounds) : List BlockRecord :=
  blocks.zipIdx.flatMap fun k => List.replicate size ⟨u32 k.2, k.1⟩

/-- Their candidates for the sparse index. -/
def candidatesOf (blocks : List KeyBounds) : List SparseIndexEntry :=
  blocks.zipIdx.map fun k => ⟨k.1.minKey, u32 k.2⟩

theorem recordsOf_push (size : Nat) (blocks : List KeyBounds) (k : KeyBounds) :
    recordsOf size (blocks ++ [k]) =
      recordsOf size blocks ++ List.replicate size ⟨u32 blocks.length, k⟩ := by
  simp [recordsOf, List.zipIdx_append, List.flatMap_append]

theorem candidatesOf_push (blocks : List KeyBounds) (k : KeyBounds) :
    candidatesOf (blocks ++ [k]) = candidatesOf blocks ++ [⟨k.minKey, u32 blocks.length⟩] := by
  simp [candidatesOf, List.zipIdx_append]

theorem length_recordsOf (size : Nat) (blocks : List KeyBounds) :
    (recordsOf size blocks).length = blocks.length * size := by
  rw [recordsOf, length_records _ fun k _ => List.length_replicate, List.length_zipIdx]

theorem ids_candidatesOf {blocks : List KeyBounds} (hfew : blocks.length < 2 ^ 32) :
    (candidatesOf blocks).map (·.blockId) = List.range blocks.length := by
  induction blocks using List.reverseRecOn with
  | nil => rfl
  | append_singleton blocks k ih =>
    rw [List.length_append, List.length_singleton] at hfew
    rw [candidatesOf_push, List.map_append, ih (by omega), List.length_append,
      List.length_singleton, List.range_succ, List.map_singleton, u32_of_lt (by omega)]

theorem Ascending.sorted_candidatesOf {blocks : List KeyBounds} (h : Ascending blocks) :
    (candidatesOf blocks).Pairwise fun a b => a.minKey ≤ b.minKey := by
  have hkeys : (candidatesOf blocks).map SparseIndexEntry.minKey =
      blocks.map KeyBounds.minKey := by
    conv_rhs => rw [← List.zipIdx_map_fst 0 blocks]
    rw [candidatesOf, List.map_map, List.map_map]
    rfl
  have hsorted : (blocks.map KeyBounds.minKey).Pairwise (· ≤ ·) := by
    rw [List.pairwise_map]
    refine h.sorted.imp_of_mem fun ha _ hle => (h.bounds _ ha).trans hle
  rw [← hkeys, List.pairwise_map] at hsorted
  exact hsorted

/-- Every candidate is a block that was written, with its least key. -/
theorem mem_candidatesOf {blocks : List KeyBounds} (hfew : blocks.length < 2 ^ 32)
    {entry : SparseIndexEntry} (h : entry ∈ candidatesOf blocks) :
    ∃ k, blocks[entry.blockId]? = some k ∧ entry.minKey = k.minKey := by
  obtain ⟨⟨k, i⟩, hmem, rfl⟩ := List.mem_map.mp h
  have hget : blocks[i]? = some k := List.mem_zipIdx_iff_getElem?.mp hmem
  have hlt : i < blocks.length := (List.getElem?_eq_some_iff.mp hget).1
  refine ⟨k, ?_, rfl⟩
  dsimp only
  rw [u32_of_lt (hlt.trans hfew)]
  exact hget

theorem mem_recordsOf {size : Nat} (hsize : 0 < size) {blocks : List KeyBounds}
    (hfew : blocks.length < 2 ^ 32) {r : BlockRecord} :
    r ∈ recordsOf size blocks ↔ blocks[r.blockId]? = some r.keys := by
  have hid : ∀ {i : Nat} {k : KeyBounds}, blocks[i]? = some k → u32 i = i :=
    fun hget => u32_of_lt ((List.getElem?_eq_some_iff.mp hget).1.trans hfew)
  constructor
  · intro h
    obtain ⟨⟨k, i⟩, hmem, hr⟩ := List.mem_flatMap.mp h
    have hget : blocks[i]? = some k := List.mem_zipIdx_iff_getElem?.mp hmem
    rw [(List.mem_replicate.mp hr).2]
    dsimp only
    rw [hid hget]
    exact hget
  · intro hget
    refine List.mem_flatMap.mpr ⟨(r.keys, r.blockId), List.mem_zipIdx_iff_getElem?.mpr hget, ?_⟩
    refine List.mem_replicate.mpr ⟨hsize.ne', ?_⟩
    dsimp only
    rw [hid hget]

/-- What the files of a build say of its blocks. -/
structure BuiltBlocks {α : Type} (options : SparseIndexOptions) (record : α → BlockRecord)
    (encode : α → Bytes) (size : Nat) (blocks : List KeyBounds) (metas : List α)
    (result : SSTableBuildResult) (files : SSTableFiles) : Prop where
  accepted : options.Accepted
  size_pos : 0 < size
  nonempty : blocks ≠ []
  ascending : Ascending blocks
  numBlocks : result.numBlocks = u32 blocks.length
  metadata : files.metadata = metas.flatMap encode
  records : metas.map record = recordsOf size blocks
  index : files.index = sparseIndexFile (u32 blocks.length) options (candidatesOf blocks)

theorem BuiltBlocks.length_metadata {α : Type} {options : SparseIndexOptions}
    {record : α → BlockRecord} {encode : α → Bytes} {size recordBytes : Nat}
    {blocks : List KeyBounds} {metas : List α} {result : SSTableBuildResult} {files : SSTableFiles}
    (h : BuiltBlocks options record encode size blocks metas result files)
    (hencode : ∀ m ∈ metas, (encode m).length = recordBytes) :
    files.metadata.length = blocks.length * (size * recordBytes) := by
  have hlength := congrArg List.length h.records
  rw [List.length_map, length_recordsOf] at hlength
  rw [h.metadata, length_records metas hencode, hlength, Nat.mul_assoc]

/-! ## Row SSTables -/

namespace RowSSTBlockBuilder

variable {b b' : RowSSTBlockBuilder}

private theorem of_finish {result : RowSSTBlockResult} (h : b.finish = .ok (result, b')) :
    b.rowCount ≠ 0 ∧ result = ⟨b.buffer, ⟨b.minKey, b.maxKey, 0, b.buffer.length, b.rowCount, 0⟩,
      b.numericStats⟩ ∧ b'.minKey = Int64.maxValue ∧ b'.maxKey = Int64.minValue ∧
      b'.rowCount = 0 := by
  unfold RowSSTBlockBuilder.finish at h
  split at h
  · cases h
  · rename_i hcount
    cases h
    exact ⟨hcount, rfl, rfl, rfl, rfl⟩

private theorem of_add {row : Row} (h : b.add row = .ok b') :
    b'.minKey = min (rowKey row) b.minKey ∧ b'.maxKey = max (rowKey row) b.maxKey ∧
      b'.rowCount < 2 ^ 32 ∧ 0 < b'.buffer.length := by
  unfold RowSSTBlockBuilder.add at h
  split at h
  · cases h
  · obtain ⟨encoded, hencoded, h⟩ := Result.bind_eq_ok.mp h
    obtain ⟨stats, -, h⟩ := Result.bind_eq_ok.mp h
    cases h
    refine ⟨rfl, rfl, u32_lt _, ?_⟩
    unfold encodeRow at hencoded
    obtain ⟨values, -, hencoded⟩ := Result.bind_eq_ok.mp hencoded
    cases hencoded
    simp only [List.length_append, length_i64Bytes]
    omega

end RowSSTBlockBuilder

namespace RowSSTableBuilder

/-- The blocks written so far are in order, and behind them come the rows of the current
block and those still to be added. -/
private structure Written (b : RowSSTableBuilder) (blocks : List KeyBounds) : Prop where
  ascending : Ascending blocks
  blockId : b.blockId = u32 blocks.length
  candidates : b.sparseIndexCandidates = candidatesOf blocks
  metas : ∃ metas : List RowBlockMeta, b.metadata = metas.flatMap RowBlockMeta.encode ∧
    metas.map RowBlockMeta.record = recordsOf 1 blocks ∧ ∀ m ∈ metas, m.Fits
  offset : b.dataOffset = b.data.length
  data : b.data.length ≤ maxFileSize
  le_block : ∀ k ∈ blocks, k.maxKey ≤ b.blockBuilder.minKey
  le_last : ∀ k ∈ blocks, k.maxKey ≤ b.lastKey
  block : b.blockBuilder.rowCount ≠ 0 → b.blockBuilder.minKey ≤ b.blockBuilder.maxKey
  block_le_last : b.blockBuilder.maxKey ≤ b.lastKey
  counted : b.blockBuilder.rowCount < 2 ^ 32
  first : b.firstRow = true →
    blocks = [] ∧ b.blockBuilder.maxKey = Int64.minValue ∧ b.blockBuilder.rowCount = 0

variable {schema : Schema} {options : SparseIndexOptions} {blocks : List KeyBounds}
  {b b' : RowSSTableBuilder}

private theorem Written.flushBlock (hb : b.Written blocks) (h : b.flushBlock = .ok b') :
    ∃ k, b'.Written (blocks ++ [k]) ∧ b'.lastKey = b.lastKey ∧ b'.firstRow = b.firstRow ∧
      b'.sparseIndexOptions = b.sparseIndexOptions := by
  unfold RowSSTableBuilder.flushBlock at h
  obtain ⟨⟨block, blockBuilder⟩, hblock, h⟩ := Result.bind_eq_ok.mp h
  obtain ⟨data, hdata, h⟩ := Result.bind_eq_ok.mp h
  obtain ⟨metadata, hmetadata, h⟩ := Result.bind_eq_ok.mp h
  obtain ⟨hcount, hresult, hmin, hmax, hempty⟩ := RowSSTBlockBuilder.of_finish hblock
  obtain ⟨metas, hmetas, hrecords, hfits⟩ := hb.metas
  obtain ⟨hdata, hsize⟩ := length_of_writeBytes hdata
  cases h
  subst hresult
  have hlength : data.length = b.data.length + b.blockBuilder.buffer.length := by
    rw [hdata, List.length_append]
  have hnew : b.dataOffset < 2 ^ 64 ∧ b.blockBuilder.buffer.length < 2 ^ 64 := by
    have hoffset := hb.offset
    unfold maxFileSize at hsize
    omega
  refine ⟨⟨b.blockBuilder.minKey, b.blockBuilder.maxKey⟩, ⟨?_, ?_, ?_, ?_, ?_, hsize, ?_, ?_, ?_,
    ?_, ?_, ?_⟩, rfl, rfl, rfl⟩
  · exact hb.ascending.push (hb.block hcount) hb.le_block
  · change u32 (b.blockId + 1) = _
    rw [hb.blockId, u32_add_one, List.length_append, List.length_singleton]
  · rw [candidatesOf_push, ← hb.candidates, ← hb.blockId]
  · refine ⟨metas ++ [⟨b.blockBuilder.minKey, b.blockBuilder.maxKey, b.dataOffset,
      b.blockBuilder.buffer.length, b.blockBuilder.rowCount, b.blockId⟩], ?_, ?_, ?_⟩
    · rw [List.flatMap_append, List.flatMap_singleton, ← hmetas]
      exact (length_of_writeBytes hmetadata).1
    · rw [List.map_append, hrecords, recordsOf_push, ← hb.blockId]
      rfl
    · intro m hm
      rcases List.mem_append.mp hm with hold | hlast
      · exact hfits m hold
      · rw [List.mem_singleton.mp hlast]
        exact ⟨hnew.1, hnew.2, hb.counted, by rw [hb.blockId]; exact u32_lt _⟩
  · rw [hlength, ← hb.offset]
  · intro k _
    rw [hmin]
    exact le_maxValue _
  · intro k hk
    rcases List.mem_append.mp hk with hold | hlast
    · exact hb.le_last k hold
    · rw [List.mem_singleton.mp hlast]
      exact hb.block_le_last
  · exact fun hrows => absurd hempty hrows
  · rw [hmax]
    exact minValue_le _
  · rw [hempty]
    norm_num
  · exact fun hfirst => absurd (hb.first hfirst).2.2 hcount

/-- What a builder keeps from one row to the next. -/
private structure Kept (options : SparseIndexOptions) (b : RowSSTableBuilder) : Prop where
  written : ∃ blocks, b.Written blocks
  sameOptions : b.sparseIndexOptions = options
  nonempty : b.firstRow = false → 0 < b.blockBuilder.buffer.length

private theorem Kept.add {row : Row} (hb : b.Kept options) (h : b.add row = .ok b') :
    b'.Kept options := by
  unfold RowSSTableBuilder.add at h
  split at h
  · cases h
  obtain ⟨flushed, hflushed, h⟩ := Result.bind_eq_ok.mp h
  obtain ⟨⟨blocks, hwritten⟩, hsame⟩ : (∃ blocks, flushed.Written blocks) ∧
      flushed.sparseIndexOptions = options := by
    obtain ⟨blocks, hwritten⟩ := hb.written
    split at hflushed
    · obtain ⟨k, hmore, -, -, hsame⟩ := hwritten.flushBlock hflushed
      exact ⟨⟨_, hmore⟩, hsame.trans hb.sameOptions⟩
    · cases hflushed
      exact ⟨hb.written, hb.sameOptions⟩
  dsimp only at h
  split at h
  · cases h
  rename_i horder
  obtain ⟨blockBuilder, hadd, h⟩ := Result.bind_eq_ok.mp h
  obtain ⟨hmin, hmax, hcounted, hlength⟩ := RowSSTBlockBuilder.of_add hadd
  -- the sort check, or no row before this one
  have hkey : (∀ k ∈ blocks, k.maxKey ≤ rowKey row) ∧
      flushed.blockBuilder.maxKey ≤ rowKey row := by
    cases hfirst : flushed.firstRow with
    | true =>
      obtain ⟨hblocks, hnone, -⟩ := hwritten.first hfirst
      rw [hblocks, hnone]
      exact ⟨nofun, minValue_le _⟩
    | false =>
      rw [hfirst, Bool.not_false, Bool.true_and, decide_eq_true_eq, not_lt] at horder
      exact ⟨fun k hk => (hwritten.le_last k hk).trans horder,
        hwritten.block_le_last.trans horder⟩
  cases h
  refine ⟨⟨blocks, hwritten.ascending, hwritten.blockId, hwritten.candidates, hwritten.metas,
    hwritten.offset, hwritten.data, ?_, hkey.1, ?_, ?_, hcounted, nofun⟩, hsame, fun _ => hlength⟩
  · intro k hk
    dsimp only
    rw [hmin]
    exact le_min (hkey.1 k hk) (hwritten.le_block k hk)
  · intro _
    dsimp only
    rw [hmin, hmax]
    exact (min_le_left _ _).trans (le_max_left _ _)
  · dsimp only
    rw [hmax]
    exact max_le le_rfl hkey.2

private theorem kept_create {target : Nat} (h : create schema options target = .ok b) :
    b.Kept options ∧ options.Accepted := by
  unfold RowSSTableBuilder.create at h
  obtain ⟨blockBuilder, hblock, h⟩ := Result.bind_eq_ok.mp h
  split at h
  · cases h
  rename_i hmin
  split at h
  · cases h
  rename_i hmax
  unfold RowSSTBlockBuilder.create at hblock
  split at hblock
  · cases hblock
  cases hblock
  cases h
  refine ⟨⟨⟨[], Ascending.nil, rfl, rfl, ⟨[], rfl, rfl, nofun⟩, rfl, Nat.zero_le _, nofun, nofun,
    fun hrows => absurd rfl hrows, minValue_le _, ?_, fun _ => ⟨rfl, rfl, rfl⟩⟩, rfl, nofun⟩,
    Nat.pos_of_ne_zero hmin, not_lt.mp hmax⟩
  exact Nat.two_pow_pos 32

private theorem Kept.finish {result : SSTableBuildResult} (hb : b.Kept options)
    (haccepted : options.Accepted) (h : b.finish = .ok (result, b')) :
    ∃ blocks, ∃ metas : List RowBlockMeta,
      BuiltBlocks options RowBlockMeta.record RowBlockMeta.encode 1 blocks metas result b'.files ∧
        ∀ m ∈ metas, m.Fits := by
  unfold RowSSTableBuilder.finish at h
  split at h
  · cases h
  split at h
  · cases h
  rename_i hfirst
  rw [if_pos (hb.nonempty (by simpa using hfirst))] at h
  obtain ⟨flushed, hflushed, h⟩ := Result.bind_eq_ok.mp h
  obtain ⟨earlier, hwritten⟩ := hb.written
  obtain ⟨k, hwritten, -, -, hsame⟩ := hwritten.flushBlock hflushed
  obtain ⟨info, -, h⟩ := Result.bind_eq_ok.mp h
  obtain ⟨index, hindex, h⟩ := Result.bind_eq_ok.mp h
  obtain ⟨statsBytes, -, h⟩ := Result.bind_eq_ok.mp h
  obtain ⟨stats, -, h⟩ := Result.bind_eq_ok.mp h
  cases h
  obtain ⟨metas, hmetas, hrecords, hfits⟩ := hwritten.metas
  refine ⟨_, metas, ⟨haccepted, Nat.one_pos, List.concat_ne_nil _ _, hwritten.ascending,
    hwritten.blockId, hmetas, hrecords, ?_⟩, hfits⟩
  rw [← hwritten.blockId, ← hwritten.candidates, ← hb.sameOptions, ← hsame]
  exact (length_of_writeBytes hindex).1

end RowSSTableBuilder

theorem blocks_of_buildRowSSTable {schema : Schema} {options : SparseIndexOptions}
    {target : Nat} {rows : List Row} {result : SSTableBuildResult} {files : SSTableFiles}
    (h : buildRowSSTable schema options target rows = .ok (result, files)) :
    ∃ blocks, ∃ metas : List RowBlockMeta,
      BuiltBlocks options RowBlockMeta.record RowBlockMeta.encode 1 blocks metas result files ∧
        ∀ m ∈ metas, m.Fits := by
  unfold buildRowSSTable at h
  obtain ⟨b, hcreate, h⟩ := Result.bind_eq_ok.mp h
  obtain ⟨filled, hfilled, h⟩ := Result.bind_eq_ok.mp h
  obtain ⟨⟨built, last⟩, hfinish, h⟩ := Result.bind_eq_ok.mp h
  cases h
  obtain ⟨hstart, haccepted⟩ := RowSSTableBuilder.kept_create hcreate
  have hkept := Result.foldlM_invariant (fun b : RowSSTableBuilder => b.Kept options)
    (fun b row b' hb h => hb.add h) rows hstart hfilled
  exact hkept.finish haccepted hfinish

/-! ## Column SSTables -/

namespace ColumnSSTBlockBuilder

variable {b b' : ColumnSSTBlockBuilder}

/-- The builder of a column has seen the keys of the block. -/
private structure Follows (keys : List Key) (b : ColumnSSTBlockBuilder) : Prop where
  minKey : b.minKey = keys.head?.getD Int64.maxValue
  maxKey : b.maxKey = keys.getLast?.getD Int64.minValue
  counted : b.valuesCount < 2 ^ 32

private theorem Follows.finish {keys : List Key} {result : ColumnSSTBlockResult}
    (hb : b.Follows keys) (h : b.finish = .ok (result, b')) :
    b'.Follows [] ∧ result.minKey = keys.head?.getD Int64.maxValue ∧
      result.maxKey = keys.getLast?.getD Int64.minValue ∧ result.valuesCount < 2 ^ 32 := by
  unfold ColumnSSTBlockBuilder.finish at h
  split at h
  · cases h
  · cases h
    exact ⟨⟨rfl, rfl, Nat.two_pow_pos 32⟩, hb.minKey, hb.maxKey, hb.counted⟩

private theorem Follows.add {keys : List Key} {row : Row} (hb : b.Follows keys)
    (hkeys : ∀ key ∈ keys, key ≤ rowKey row) (h : b.add row = .ok b') :
    b'.Follows (keys ++ [rowKey row]) := by
  unfold ColumnSSTBlockBuilder.add at h
  split at h
  · cases h
  split at h
  · cases h
  obtain ⟨encoded, -, h⟩ := Result.bind_eq_ok.mp h
  obtain ⟨stats, -, h⟩ := Result.bind_eq_ok.mp h
  cases h
  refine ⟨?_, ?_, u32_lt _⟩
  · dsimp only
    rw [hb.minKey, List.head?_append]
    cases hfirst : keys.head? with
    | none => exact min_eq_right (le_maxValue _)
    | some first => exact min_eq_left (hkeys first (List.mem_of_head? hfirst))
  · dsimp only
    rw [hb.maxKey, List.getLast?_concat]
    cases hlast : keys.getLast? with
    | none => exact max_eq_right (minValue_le _)
    | some last => exact max_eq_right (hkeys last (List.mem_of_getLast? hlast))

end ColumnSSTBlockBuilder

namespace ColumnSSTableBuilder

/-- `data_offset_` is the size of the data file, unless a count of rows was cut to 32
bits. -/
private structure Bounded (out : ColumnOutput) : Prop where
  offset : out.dataOffset ≤ out.data.length
  data : out.data.length ≤ maxFileSize

private theorem Bounded.writeBlock {out out' : ColumnOutput} {bytes : Bytes} {size : Nat}
    {blockMeta : ColumnBlockMeta} (hout : Bounded out) (hsize : size ≤ bytes.length)
    (h : out.writeBlock bytes size blockMeta = .ok out') :
    Bounded out' ∧ out'.metadata = out.metadata ++ blockMeta.encode ∧
      out.dataOffset < 2 ^ 64 ∧ size < 2 ^ 64 := by
  unfold ColumnOutput.writeBlock at h
  obtain ⟨data, hdata, h⟩ := Result.bind_eq_ok.mp h
  obtain ⟨metadata, hmetadata, h⟩ := Result.bind_eq_ok.mp h
  cases h
  obtain ⟨rfl, hfits⟩ := length_of_writeBytes hdata
  have hoffset := hout.offset
  have hlength := hfits
  rw [List.length_append] at hlength
  have hlimit : maxFileSize < 2 ^ 64 := by norm_num [maxFileSize]
  refine ⟨⟨?_, hfits⟩, (length_of_writeBytes hmetadata).1, by omega, by omega⟩
  dsimp only
  rw [List.length_append]
  omega

/-- One record for each of the columns, with the bounds of the block. -/
private theorem of_flushColumns {blockId columnIdx : Nat} {keys : List Key}
    (hid : blockId < 2 ^ 32) {builders builders' : List ColumnSSTBlockBuilder}
    {out out' : ColumnOutput} {stats : List NumericBlockStats} (hout : Bounded out)
    (hbuilders : ∀ c ∈ builders, c.Follows keys)
    (h : flushColumns blockId columnIdx out builders = .ok (builders', out', stats)) :
    Bounded out' ∧ (∀ c ∈ builders', c.Follows []) ∧ builders'.length = builders.length ∧
      ∃ metas : List ColumnBlockMeta,
      out'.metadata = out.metadata ++ metas.flatMap ColumnBlockMeta.encode ∧
      metas.map ColumnBlockMeta.record = List.replicate builders.length
        ⟨blockId, ⟨keys.head?.getD Int64.maxValue, keys.getLast?.getD Int64.minValue⟩⟩ ∧
      ∀ m ∈ metas, m.Fits := by
  induction builders generalizing columnIdx out builders' out' stats with
  | nil =>
    cases h
    exact ⟨hout, nofun, rfl, [], (List.append_nil _).symm, rfl, nofun⟩
  | cons builder builders ih =>
    rw [flushColumns] at h
    obtain ⟨⟨block, builder'⟩, hblock, h⟩ := Result.bind_eq_ok.mp h
    obtain ⟨written, hwritten, h⟩ := Result.bind_eq_ok.mp h
    obtain ⟨⟨rest, last, restStats⟩, hlast, h⟩ := Result.bind_eq_ok.mp h
    cases h
    obtain ⟨hreset, hmin, hmax, hcounted⟩ := (hbuilders builder List.mem_cons_self).finish hblock
    obtain ⟨hbounded, hmetadata, hoffset, hsize⟩ := hout.writeBlock le_rfl hwritten
    obtain ⟨hbounded, hrest, hlength, metas, hmore, hrecords, hfits⟩ :=
      ih hbounded (fun c hc => hbuilders c (List.mem_cons_of_mem _ hc)) hlast
    refine ⟨hbounded, ?_, congrArg Nat.succ hlength, ⟨block.minKey, block.maxKey, out.dataOffset,
      block.data.length, block.valuesCount, blockId, u32 columnIdx⟩ :: metas, ?_, ?_, ?_⟩
    · intro c hc
      rcases List.mem_cons.mp hc with rfl | hold
      · exact hreset
      · exact hrest c hold
    · rw [hmore, hmetadata, List.flatMap_cons, List.append_assoc]
    · rw [List.map_cons, hrecords, List.length_cons, List.replicate_succ, ← hmin, ← hmax]
      rfl
    · intro m hm
      rcases List.mem_cons.mp hm with rfl | hold
      · exact ⟨hoffset, hsize, hcounted, hid, u32_lt _⟩
      · exact hfits m hold

/-- The blocks written so far are in order, and behind them come the keys of the current
block and those still to be added. -/
private structure Written (b : ColumnSSTableBuilder) (size : Nat) (blocks : List KeyBounds) :
    Prop where
  ascending : Ascending blocks
  blockId : b.blockId = u32 blocks.length
  candidates : b.sparseIndexCandidates = candidatesOf blocks
  metas : ∃ metas : List ColumnBlockMeta, b.out.metadata = metas.flatMap ColumnBlockMeta.encode ∧
    metas.map ColumnBlockMeta.record = recordsOf size blocks ∧ ∀ m ∈ metas, m.Fits
  out : Bounded b.out
  columns : ∀ c ∈ b.colBuilders, c.Follows b.keyBuffer
  size : b.colBuilders.length + 1 = size
  le_block : ∀ k ∈ blocks, ∀ key ∈ b.keyBuffer, k.maxKey ≤ key
  le_last : ∀ k ∈ blocks, k.maxKey ≤ b.lastKey
  block : b.keyBuffer.Pairwise (· ≤ ·)
  block_le_last : ∀ key ∈ b.keyBuffer, key ≤ b.lastKey
  first : b.firstRow = true → blocks = [] ∧ b.keyBuffer = []

variable {schema : Schema} {options : SparseIndexOptions} {blocks : List KeyBounds} {size : Nat}
  {b b' : ColumnSSTableBuilder}

private theorem Written.flushBlock (hb : b.Written size blocks) (hne : b.keyBuffer ≠ [])
    (h : b.flushBlock = .ok b') :
    ∃ k, b'.Written size (blocks ++ [k]) ∧ b'.lastKey = b.lastKey ∧ b'.firstRow = b.firstRow ∧
      b'.sparseIndexOptions = b.sparseIndexOptions ∧ b'.keyBuffer = [] := by
  unfold ColumnSSTableBuilder.flushBlock at h
  split at h
  · rename_i hbuffer
    exact absurd hbuffer hne
  rename_i blockMin keys hbuffer
  obtain ⟨out, hkeys, h⟩ := Result.bind_eq_ok.mp h
  obtain ⟨⟨colBuilders, out', stats⟩, hcolumns, h⟩ := Result.bind_eq_ok.mp h
  have hid : b.blockId < 2 ^ 32 := hb.blockId ▸ u32_lt _
  have hcount : 8 * u32 b.keyBuffer.length ≤ (b.keyBuffer.flatMap i64Bytes).length := by
    rw [length_records _ fun key _ => length_i64Bytes key, Nat.mul_comm]
    exact Nat.mul_le_mul_right 8 (Nat.mod_le _ _)
  obtain ⟨hbounded, hmetadata, hoffset, hsize⟩ := hb.out.writeBlock hcount hkeys
  obtain ⟨hbounded, hreset, hlength, more, hmore, hrecords, hfits⟩ :=
    of_flushColumns hid hbounded hb.columns hcolumns
  obtain ⟨metas, hmetas, hearlier, hfit⟩ := hb.metas
  have hfirst : b.keyBuffer.head? = some blockMin := by
    rw [hbuffer]
    rfl
  have hlast : b.keyBuffer.getLast? = some (keys.getLastD blockMin) := by
    rw [hbuffer, List.getLast?_cons, List.getLastD_eq_getLast?]
  have hends : blockMin ≤ keys.getLastD blockMin := by
    have hpair := hb.block
    have hmem := List.mem_of_getLast? hlast
    rw [hbuffer] at hpair hmem
    rcases List.mem_cons.mp hmem with heq | hmem
    · exact heq.ge
    · exact List.rel_of_pairwise_cons hpair hmem
  cases h
  refine ⟨⟨blockMin, keys.getLastD blockMin⟩, ⟨?_, ?_, ?_, ?_, hbounded, hreset, ?_, nofun, ?_,
    List.Pairwise.nil, nofun, ?_⟩, rfl, rfl, rfl, rfl⟩
  · refine hb.ascending.push hends fun k hk => hb.le_block k hk blockMin ?_
    exact List.mem_of_head? hfirst
  · change u32 (b.blockId + 1) = _
    rw [hb.blockId, u32_add_one, List.length_append, List.length_singleton]
  · rw [candidatesOf_push, ← hb.candidates, ← hb.blockId]
  · refine ⟨metas ++ (⟨blockMin, keys.getLastD blockMin, b.out.dataOffset,
      8 * u32 b.keyBuffer.length, u32 b.keyBuffer.length, b.blockId, keyColumnIndex⟩ :: more),
      ?_, ?_, ?_⟩
    · rw [hmore, hmetadata, hmetas, List.flatMap_append, List.flatMap_cons, List.append_assoc]
    · rw [List.map_append, hearlier, recordsOf_push, List.map_cons, hrecords, ← hb.size,
        List.replicate_succ, ← hb.blockId, hfirst, hlast]
      rfl
    · intro m hm
      rcases List.mem_append.mp hm with hold | hnew
      · exact hfit m hold
      rcases List.mem_cons.mp hnew with rfl | hnew
      · exact ⟨hoffset, hsize, u32_lt _, hid, Nat.two_pow_pos 32⟩
      · exact hfits m hnew
  · exact (congrArg Nat.succ hlength).trans hb.size
  · intro k hk
    rcases List.mem_append.mp hk with hold | hnew
    · exact hb.le_last k hold
    · rw [List.mem_singleton.mp hnew]
      exact hb.block_le_last _ (List.mem_of_getLast? hlast)
  · exact fun hstart => absurd (hb.first hstart).2 hne

/-- What a builder keeps from one row to the next. -/
private structure Kept (schema : Schema) (options : SparseIndexOptions)
    (b : ColumnSSTableBuilder) : Prop where
  written : ∃ blocks, b.Written schema.size blocks
  sameOptions : b.sparseIndexOptions = options
  nonempty : b.firstRow = false → b.keyBuffer ≠ []

private theorem Kept.add {row : Row} (hb : b.Kept schema options) (h : b.add row = .ok b') :
    b'.Kept schema options := by
  unfold ColumnSSTableBuilder.add at h
  split at h
  · cases h
  dsimp only at h
  split at h
  · cases h
  rename_i horder
  obtain ⟨flushed, hflushed, h⟩ := Result.bind_eq_ok.mp h
  obtain ⟨colBuilders, hadded, h⟩ := Result.bind_eq_ok.mp h
  obtain ⟨blocks, hwritten⟩ := hb.written
  obtain ⟨⟨blocks, hwritten⟩, hlast, hsameFirst, hsame⟩ :
      (∃ blocks, flushed.Written schema.size blocks) ∧ flushed.lastKey = b.lastKey ∧
        flushed.firstRow = b.firstRow ∧ flushed.sparseIndexOptions = options := by
    split at hflushed
    · by_cases hne : b.keyBuffer = []
      · unfold ColumnSSTableBuilder.flushBlock at hflushed
        rw [hne] at hflushed
        cases hflushed
        exact ⟨⟨_, hwritten⟩, rfl, rfl, hb.sameOptions⟩
      · obtain ⟨k, hmore, hlast, hfirst, hsame, -⟩ := hwritten.flushBlock hne hflushed
        exact ⟨⟨_, hmore⟩, hlast, hfirst, hsame.trans hb.sameOptions⟩
    · cases hflushed
      exact ⟨⟨_, hwritten⟩, rfl, rfl, hb.sameOptions⟩
  -- the sort check, or no row before this one
  have hkey : (∀ k ∈ blocks, k.maxKey ≤ rowKey row) ∧
      ∀ key ∈ flushed.keyBuffer, key ≤ rowKey row := by
    cases hfirst : b.firstRow with
    | true =>
      obtain ⟨hblocks, hbuffer⟩ := hwritten.first (hsameFirst.trans hfirst)
      rw [hblocks, hbuffer]
      exact ⟨nofun, nofun⟩
    | false =>
      rw [hfirst, Bool.not_false, Bool.true_and, decide_eq_true_eq, not_lt, ← hlast] at horder
      exact ⟨fun k hk => (hwritten.le_last k hk).trans horder,
        fun key hmem => (hwritten.block_le_last key hmem).trans horder⟩
  cases h
  refine ⟨⟨blocks, hwritten.ascending, hwritten.blockId, hwritten.candidates, hwritten.metas,
    hwritten.out, ?_, ?_, ?_, hkey.1, ?_, ?_, nofun⟩, hsame, fun _ => List.concat_ne_nil _ _⟩
  · intro c hc
    obtain ⟨before, hbefore, hstep⟩ := Result.exists_of_mem_mapM hadded hc
    exact (hwritten.columns before hbefore).add hkey.2 hstep
  · rw [← (Result.mapM_eq_ok.mp hadded).length_eq]
    exact hwritten.size
  · intro k hk key hmem
    rcases List.mem_append.mp hmem with hold | hnew
    · exact hwritten.le_block k hk key hold
    · rw [List.mem_singleton.mp hnew]
      exact hkey.1 k hk
  · apply List.pairwise_append.mpr
    refine ⟨hwritten.block, List.pairwise_singleton _ _, ?_⟩
    intro key hmem last hlast
    rw [List.mem_singleton.mp hlast]
    exact hkey.2 key hmem
  · intro key hmem
    rcases List.mem_append.mp hmem with hold | hnew
    · exact hkey.2 key hold
    · exact (List.mem_singleton.mp hnew).le

private theorem kept_create {targetRows targetBytes : Nat}
    (h : create schema options targetRows targetBytes = .ok b) :
    b.Kept schema options ∧ options.Accepted := by
  have hcounts := counts_create h
  unfold ColumnSSTableBuilder.create at h
  split at h
  · cases h
  split at h
  · cases h
  rename_i hmin
  split at h
  · cases h
  rename_i hmax
  split at h
  · cases h
  split at h
  · cases h
  obtain ⟨colBuilders, hbuilders, h⟩ := Result.bind_eq_ok.mp h
  cases h
  refine ⟨⟨⟨[], Ascending.nil, rfl, rfl, ⟨[], rfl, rfl, nofun⟩, ⟨le_rfl, Nat.zero_le _⟩, ?_,
    hcounts.builders, nofun, nofun, List.Pairwise.nil, nofun, fun _ => ⟨rfl, rfl⟩⟩, rfl, nofun⟩,
    Nat.pos_of_ne_zero hmin, not_lt.mp hmax⟩
  intro c hc
  obtain ⟨column, -, hnew⟩ := Result.exists_of_mem_mapM hbuilders hc
  unfold ColumnSSTBlockBuilder.create at hnew
  split at hnew
  · cases hnew
  · cases hnew
    exact ⟨rfl, rfl, Nat.two_pow_pos 32⟩

private theorem Kept.finish {result : SSTableBuildResult} (hb : b.Kept schema options)
    (haccepted : options.Accepted) (h : b.finish = .ok (result, b')) :
    ∃ blocks, ∃ metas : List ColumnBlockMeta,
      BuiltBlocks options ColumnBlockMeta.record ColumnBlockMeta.encode schema.size blocks metas
        result b'.files ∧ ∀ m ∈ metas, m.Fits := by
  unfold ColumnSSTableBuilder.finish at h
  split at h
  · cases h
  split at h
  · cases h
  rename_i hfirst
  obtain ⟨flushed, hflushed, h⟩ := Result.bind_eq_ok.mp h
  obtain ⟨earlier, hwritten⟩ := hb.written
  obtain ⟨k, hwritten, -, -, hsame, -⟩ :=
    hwritten.flushBlock (hb.nonempty (by simpa using hfirst)) hflushed
  obtain ⟨info, -, h⟩ := Result.bind_eq_ok.mp h
  obtain ⟨index, hindex, h⟩ := Result.bind_eq_ok.mp h
  obtain ⟨statsBytes, -, h⟩ := Result.bind_eq_ok.mp h
  obtain ⟨stats, -, h⟩ := Result.bind_eq_ok.mp h
  cases h
  obtain ⟨metas, hmetas, hrecords, hfits⟩ := hwritten.metas
  refine ⟨_, metas, ⟨haccepted, hwritten.size ▸ Nat.succ_pos _, List.concat_ne_nil _ _,
    hwritten.ascending, hwritten.blockId, hmetas, hrecords, ?_⟩, hfits⟩
  rw [← hwritten.blockId, ← hwritten.candidates, ← hb.sameOptions, ← hsame]
  exact (length_of_writeBytes hindex).1

end ColumnSSTableBuilder

theorem blocks_of_buildColumnSSTable {schema : Schema} {options : SparseIndexOptions}
    {targetRows targetBytes : Nat} {rows : List Row} {result : SSTableBuildResult}
    {files : SSTableFiles}
    (h : buildColumnSSTable schema options targetRows targetBytes rows = .ok (result, files)) :
    ∃ blocks, ∃ metas : List ColumnBlockMeta,
      BuiltBlocks options ColumnBlockMeta.record ColumnBlockMeta.encode schema.size blocks metas
        result files ∧ ∀ m ∈ metas, m.Fits := by
  unfold buildColumnSSTable at h
  obtain ⟨b, hcreate, h⟩ := Result.bind_eq_ok.mp h
  obtain ⟨filled, hfilled, h⟩ := Result.bind_eq_ok.mp h
  obtain ⟨⟨built, last⟩, hfinish, h⟩ := Result.bind_eq_ok.mp h
  cases h
  obtain ⟨hstart, haccepted⟩ := ColumnSSTableBuilder.kept_create hcreate
  have hkept := Result.foldlM_invariant (fun b : ColumnSSTableBuilder => b.Kept schema options)
    (fun b row b' hb h => hb.add h) rows hstart hfilled
  exact hkept.finish haccepted hfinish

end Htap.SSTable
