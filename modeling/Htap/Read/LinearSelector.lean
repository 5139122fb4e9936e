import Htap.Read.Table
import Htap.SSTable.IndexEntries

/-!
Selecting the blocks of a key range by looking at all of them, and by way of the sparse
index: which of the blocks that meet the range the index leaves out.
-/

namespace Htap.Read

open Storage SSTable ByteFormat Words

namespace LinearRowBlockSelector

def intersects (block : RowBlockMeta) (range : KeyRange) : Bool :=
  Read.intersects block.minKey block.maxKey range

def selectBlocks (blocks : List RowBlockMeta) (range : KeyRange) : List RowBlockMeta :=
  blocks.filter fun block => intersects block range

end LinearRowBlockSelector

namespace LinearColumnBlockSelector

def intersects (block : ColumnBlockMeta) (range : KeyRange) : Bool :=
  Read.intersects block.minKey block.maxKey range

def selectBlocks (blocks : List ColumnBlockMeta) (range : KeyRange) : List ColumnBlockMeta :=
  blocks.filter fun block => intersects block range

end LinearColumnBlockSelector

/-! ## The window -/

section Window

variable {blocks : List KeyBounds} {index : List SparseIndexEntry}

theorem key_le_of_later (h : Ascending blocks) {i j : Nat} {a b : KeyBounds}
    (hi : blocks[i]? = some a) (hj : blocks[j]? = some b) (hij : i < j) : a.maxKey ≤ b.minKey := by
  obtain ⟨hi1, hi2⟩ := List.getElem?_eq_some_iff.mp hi
  obtain ⟨hj1, hj2⟩ := List.getElem?_eq_some_iff.mp hj
  have hcross := List.pairwise_iff_getElem.mp h.sorted i j hi1 hj1 hij
  rwa [hi2, hj2] at hcross

/-- Later entries of the index are of later blocks. -/
theorem pairwise_blockId_candidatesOf (hfew : blocks.length < 2 ^ 32) :
    (candidatesOf blocks).Pairwise fun a b => a.blockId < b.blockId := by
  have hids := List.pairwise_lt_range (n := blocks.length)
  rwa [← ids_candidatesOf hfew, List.pairwise_map] at hids

/-- An entry with no greater key lies no further than the last such entry. -/
theorem le_firstIndexedBlock (hsorted : index.Pairwise fun a b => a.minKey ≤ b.minKey)
    (hids : index.Pairwise fun a b => a.blockId < b.blockId) {entry : SparseIndexEntry}
    (hentry : entry ∈ index) {key : Key} (hle : entry.minKey ≤ key) :
    entry.blockId ≤ firstIndexedBlock index key := by
  have hmem : entry ∈ index.takeWhile fun entry => decide (entry.minKey ≤ key) := by
    induction index with
    | nil => cases hentry
    | cons first rest ih =>
      have hfirst : first.minKey ≤ key := by
        rcases List.mem_cons.mp hentry with rfl | hrest
        · exact hle
        · exact (List.rel_of_pairwise_cons hsorted hrest).trans hle
      rw [List.takeWhile_cons_of_pos (by simpa using hfirst)]
      rcases List.mem_cons.mp hentry with rfl | hrest
      · exact List.mem_cons_self
      · exact List.mem_cons_of_mem _ (ih hsorted.of_cons hids.of_cons hrest)
  have hids := hids.sublist (List.takeWhile_sublist fun entry => decide (entry.minKey ≤ key))
  unfold firstIndexedBlock
  generalize index.takeWhile (fun entry => decide (entry.minKey ≤ key)) = taken at hmem hids
  obtain ⟨front, last, rfl⟩ :=
    (List.eq_nil_or_concat' taken).resolve_left (List.ne_nil_of_mem hmem)
  rw [List.getLast?_concat, Option.map_some, Option.getD_some]
  rcases List.mem_append.mp hmem with hfront | hlast
  · exact ((List.pairwise_append.mp hids).2.2 entry hfront last (List.mem_singleton_self last)).le
  · rw [List.mem_singleton.mp hlast]

/-- A block that ends with the lower bound of the range, and begins before its upper
bound, while a later block that the index knows begins with the lower bound. -/
def RunCut (index : List SparseIndexEntry) (range : KeyRange) (block : BlockRecord) : Prop :=
  ∃ entry ∈ index, range.fromKey = some entry.minKey ∧ block.keys.maxKey = entry.minKey ∧
    block.blockId < entry.blockId ∧ ∀ t ∈ range.toKey, block.keys.minKey < t

theorem intersects_iff {minKey maxKey : Key} {range : KeyRange} :
    intersects minKey maxKey range = true ↔
      (∀ f ∈ range.fromKey, f ≤ maxKey) ∧ ∀ t ∈ range.toKey, minKey < t := by
  obtain ⟨fromKey, toKey⟩ := range
  unfold intersects
  cases fromKey <;> cases toKey <;> simp [Option.any]

theorem RunCut.intersects {range : KeyRange} {block : BlockRecord}
    (h : RunCut index range block) :
    intersects block.keys.minKey block.keys.maxKey range = true := by
  obtain ⟨entry, -, hlower, hends, -, hupper⟩ := h
  refine intersects_iff.mpr ⟨?_, hupper⟩
  intro f hf
  rw [Option.mem_def.mp hf] at hlower
  rw [Option.some.inj hlower, hends]

/-- The blocks the window leaves out are those that end with the lower bound while the
index enters at a later block that begins with it. -/
theorem exists_window (h : Ascending blocks) (hne : blocks ≠ []) (hfew : blocks.length < 2 ^ 32)
    (hindex : index.Sublist (candidatesOf blocks)) (range : KeyRange) :
    ∃ window, selectMetadataRange index range blocks.length = .ok window ∧
      window.firstBlockId + window.blockCount ≤ blocks.length ∧
      ∀ i k, blocks[i]? = some k → intersects k.minKey k.maxKey range = true →
        ((i < window.firstBlockId ∨ window.firstBlockId + window.blockCount ≤ i) ↔
          RunCut index range ⟨i, k⟩) := by
  have hknown : ∀ entry ∈ index, ∃ k, blocks[entry.blockId]? = some k ∧
      entry.minKey = k.minKey :=
    fun entry hentry => mem_candidatesOf hfew (hindex.mem hentry)
  have hids : ∀ entry ∈ index, entry.blockId < blocks.length := by
    intro entry hentry
    obtain ⟨k, hget, -⟩ := hknown entry hentry
    exact (List.getElem?_eq_some_iff.mp hget).1
  have hsorted := h.sorted_candidatesOf.sublist hindex
  have hordered := (pairwise_blockId_candidatesOf hfew).sublist hindex
  have hpos := List.length_pos_of_ne_nil hne
  have hfirst : (range.fromKey.map (firstIndexedBlock index)).getD 0 ≤ blocks.length ∧
      ∀ i k, blocks[i]? = some k → intersects k.minKey k.maxKey range = true →
        i < (range.fromKey.map (firstIndexedBlock index)).getD 0 → RunCut index range ⟨i, k⟩ := by
    cases hfrom : range.fromKey with
    | none => exact ⟨Nat.zero_le _, fun i k _ _ hlt => absurd hlt (Nat.not_lt_zero i)⟩
    | some f =>
      rw [Option.map_some, Option.getD_some]
      rcases firstIndexedBlock_cases index f with hzero | ⟨entry, hmem, hle, heq⟩
      · rw [hzero]
        exact ⟨Nat.zero_le _, fun i k _ _ hlt => absurd hlt (Nat.not_lt_zero i)⟩
      rw [heq]
      refine ⟨(hids entry hmem).le, ?_⟩
      intro i k hget hmeets hlt
      obtain ⟨entered, hentered, hmin⟩ := hknown entry hmem
      obtain ⟨hlower, hupper⟩ := intersects_iff.mp hmeets
      have hends := key_le_of_later h hget hentered hlt
      have hlower := hlower f hfrom
      have hsame : k.maxKey = entry.minKey := le_antisymm (hends.trans hmin.ge) (hle.trans hlower)
      have hbound : f = entry.minKey := le_antisymm (hlower.trans hsame.le) hle
      exact ⟨entry, hmem, hfrom.trans (congrArg some hbound), hsame, hlt, hupper⟩
  have hlast : ((range.toKey.bind (endIndexedEntry index)).map SparseIndexEntry.blockId).getD
        blocks.length ≤ blocks.length ∧
      ∀ i k, blocks[i]? = some k → intersects k.minKey k.maxKey range = true →
        ¬ ((range.toKey.bind (endIndexedEntry index)).map SparseIndexEntry.blockId).getD
          blocks.length ≤ i := by
    cases hend : range.toKey.bind (endIndexedEntry index) with
    | none => exact ⟨le_rfl, fun i k hget _ => not_le.mpr (List.getElem?_eq_some_iff.mp hget).1⟩
    | some entry =>
      obtain ⟨t, hto, hentry⟩ := Option.bind_eq_some_iff.mp hend
      obtain ⟨hmem, hge⟩ := of_endIndexedEntry hentry
      obtain ⟨left, hleft, hmin⟩ := hknown entry hmem
      refine ⟨(hids entry hmem).le, ?_⟩
      intro i k hget hmeets hle
      have hle : entry.blockId ≤ i := hle
      have hupper := (intersects_iff.mp hmeets).2 t hto
      have hreaches : entry.minKey ≤ k.minKey := by
        rcases Nat.eq_or_lt_of_le hle with rfl | hlt
        · rw [hmin, Option.some.inj (hleft.symm.trans hget)]
        · have hbounds := h.bounds left (List.mem_of_getElem? hleft)
          exact hmin.le.trans (hbounds.trans (key_le_of_later h hleft hget hlt))
      exact absurd (hge.trans hreaches) (not_le.mpr hupper)
  refine ⟨_, selectMetadataRange_eq hpos hids range, blockWindow_le hfirst.1 hlast.1, ?_⟩
  intro i k hget hmeets
  constructor
  · intro houtside
    rcases outside_blockWindow houtside with hbelow | habove
    · exact hfirst.2 i k hget hmeets hbelow
    · exact absurd habove (hlast.2 i k hget hmeets)
  · rintro ⟨entry, hentry, hlower, -, hlater, -⟩
    left
    rw [blockWindow_firstBlockId, hlower, Option.map_some, Option.getD_some]
    exact hlater.trans_le (le_firstIndexedBlock hsorted hordered hentry le_rfl)

end Window

/-! ## Records of a window -/

section Records

variable {α : Type} {record : α → BlockRecord} {size : Nat} {blocks : List KeyBounds}

private theorem filter_eq_nil_iff (hsize : 0 < size) {metas : List α}
    {numbered : List (KeyBounds × Nat)}
    (hrecords : metas.map record =
      numbered.flatMap fun k => List.replicate size ⟨u32 k.2, k.1⟩) (p : KeyBounds → Bool) :
    (metas.filter fun m => p (record m).keys) = [] ↔ ∀ k ∈ numbered, p k.1 = false := by
  have hmapped : (metas.filter fun m => p (record m).keys) = [] ↔
      ∀ r ∈ metas.map record, p r.keys = false := by
    rw [List.filter_eq_nil_iff, List.forall_mem_map]
    exact forall₂_congr fun m _ => iff_of_eq (Bool.not_eq_true _)
  rw [hmapped, hrecords]
  constructor
  · intro h k hk
    exact h _ (List.mem_flatMap.mpr ⟨k, hk, List.mem_replicate.mpr ⟨hsize.ne', rfl⟩⟩)
  · intro h r hr
    obtain ⟨k, hk, hmem⟩ := List.mem_flatMap.mp hr
    rw [(List.mem_replicate.mp hmem).2]
    exact h k hk

private theorem mem_take_zipIdx {first i : Nat} {k : KeyBounds} :
    (k, i) ∈ blocks.zipIdx.take first ↔ blocks[i]? = some k ∧ i < first := by
  simp only [List.mem_iff_getElem?, List.getElem?_take, List.getElem?_zipIdx, Nat.zero_add]
  grind

private theorem mem_drop_zipIdx {first i : Nat} {k : KeyBounds} :
    (k, i) ∈ blocks.zipIdx.drop first ↔ blocks[i]? = some k ∧ first ≤ i := by
  rw [List.mem_iff_getElem?]
  constructor
  · rintro ⟨j, hj⟩
    rw [List.getElem?_drop, List.getElem?_zipIdx, Nat.zero_add] at hj
    obtain ⟨k', hget, heq⟩ := Option.map_eq_some_iff.mp hj
    cases heq
    exact ⟨hget, Nat.le_add_right _ _⟩
  · rintro ⟨hget, hle⟩
    refine ⟨i - first, ?_⟩
    rw [List.getElem?_drop, List.getElem?_zipIdx, Nat.add_sub_cancel' hle, Nat.zero_add, hget]
    rfl

private theorem append_eq_middle_iff {front middle back : List α} :
    front ++ (middle ++ back) = middle ↔ front = [] ∧ back = [] := by
  constructor
  · intro h
    have hlength := congrArg List.length h
    rw [List.length_append, List.length_append] at hlength
    exact ⟨List.length_eq_zero_iff.mp (by omega), List.length_eq_zero_iff.mp (by omega)⟩
  · rintro ⟨rfl, rfl⟩
    rw [List.nil_append, List.append_nil]

/-- Filtering the records of a window keeps what filtering all of them does, where it
leaves out no block the filter would keep. -/
theorem filter_window_eq_iff (hsize : 0 < size) {metas : List α}
    (hrecords : metas.map record = recordsOf size blocks) (first count : Nat)
    (p : KeyBounds → Bool) :
    (metas.filter fun m => p (record m).keys) =
        (((metas.drop (first * size)).take (count * size)).filter fun m => p (record m).keys) ↔
      ∀ i k, blocks[i]? = some k → p k = true → ¬ (i < first ∨ first + count ≤ i) := by
  have hwidth : ∀ k ∈ blocks.zipIdx,
      (List.replicate size (⟨u32 k.2, k.1⟩ : BlockRecord)).length = size :=
    fun k _ => List.length_replicate
  have hfront : (metas.take (first * size)).map record =
      (blocks.zipIdx.take first).flatMap fun k => List.replicate size ⟨u32 k.2, k.1⟩ := by
    rw [List.map_take, hrecords, recordsOf, take_records _ hwidth]
  have hback : (metas.drop ((first + count) * size)).map record =
      (blocks.zipIdx.drop (first + count)).flatMap fun k =>
        List.replicate size ⟨u32 k.2, k.1⟩ := by
    rw [List.map_drop, hrecords, recordsOf, drop_records _ hwidth]
  have hsplit : metas = metas.take (first * size) ++
      ((metas.drop (first * size)).take (count * size) ++
        metas.drop ((first + count) * size)) := by
    rw [Nat.add_mul, ← List.drop_drop, List.take_append_drop, List.take_append_drop]
  conv_lhs => lhs; rw [hsplit]
  rw [List.filter_append, List.filter_append, append_eq_middle_iff,
    filter_eq_nil_iff hsize hfront, filter_eq_nil_iff hsize hback]
  constructor
  · rintro ⟨hbelow, habove⟩ i k hget hp houtside
    have hnot : p k = false := houtside.elim
      (fun hlt => hbelow _ (mem_take_zipIdx.mpr ⟨hget, hlt⟩))
      fun hle => habove _ (mem_drop_zipIdx.mpr ⟨hget, hle⟩)
    rw [hp] at hnot
    cases hnot
  · intro h
    constructor
    · rintro ⟨k, i⟩ hmem
      obtain ⟨hget, hlt⟩ := mem_take_zipIdx.mp hmem
      exact Bool.eq_false_iff.mpr fun hp => h i k hget hp (Or.inl hlt)
    · rintro ⟨k, i⟩ hmem
      obtain ⟨hget, hle⟩ := mem_drop_zipIdx.mp hmem
      exact Bool.eq_false_iff.mpr fun hp => h i k hget hp (Or.inr hle)

end Records

end Htap.Read
