import Mathlib

/-!
Stable merging of sorted sources. The result of merging sources in index order
is the stable sort of their concatenation, and the step of a merge, taking the
head of the first source with the least key, takes the head of that sort.
-/

namespace Merging

variable {α κ : Type*} [LinearOrder κ] (key : α → κ)

/-- Non-decreasing keys. -/
def SortedBy (items : List α) : Prop := items.Pairwise fun a b => key a ≤ key b

/-- Sort by key; items with equal keys keep their order. -/
def stableSort (items : List α) : List α := items.insertionSort fun a b => key a ≤ key b

theorem stableSort_perm (items : List α) : (stableSort key items).Perm items :=
  List.perm_insertionSort _ items

theorem sortedBy_stableSort (items : List α) : SortedBy key (stableSort key items) := by
  have : Std.Total (fun a b : α => key a ≤ key b) := ⟨fun a b => le_total (key a) (key b)⟩
  have : IsTrans α (fun a b => key a ≤ key b) := ⟨fun _ _ _ => le_trans⟩
  exact List.pairwise_insertionSort _ items

theorem stableSort_of_sortedBy {items : List α} (h : SortedBy key items) :
    stableSort key items = items :=
  List.Pairwise.insertionSort_eq h

/-- The item that comes first: below everything before it, no greater than
anything after it. -/
theorem stableSort_extract (before after : List α) (x : α)
    (hbefore : ∀ a ∈ before, key x < key a) (hafter : ∀ a ∈ after, key x ≤ key a) :
    stableSort key (before ++ x :: after) = x :: stableSort key (before ++ after) := by
  induction before with
  | nil => exact List.insertionSort_cons_of_forall_rel _ hafter
  | cons a before ih =>
    have hrest := ih fun b hb => hbefore b (List.mem_cons_of_mem a hb)
    have hlt := hbefore a List.mem_cons_self
    unfold stableSort at hrest ⊢
    rw [List.cons_append, List.insertionSort_cons, hrest,
      List.orderedInsert_cons, if_neg (not_le.mpr hlt), List.cons_append,
      List.insertionSort_cons]

/-- The head of source `i` precedes the heads of all sources: a smaller source
index wins among equal keys. -/
def HeadFirst (sources : List (List α)) (i : Nat) (x : α) : Prop :=
  ∀ j y ys, sources[j]? = some (y :: ys) → key x < key y ∨ (key x = key y ∧ i ≤ j)

private theorem key_le_of_mem_source {sources : List (List α)} {x : α} {i : Nat}
    (hsorted : ∀ source ∈ sources, SortedBy key source) (hfirst : HeadFirst key sources i x)
    {j : Nat} {source : List α} (hj : sources[j]? = some source) {a : α} (ha : a ∈ source) :
    key x ≤ key a ∧ (j < i → key x < key a) := by
  cases source with
  | nil => simp at ha
  | cons y ys =>
    have hhead := hfirst j y ys hj
    have hya : key y ≤ key a := by
      rcases List.mem_cons.mp ha with rfl | h
      · exact le_rfl
      · exact (List.pairwise_cons.mp (hsorted _ (List.mem_of_getElem? hj))).1 a h
    constructor
    · rcases hhead with h | h
      · exact h.le.trans hya
      · exact h.1.le.trans hya
    · intro hji
      rcases hhead with h | h
      · exact h.trans_le hya
      · omega

/-- One merge step: pop the first head and merge what is left. -/
theorem stableSort_flatten_pop (sources : List (List α)) (i : Nat) (x : α) (rest : List α)
    (hsorted : ∀ source ∈ sources, SortedBy key source)
    (hi : sources[i]? = some (x :: rest)) (hfirst : HeadFirst key sources i x) :
    stableSort key sources.flatten = x :: stableSort key (sources.set i rest).flatten := by
  obtain ⟨hlt, hget⟩ := List.getElem?_eq_some_iff.mp hi
  have hsplit : sources.flatten =
      (sources.take i).flatten ++ x :: (rest ++ (sources.drop (i + 1)).flatten) := by
    conv_lhs => rw [← List.take_append_drop i sources]
    rw [List.flatten_append, List.drop_eq_getElem_cons hlt, hget, List.flatten_cons]
    simp
  have hset : (sources.set i rest).flatten =
      (sources.take i).flatten ++ (rest ++ (sources.drop (i + 1)).flatten) := by
    rw [List.set_eq_take_append_cons_drop, if_pos hlt, List.flatten_append, List.flatten_cons]
  rw [hsplit, hset]
  apply stableSort_extract
  · intro a ha
    obtain ⟨source, hsource, hmem⟩ := List.mem_flatten.mp ha
    obtain ⟨j, hj, rfl⟩ := List.mem_iff_getElem.mp hsource
    have hji : j < i := by
      rw [List.length_take] at hj
      omega
    have hsj : sources[j]? = some ((sources.take i)[j]) := by
      rw [List.getElem_take]
      exact List.getElem?_eq_getElem _
    exact (key_le_of_mem_source key hsorted hfirst hsj hmem).2 hji
  · intro a ha
    rcases List.mem_append.mp ha with h | h
    · exact (key_le_of_mem_source key hsorted hfirst hi (List.mem_cons_of_mem x h)).1
    · obtain ⟨source, hsource, hmem⟩ := List.mem_flatten.mp h
      obtain ⟨j, hj, rfl⟩ := List.mem_iff_getElem.mp hsource
      have hsj : sources[i + 1 + j]? = some ((sources.drop (i + 1))[j]) := by
        rw [List.getElem_drop]
        exact List.getElem?_eq_getElem _
      exact (key_le_of_mem_source key hsorted hfirst hsj hmem).1

theorem sortedBy_set (sources : List (List α)) (i : Nat) (x : α) (rest : List α)
    (hsorted : ∀ source ∈ sources, SortedBy key source)
    (hi : sources[i]? = some (x :: rest)) :
    ∀ source ∈ sources.set i rest, SortedBy key source := by
  intro source hsource
  rcases List.mem_or_eq_of_mem_set hsource with h | rfl
  · exact hsorted source h
  · exact (List.pairwise_cons.mp (hsorted _ (List.mem_of_getElem? hi))).2

/-! ## The heap of a merge -/

/-- Heap items are the key of a source's head and the index of the source. -/
def ItemLe (a b : κ × ℕ) : Prop := a.1 < b.1 ∨ (a.1 = b.1 ∧ a.2 ≤ b.2)

instance : DecidableRel (@ItemLe κ _) := fun _ _ => inferInstanceAs (Decidable (_ ∨ _))

instance : Std.Total (@ItemLe κ _) where
  total a b := by
    unfold ItemLe
    rcases lt_trichotomy a.1 b.1 with h | h | h
    · exact Or.inl (Or.inl h)
    · rcases Nat.le_total a.2 b.2 with hle | hle
      · exact Or.inl (Or.inr ⟨h, hle⟩)
      · exact Or.inr (Or.inr ⟨h.symm, hle⟩)
    · exact Or.inr (Or.inl h)

instance : IsTrans (κ × ℕ) ItemLe where
  trans a b c hab hbc := by
    unfold ItemLe at *
    rcases hab with hab | hab <;> rcases hbc with hbc | hbc
    · exact Or.inl (hab.trans hbc)
    · exact Or.inl (hbc.1 ▸ hab)
    · exact Or.inl (hab.1 ▸ hbc)
    · exact Or.inr ⟨hab.1.trans hbc.1, hab.2.trans hbc.2⟩

/-- A priority queue, kept as the sorted list of its items. -/
def push (heap : List (κ × ℕ)) (item : κ × ℕ) : List (κ × ℕ) := heap.orderedInsert ItemLe item

/-- The heap holds one item for every source with a head. -/
structure HeapOf (heads : ℕ → Option κ) (heap : List (κ × ℕ)) : Prop where
  sorted : heap.Pairwise ItemLe
  nodup : (heap.map Prod.snd).Nodup
  mem_iff : ∀ k i, (k, i) ∈ heap ↔ heads i = some k

namespace HeapOf

variable {heads : ℕ → Option κ} {heap : List (κ × ℕ)}

theorem nil : HeapOf (fun _ => (none : Option κ)) [] := ⟨List.Pairwise.nil, List.nodup_nil, by simp⟩

theorem push (h : HeapOf heads heap) {i : ℕ} (hi : heads i = none) (k : κ) :
    HeapOf (Function.update heads i (some k)) (Merging.push heap (k, i)) where
  sorted := h.sorted.orderedInsert _ _
  nodup := by
    have hperm := (List.perm_orderedInsert ItemLe (k, i) heap).map Prod.snd
    rw [Merging.push, hperm.nodup_iff, List.map_cons, List.nodup_cons]
    refine ⟨?_, h.nodup⟩
    intro hmem
    obtain ⟨item, hitem, rfl⟩ := List.mem_map.mp hmem
    have hhead := (h.mem_iff item.1 item.2).mp hitem
    simp [hi] at hhead
  mem_iff := by
    intro k' j
    rw [Merging.push, List.mem_orderedInsert, Function.update_apply]
    by_cases hj : j = i
    · subst hj
      have hnot : (k', j) ∉ heap := fun hmem => by simp [(h.mem_iff k' j).mp hmem] at hi
      simp [hnot, eq_comm]
    · simp [hj, h.mem_iff]

theorem pop {k : κ} {i : ℕ} (h : HeapOf heads ((k, i) :: heap)) :
    HeapOf (Function.update heads i none) heap where
  sorted := (List.pairwise_cons.mp h.sorted).2
  nodup := (List.nodup_cons.mp h.nodup).2
  mem_iff := by
    intro k' j
    rw [Function.update_apply]
    by_cases hj : j = i
    · subst hj
      have hfresh := (List.nodup_cons.mp h.nodup).1
      have hnot : (k', j) ∉ heap := fun hmem => hfresh (List.mem_map.mpr ⟨_, hmem, rfl⟩)
      simp [hnot]
    · have hmem := h.mem_iff k' j
      rw [List.mem_cons, Prod.mk.injEq] at hmem
      simpa [hj] using hmem

end HeapOf

/-- The key at the head of source `i`. -/
def headKey (sources : List (List α)) (i : ℕ) : Option κ :=
  (sources[i]?.bind List.head?).map key

omit [LinearOrder κ] in
theorem headKey_set {sources : List (List α)} {i : ℕ} (hi : i < sources.length) (rest : List α) :
    headKey key (sources.set i rest) =
      Function.update (headKey key sources) i (rest.head?.map key) := by
  funext j
  rw [Function.update_apply]
  by_cases hj : j = i
  · subst hj
    simp [headKey, List.getElem?_set_self hi]
  · rw [if_neg hj, headKey, List.getElem?_set_ne (Ne.symm hj), headKey]

/-- The top of the heap is the head a merge takes next. -/
theorem HeapOf.headFirst {sources : List (List α)} {heap : List (κ × ℕ)} {k : κ} {i : ℕ}
    (h : HeapOf (headKey key sources) ((k, i) :: heap)) :
    ∃ x rest, sources[i]? = some (x :: rest) ∧ key x = k ∧ HeadFirst key sources i x := by
  have htop := (h.mem_iff k i).mp List.mem_cons_self
  obtain ⟨x, hx, rfl⟩ := Option.map_eq_some_iff.mp htop
  obtain ⟨source, hsource, hhead⟩ := Option.bind_eq_some_iff.mp hx
  obtain ⟨rest, rfl⟩ := List.head?_eq_some_iff.mp hhead
  refine ⟨x, rest, hsource, rfl, ?_⟩
  intro j y ys hj
  have hmem : (key y, j) ∈ (key x, i) :: heap := (h.mem_iff _ _).mpr (by simp [headKey, hj])
  rcases List.mem_cons.mp hmem with heq | hin
  · rw [Prod.mk.injEq] at heq
    exact Or.inr ⟨heq.1.symm, heq.2.ge⟩
  · exact (List.pairwise_cons.mp h.sorted).1 _ hin

/-- An empty heap means that nothing is left to merge. -/
theorem HeapOf.flatten_eq_nil {sources : List (List α)}
    (h : HeapOf (headKey key sources) []) : sources.flatten = [] := by
  rw [List.flatten_eq_nil_iff]
  intro source hsource
  obtain ⟨i, hi⟩ := List.mem_iff_getElem?.mp hsource
  cases source with
  | nil => rfl
  | cons x rest =>
    have hmem : (key x, i) ∈ ([] : List (κ × ℕ)) := (h.mem_iff _ _).mpr (by simp [headKey, hi])
    cases hmem

/-! ## What a merge gives -/

/-- `out` merges the sources: each item is marked with the index of its source.
Keys do not decrease, items with equal keys come in the order of their sources,
and the items of a source come in their own order. -/
structure IsStableMerge (sources : List (List α)) (out : List (ℕ × α)) : Prop where
  sorted : out.Pairwise fun a b => ItemLe (key a.2, a.1) (key b.2, b.1)
  source : ∀ i, (out.filter fun item => item.1 = i).map Prod.snd = sources.getD i []

namespace IsStableMerge

variable {key} {sources : List (List α)} {out : List (ℕ × α)}

theorem mem_source (h : IsStableMerge key sources out) {i : ℕ} {x : α} (hx : (i, x) ∈ out) :
    ∃ source, sources[i]? = some source ∧ x ∈ source := by
  have hmem : x ∈ sources.getD i [] := by
    rw [← h.source i]
    exact List.mem_map.mpr ⟨(i, x), List.mem_filter.mpr ⟨hx, by simp⟩, rfl⟩
  rw [List.getD_eq_getElem?_getD] at hmem
  cases hget : sources[i]? with
  | none => simp [hget] at hmem
  | some source => exact ⟨source, rfl, by simpa [hget] using hmem⟩

theorem nil (h : sources.flatten = []) : IsStableMerge key sources [] where
  sorted := List.Pairwise.nil
  source := by
    intro i
    rw [List.getD_eq_getElem?_getD]
    cases hget : sources[i]? with
    | none => rfl
    | some source =>
      exact (List.flatten_eq_nil_iff.mp h source (List.mem_of_getElem? hget)).symm

/-- The head that comes first goes in front of a merge of what is left. -/
theorem cons {i : ℕ} {x : α} {rest : List α}
    (hsorted : ∀ source ∈ sources, SortedBy key source)
    (hi : sources[i]? = some (x :: rest)) (hfirst : HeadFirst key sources i x)
    (h : IsStableMerge key (sources.set i rest) out) :
    IsStableMerge key sources ((i, x) :: out) where
  sorted := by
    refine List.pairwise_cons.mpr ⟨?_, h.sorted⟩
    rintro ⟨j, y⟩ hy
    obtain ⟨source, hsource, hmem⟩ := h.mem_source hy
    obtain ⟨hlt, -⟩ := List.getElem?_eq_some_iff.mp hi
    by_cases hj : j = i
    · subst hj
      rw [List.getElem?_set_self hlt, Option.some.injEq] at hsource
      subst hsource
      have hle := (List.pairwise_cons.mp (hsorted _ (List.mem_of_getElem? hi))).1 y hmem
      exact hle.lt_or_eq.imp_right fun heq => ⟨heq, le_rfl⟩
    · rw [List.getElem?_set_ne (Ne.symm hj)] at hsource
      obtain ⟨hle, hbefore⟩ := key_le_of_mem_source key hsorted hfirst hsource hmem
      rcases lt_or_gt_of_ne hj with hji | hij
      · exact Or.inl (hbefore hji)
      · exact hle.lt_or_eq.imp_right fun heq => ⟨heq, hij.le⟩
  source := by
    intro j
    obtain ⟨hlt, -⟩ := List.getElem?_eq_some_iff.mp hi
    have hrest := h.source j
    rw [List.getD_eq_getElem?_getD] at hrest ⊢
    by_cases hj : j = i
    · subst hj
      rw [List.getElem?_set_self hlt, Option.getD_some] at hrest
      rw [List.filter_cons_of_pos (by simp), List.map_cons, hrest, hi, Option.getD_some]
    · rw [List.getElem?_set_ne (Ne.symm hj)] at hrest
      rw [List.filter_cons_of_neg (by simpa using Ne.symm hj), hrest]

end IsStableMerge

end Merging
