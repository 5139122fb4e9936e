import Mathlib

/-!
Cutting a stream of items into blocks. A block is closed by the item that
arrives after it became full, so every block but the last is full and no block
is empty. The second half cuts a list at increasing positions and glues the
pieces back together.
-/

namespace Splitting

variable {α : Type*}

/-- Blocks of the stream, given the items `open_` of the block being filled. -/
def splitFrom (full : List α → Bool) (current : List α) : List α → List (List α)
  | [] => if current.isEmpty then [] else [current]
  | item :: items =>
    if !current.isEmpty && full current then
      current :: splitFrom full [item] items
    else
      splitFrom full (current ++ [item]) items

def split (full : List α → Bool) (items : List α) : List (List α) := splitFrom full [] items

theorem flatten_splitFrom (full : List α → Bool) (current items : List α) :
    (splitFrom full current items).flatten = current ++ items := by
  induction items generalizing current with
  | nil =>
    cases current <;> simp [splitFrom]
  | cons item items ih =>
    unfold splitFrom
    split
    · rw [List.flatten_cons, ih]
      simp
    · rw [ih]
      simp

@[simp] theorem flatten_split (full : List α → Bool) (items : List α) :
    (split full items).flatten = items := by
  simp [split, flatten_splitFrom]

theorem ne_nil_of_mem_splitFrom (full : List α → Bool) (current items block : List α)
    (hblock : block ∈ splitFrom full current items) : block ≠ [] := by
  induction items generalizing current with
  | nil =>
    cases current with
    | nil => simp [splitFrom] at hblock
    | cons a as =>
      simp only [splitFrom, List.isEmpty_cons, Bool.false_eq_true, if_false,
        List.mem_singleton] at hblock
      simp [hblock]
  | cons item items ih =>
    unfold splitFrom at hblock
    split at hblock
    · rename_i hclose
      rcases List.mem_cons.mp hblock with rfl | h
      · intro hnil
        simp [hnil] at hclose
      · exact ih _ h
    · exact ih _ hblock

theorem ne_nil_of_mem_split {full : List α → Bool} {items block : List α}
    (hblock : block ∈ split full items) : block ≠ [] :=
  ne_nil_of_mem_splitFrom full [] items block hblock

theorem mem_of_mem_split {full : List α → Bool} {items block : List α}
    (hblock : block ∈ split full items) {item : α} (hitem : item ∈ block) : item ∈ items := by
  have hmem := List.mem_flatten.mpr ⟨block, hblock, hitem⟩
  rwa [flatten_split] at hmem

/-- The block that is being filled is the beginning of one of the blocks. -/
theorem exists_mem_splitFrom (full : List α → Bool) {current : List α} (hne : current ≠ [])
    (items : List α) : ∃ block ∈ splitFrom full current items, current <+: block := by
  induction items generalizing current with
  | nil =>
    have hcurrent : current.isEmpty = false := by simpa using hne
    exact ⟨current, by simp [splitFrom, hcurrent], List.prefix_refl current⟩
  | cons item items ih =>
    unfold splitFrom
    split
    · exact ⟨current, List.mem_cons_self, List.prefix_refl current⟩
    · have hlonger : current ++ [item] ≠ [] := by simp
      obtain ⟨block, hblock, hprefix⟩ := ih hlonger
      exact ⟨block, hblock, (List.prefix_append current [item]).trans hprefix⟩

/-- When one item already fills a block, every item gets its own. -/
theorem splitFrom_singleton (full : List α → Bool) (hfull : ∀ a, full [a] = true)
    (current : α) (items : List α) :
    splitFrom full [current] items = (current :: items).map fun a => [a] := by
  induction items generalizing current with
  | nil => simp [splitFrom]
  | cons item items ih =>
    unfold splitFrom
    simp [hfull, ih]

theorem split_singletons (full : List α → Bool) (hfull : ∀ a, full [a] = true)
    (items : List α) : split full items = items.map fun a => [a] := by
  cases items with
  | nil => rfl
  | cons item items =>
    rw [split, splitFrom]
    simpa using splitFrom_singleton full hfull item items

/-! ## Records that depend on what was written before -/

section MapPrefix

variable {β : Type*}

/-- Apply `f` to each item and the items before it. -/
def mapPrefix (f : List α → α → β) (before : List α) : List α → List β
  | [] => []
  | a :: items => f before a :: mapPrefix f (before ++ [a]) items

@[simp] theorem length_mapPrefix (f : List α → α → β) (before items : List α) :
    (mapPrefix f before items).length = items.length := by
  induction items generalizing before with
  | nil => rfl
  | cons a items ih => simp [mapPrefix, ih]

theorem mapPrefix_append (f : List α → α → β) (before items more : List α) :
    mapPrefix f before (items ++ more) =
      mapPrefix f before items ++ mapPrefix f (before ++ items) more := by
  induction items generalizing before with
  | nil => simp [mapPrefix]
  | cons a items ih => simp [mapPrefix, ih]

theorem getElem?_mapPrefix (f : List α → α → β) (before items : List α) (i : Nat) :
    (mapPrefix f before items)[i]? = items[i]?.map (f (before ++ items.take i)) := by
  induction items generalizing before i with
  | nil => simp [mapPrefix]
  | cons a items ih =>
    cases i with
    | zero => simp [mapPrefix]
    | succ i => simp [mapPrefix, ih]

/-- A record belongs to one item, with all items before it. -/
theorem exists_of_mem_mapPrefix {f : List α → α → β} {before items : List α} {b : β}
    (hb : b ∈ mapPrefix f before items) :
    ∃ earlier a later, items = earlier ++ a :: later ∧ b = f (before ++ earlier) a := by
  induction items generalizing before with
  | nil => simp [mapPrefix] at hb
  | cons a items ih =>
    rcases List.mem_cons.mp hb with rfl | h
    · exact ⟨[], a, items, rfl, by simp⟩
    · obtain ⟨earlier, a', later, rfl, rfl⟩ := ih h
      exact ⟨a :: earlier, a', later, rfl, by simp⟩

end MapPrefix

/-! ## Slices -/

/-- The items from position `first` up to, not including, `last`. -/
def slice (items : List α) (first last : Nat) : List α := (items.drop first).take (last - first)

theorem slice_append_slice (items : List α) {a b c : Nat} (hab : a ≤ b) (hbc : b ≤ c) :
    slice items a b ++ slice items b c = slice items a c := by
  unfold slice
  have hdrop : items.drop b = (items.drop a).drop (b - a) := by
    rw [List.drop_drop]
    congr 1
    omega
  rw [hdrop, ← List.take_add]
  congr 1
  omega

theorem slice_self (items : List α) (a : Nat) : slice items a a = [] := by
  simp [slice]

/-- A slice of a slice, in positions of the whole list. -/
theorem slice_slice (items : List α) {a b x y : Nat} (hax : a ≤ x) (hyb : y ≤ b) :
    slice (slice items a b) (x - a) (y - a) = slice items x y := by
  have hstart : a + (x - a) = x := by omega
  have hcount : min (y - a - (x - a)) (b - a - (x - a)) = y - x := by omega
  rw [slice, slice, slice, List.drop_take, List.take_take, List.drop_drop, hstart, hcount]

theorem length_slice (items : List α) {a b : Nat} (hb : b ≤ items.length) :
    (slice items a b).length = b - a := by
  rw [slice, List.length_take, List.length_drop]
  omega

/-- Pieces cut at increasing positions glue back to the slice they cover. -/
theorem flatMap_slice (items : List α) (cut : Nat → Nat) (hcut : Monotone cut)
    (start count : Nat) :
    (List.range' start count).flatMap (fun i => slice items (cut i) (cut (i + 1))) =
      slice items (cut start) (cut (start + count)) := by
  induction count generalizing start with
  | zero => simp [slice_self]
  | succ count ih =>
    rw [List.range'_succ, List.flatMap_cons, ih,
      slice_append_slice items (hcut (Nat.le_succ start)) (hcut (by omega))]
    congr 2
    omega

end Splitting
