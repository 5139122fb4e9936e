import Htap.Cursor.Truthful

/-!
The cursor behind the row a composed cursor stands on. In a merge it is the one at the top
of the heap, whose item was pushed when it got to its row.
-/

namespace Htap.Cursor

open Storage Read

namespace ScanCursor

variable {c c' : ScanCursor} {w w' : World}

/-- Moving a cursor on does not change the memory. -/
theorem next_sameMemory (h : ICursor.next c w = .ok (c', w')) : SameMemory w w' := by
  cases c with
  | activeMemTable c =>
    obtain ⟨⟨moved, w₁⟩, hmoved, h⟩ := Result.bind_eq_ok.mp h
    cases h
    simp only [ICursor.next] at hmoved
    split at hmoved
    · cases hmoved
      exact SameMemory.refl w
    · obtain ⟨entry, -, hmoved⟩ := Result.bind_eq_ok.mp hmoved
      cases hmoved
      exact SameMemory.refl w
  | immutableMemTable c =>
    obtain ⟨⟨moved, w₁⟩, hmoved, h⟩ := Result.bind_eq_ok.mp h
    cases h
    simp only [ICursor.next] at hmoved
    split at hmoved
    · cases hmoved
      exact SameMemory.refl w
    · cases hmoved
      exact SameMemory.refl w
  | sstableRow c =>
    obtain ⟨⟨moved, w₁⟩, hmoved, h⟩ := Result.bind_eq_ok.mp h
    cases h
    obtain ⟨⟨scan, cache⟩, -, hmoved⟩ := Result.bind_eq_ok.mp hmoved
    cases hmoved
    exact ⟨rfl, rfl⟩
  | sstableColumn c =>
    obtain ⟨⟨moved, w₁⟩, hmoved, h⟩ := Result.bind_eq_ok.mp h
    cases h
    obtain ⟨⟨scan, cache⟩, -, hmoved⟩ := Result.bind_eq_ok.mp hmoved
    cases hmoved
    exact ⟨rfl, rfl⟩

/-- The key of a cursor is read from the memory or from the cursor itself. -/
theorem key_of_sameMemory (c : ScanCursor) (h : SameMemory w w') :
    ICursor.key c w' = ICursor.key c w := by
  cases c with
  | activeMemTable c =>
    simp only [ICursor.key, ActiveMemTableCursor.entry, h.1, h.2]
  | immutableMemTable c => rfl
  | sstableRow c => rfl
  | sstableColumn c => rfl

end ScanCursor

namespace ComposedCursor

variable {α : Type} [ICursor α]

/-- The cursor that `value()` asks. -/
def current : ComposedCursor α → Option α
  | .empty _ => none
  | .single c => some c
  | .chain c => c.cursors[c.current]?
  | .merge c => c.heap.head?.bind fun top => c.cursors[top.2]?

/-- The heap of a merge has one item for a cursor at most, with the key the cursor has. -/
def Keyed (w : World) : ComposedCursor α → Prop
  | .empty _ | .single _ | .chain _ => True
  | .merge c => (c.heap.map Prod.snd).Nodup ∧ ∀ item ∈ c.heap, ∃ cursor,
      c.cursors[item.2]? = some cursor ∧ ICursor.key cursor w = .ok item.1

/-- Where a composed cursor has a row, the cursor behind it has the same row. -/
theorem exists_current {c : ComposedCursor α} {w : World} (hkeyed : c.Keyed w) {k : Key}
    (hrow : ICursor.key c w = .ok k) : ∃ leaf ∈ c.leaves, c.current = some leaf ∧
      ICursor.key leaf w = .ok k ∧ ICursor.value c w = ICursor.value leaf w := by
  cases c with
  | empty c => cases hrow
  | single c => exact ⟨c, List.mem_singleton_self c, rfl, hrow, rfl⟩
  | chain c =>
    cases hget : c.cursors[c.current]? with
    | none =>
      simp only [ICursor.key, hget] at hrow
      cases hrow
    | some leaf =>
      simp only [ICursor.key, hget] at hrow
      split at hrow
      · cases hrow
      · rename_i hvalid
        refine ⟨leaf, List.mem_of_getElem? hget, hget, hrow, ?_⟩
        funext i
        simp only [ICursor.value, hget, if_neg hvalid]
  | merge c =>
    obtain ⟨cursors, heap⟩ := c
    cases heap with
    | nil => cases hrow
    | cons top heap =>
      cases hrow
      obtain ⟨leaf, hget, hkey⟩ := hkeyed.2 top List.mem_cons_self
      refine ⟨leaf, List.mem_of_getElem? hget, hget, hkey, ?_⟩
      funext i
      simp only [ICursor.value, hget]

/-! ### The keys in the heap -/

section

variable {cursors : List α} {w : World} {heap heap' : List (Key × Nat)}

private theorem keyed_pushIfValid {i : Nat} (hfresh : i ∉ heap.map Prod.snd)
    (hkeyed : Keyed w (.merge ⟨cursors, heap⟩))
    (h : MergeCursor.pushIfValid cursors w heap i = .ok heap') :
    Keyed w (.merge ⟨cursors, heap'⟩) ∧ heap'.map Prod.snd ⊆ i :: heap.map Prod.snd := by
  unfold MergeCursor.pushIfValid at h
  split at h
  · cases h
    exact ⟨hkeyed, List.subset_cons_self _ _⟩
  rename_i cursor hget
  split at h
  · obtain ⟨key, hkey, h⟩ := Result.bind_eq_ok.mp h
    cases h
    have hperm : (Merging.push heap (key, i)).Perm ((key, i) :: heap) :=
      List.perm_orderedInsert _ _ _
    have hindices := hperm.map Prod.snd
    refine ⟨⟨hindices.nodup_iff.mpr (List.nodup_cons.mpr ⟨hfresh, hkeyed.1⟩), ?_⟩,
      hindices.subset⟩
    intro item hitem
    rcases List.mem_cons.mp (hperm.mem_iff.mp hitem) with rfl | hold
    · exact ⟨cursor, hget, hkey⟩
    · exact hkeyed.2 item hold
  · cases h
    exact ⟨hkeyed, List.subset_cons_self _ _⟩

private theorem keyed_foldlM {indices : List Nat} (hnodup : indices.Nodup)
    (hfresh : ∀ i ∈ indices, i ∉ heap.map Prod.snd) (hkeyed : Keyed w (.merge ⟨cursors, heap⟩))
    (h : indices.foldlM (MergeCursor.pushIfValid cursors w) heap = .ok heap') :
    Keyed w (.merge ⟨cursors, heap'⟩) := by
  induction indices generalizing heap with
  | nil =>
    cases h
    exact hkeyed
  | cons i indices ih =>
    obtain ⟨hi, hrest⟩ := List.nodup_cons.mp hnodup
    rw [List.foldlM_cons] at h
    obtain ⟨pushed, hpush, h⟩ := Result.bind_eq_ok.mp h
    obtain ⟨hpushed, hindices⟩ := keyed_pushIfValid (hfresh i List.mem_cons_self) hkeyed hpush
    apply ih hrest _ hpushed h
    intro j hj hin
    rcases List.mem_cons.mp (hindices hin) with rfl | hold
    · exact hi hj
    · exact hfresh j (List.mem_cons_of_mem i hj) hold

/-- `compose_cursors` builds the heap from the cursors it is given. -/
theorem keyed_composeCursors {order : ScanOrder} {c : ComposedCursor α}
    (h : composeCursors cursors order w = .ok c) : c.Keyed w := by
  unfold composeCursors at h
  split at h
  · cases h
    trivial
  · cases h
    trivial
  · split at h
    · cases h
      trivial
    · obtain ⟨merged, hcreate, h⟩ := Result.bind_eq_ok.mp h
      obtain ⟨heap, hfold, hcreate⟩ := Result.bind_eq_ok.mp hcreate
      cases h
      cases hcreate
      refine keyed_foldlM List.nodup_range (fun _ _ => List.not_mem_nil) ?_ hfold
      exact ⟨List.nodup_nil, fun item hitem => absurd hitem List.not_mem_nil⟩

end

/-- A step of a merge notes the new key of the cursor it moved, and the other keys are
those of before. -/
theorem Keyed.next (hmemory : ∀ (leaf leaf' : α) (w w' : World),
      ICursor.next leaf w = .ok (leaf', w') → SameMemory w w')
    (hstable : ∀ (leaf : α) (w w' : World), SameMemory w w' →
      ICursor.key leaf w' = ICursor.key leaf w)
    {c c' : ComposedCursor α} {w w' : World} (hkeyed : c.Keyed w)
    (h : ICursor.next c w = .ok (c', w')) : c'.Keyed w' := by
  cases c with
  | empty c =>
    cases h
    trivial
  | single c =>
    obtain ⟨⟨leaf, w₁⟩, -, h⟩ := Result.bind_eq_ok.mp h
    cases h
    trivial
  | chain c =>
    obtain ⟨⟨chain, w₁⟩, -, h⟩ := Result.bind_eq_ok.mp h
    cases h
    trivial
  | merge c =>
    obtain ⟨⟨merge, w₁⟩, hmerge, h⟩ := Result.bind_eq_ok.mp h
    cases h
    obtain ⟨cursors, heap⟩ := c
    cases heap with
    | nil =>
      cases hmerge
      exact hkeyed
    | cons top heap =>
      obtain ⟨key, popCursor⟩ := top
      obtain ⟨hnodup, hitems⟩ := hkeyed
      obtain ⟨hfresh, hrest⟩ := List.nodup_cons.mp hnodup
      cases hget : cursors[popCursor]? with
      | none =>
        simp only [ICursor.next, hget] at hmerge
        cases hmerge
      | some cursor =>
        simp only [ICursor.next, hget] at hmerge
        obtain ⟨⟨leaf, w₂⟩, hleaf, hmerge⟩ := Result.bind_eq_ok.mp hmerge
        obtain ⟨heap', hpush, hmerge⟩ := Result.bind_eq_ok.mp hmerge
        cases hmerge
        refine (keyed_pushIfValid hfresh ⟨hrest, ?_⟩ hpush).1
        intro item hitem
        obtain ⟨other, hother, hkey⟩ := hitems item (List.mem_cons_of_mem _ hitem)
        have hindex : item.2 ∈ heap.map Prod.snd := List.mem_map_of_mem hitem
        have hne : popCursor ≠ item.2 := fun heq => hfresh (heq ▸ hindex)
        refine ⟨other, ?_, ?_⟩
        · rw [List.getElem?_set_ne hne]
          exact hother
        · rw [hstable other w _ (hmemory cursor leaf w _ hleaf)]
          exact hkey

end ComposedCursor

end Htap.Cursor
