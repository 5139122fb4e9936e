import Htap.Cursor.Factory

/-!
What reading on through a cursor does to the block cache it shares with others,
also when the memory it was opened over has changed since: a cursor of an
SSTable goes on to load true blocks, a cursor of a memtable loads none.
-/

namespace Htap.Cursor

open Storage SSTable Read

/-! ## Cursors inside a composed cursor -/

namespace ComposedCursor

variable {α : Type} [ICursor α]

/-- The cursors a composed cursor reads. -/
def leaves : ComposedCursor α → List α
  | .empty _ => []
  | .single c => [c]
  | .chain c => c.cursors
  | .merge c => c.cursors

theorem leaves_composeCursors {cursors : List α} {order : ScanOrder} {w : World}
    {c : ComposedCursor α} (h : composeCursors cursors order w = .ok c) :
    ∀ leaf ∈ c.leaves, leaf ∈ cursors := by
  have hvalid : ∀ leaf ∈ cursors.filter ICursor.valid, leaf ∈ cursors :=
    fun _ hleaf => List.mem_of_mem_filter hleaf
  unfold composeCursors at h
  split at h
  · cases h
    intro leaf hleaf
    cases hleaf
  · rename_i cursor hfilter
    cases h
    intro leaf hleaf
    exact hvalid leaf (hfilter ▸ hleaf)
  · split at h
    · cases h
      exact hvalid
    · obtain ⟨merged, hcreate, h⟩ := Result.bind_eq_ok.mp h
      obtain ⟨heap, -, hcreate⟩ := Result.bind_eq_ok.mp hcreate
      cases h
      cases hcreate
      exact hvalid

omit [ICursor α] in
/-- Whatever the cursors inside survive, the composed cursor survives. -/
theorem Holds.mono {Leaf Leaf' : World → α → List Row → Prop} {w w' : World}
    {c : ComposedCursor α} {rows : List Row}
    (hleaf : ∀ leaf ∈ c.leaves, ∀ rows, Leaf w leaf rows → Leaf' w' leaf rows)
    (h : Holds Leaf w c rows) : Holds Leaf' w' c rows := by
  cases c with
  | empty c => exact h
  | single c => exact hleaf c (List.mem_singleton_self c) rows h
  | chain c =>
    obtain ⟨sources, hleaves, hrows, hfirst⟩ := h
    refine ⟨sources, forall₂_mono ?_ hleaves, hrows, hfirst⟩
    exact fun leaf rows hmem => hleaf leaf (List.mem_of_mem_drop hmem) rows
  | merge c =>
    obtain ⟨sources, hleaves, hsorted, hheap, hrows⟩ := h
    exact ⟨sources, forall₂_mono (fun leaf rows hmem => hleaf leaf hmem rows) hleaves, hsorted,
      hheap, hrows⟩

variable {Leaf : α → Prop} {State : World → Prop}

omit [ICursor α] in
private theorem forall_mem_set {cursors : List α} {i : Nat} {c : α}
    (hcursors : ∀ leaf ∈ cursors, Leaf leaf) (hc : Leaf c) :
    ∀ leaf ∈ cursors.set i c, Leaf leaf := by
  intro leaf hleaf
  rcases List.mem_or_eq_of_mem_set hleaf with hold | rfl
  · exact hcursors leaf hold
  · exact hc

/-- What a step of every cursor keeps, a step of the composed cursor keeps. -/
theorem next_leaves
    (hstep : ∀ leaf w leaf' w', Leaf leaf → State w → ICursor.next leaf w = .ok (leaf', w') →
      Leaf leaf' ∧ State w')
    {c c' : ComposedCursor α} {w w' : World} (hleaves : ∀ leaf ∈ c.leaves, Leaf leaf)
    (hstate : State w) (hnext : ICursor.next c w = .ok (c', w')) :
    (∀ leaf ∈ c'.leaves, Leaf leaf) ∧ State w' := by
  cases c with
  | empty c =>
    cases hnext
    exact ⟨hleaves, hstate⟩
  | single c =>
    obtain ⟨⟨leaf, w1⟩, hleaf, hnext⟩ := Result.bind_eq_ok.mp hnext
    cases hnext
    obtain ⟨hkept, hstate'⟩ := hstep c w leaf _ (hleaves c (List.mem_singleton_self c)) hstate hleaf
    refine ⟨?_, hstate'⟩
    intro other hother
    rw [List.mem_singleton.mp hother]
    exact hkept
  | chain c =>
    obtain ⟨⟨chain, w1⟩, hchain, hnext⟩ := Result.bind_eq_ok.mp hnext
    cases hnext
    cases hget : c.cursors[c.current]? with
    | none =>
      simp only [ICursor.next, hget] at hchain
      cases hchain
      exact ⟨hleaves, hstate⟩
    | some cursor =>
      simp only [ICursor.next, hget] at hchain
      split at hchain
      · cases hchain
        exact ⟨hleaves, hstate⟩
      · obtain ⟨⟨leaf, w2⟩, hleaf, hchain⟩ := Result.bind_eq_ok.mp hchain
        cases hchain
        obtain ⟨hkept, hstate'⟩ := hstep cursor w leaf _
          (hleaves cursor (List.mem_of_getElem? hget)) hstate hleaf
        exact ⟨forall_mem_set hleaves hkept, hstate'⟩
  | merge c =>
    obtain ⟨⟨merge, w1⟩, hmerge, hnext⟩ := Result.bind_eq_ok.mp hnext
    cases hnext
    obtain ⟨cursors, heap⟩ := c
    cases heap with
    | nil =>
      cases hmerge
      exact ⟨hleaves, hstate⟩
    | cons top heap =>
      obtain ⟨key, popCursor⟩ := top
      cases hget : cursors[popCursor]? with
      | none =>
        simp only [ICursor.next, hget] at hmerge
        cases hmerge
      | some cursor =>
        simp only [ICursor.next, hget] at hmerge
        obtain ⟨⟨leaf, w2⟩, hleaf, hmerge⟩ := Result.bind_eq_ok.mp hmerge
        obtain ⟨heap', -, hmerge⟩ := Result.bind_eq_ok.mp hmerge
        cases hmerge
        obtain ⟨hkept, hstate'⟩ := hstep cursor w leaf _
          (hleaves cursor (List.mem_of_getElem? hget)) hstate hleaf
        exact ⟨forall_mem_set hleaves hkept, hstate'⟩

end ComposedCursor

/-! ## Cursors of a scan -/

namespace ScanCursor

/-- The cursor loads blocks of `contents` only. -/
def Truthful (contents : CacheKey → Option Bytes) : ScanCursor → Prop
  | .activeMemTable _ | .immutableMemTable _ => True
  | .sstableRow c => ∃ schema projection rows,
      SSTableRowCursor.Good schema projection contents c rows
  | .sstableColumn c => ∃ schema projection rows,
      SSTableColumnCursor.Good schema projection contents c rows

theorem truthful_of_holds {schema : Schema} {projection : List Nat}
    {contents : CacheKey → Option Bytes} {w : World} {c : ScanCursor} {rows : List Row}
    (h : Holds schema projection contents w c rows) : Truthful contents c := by
  cases c with
  | activeMemTable c => trivial
  | immutableMemTable c => trivial
  | sstableRow c => exact ⟨schema, projection, rows, h⟩
  | sstableColumn c => exact ⟨schema, projection, rows, h⟩

variable {contents : CacheKey → Option Bytes}

private theorem truthful_next_row {c c' : SSTableRowCursor} {w w' : World}
    (h : Truthful contents (.sstableRow c)) (hcache : CacheCoherent contents w.blockCache)
    (hnext : ICursor.next c w = .ok (c', w')) :
    Truthful contents (.sstableRow c') ∧ CacheCoherent contents w'.blockCache := by
  obtain ⟨schema, projection, rows, hgood⟩ := h
  have hmodel := SSTableRowCursor.model schema projection contents
  cases rows with
  | nil =>
    have hend : c.scan.keys.length ≤ c.scan.index := hgood.scan
    change (c.scan.next _ _ _ _ >>= _) = _ at hnext
    rw [BlockScan.next, if_neg (not_lt.mpr hend)] at hnext
    cases hnext
    exact ⟨⟨schema, projection, [], hgood⟩, hcache⟩
  | cons row rest =>
    obtain ⟨-, -, -, c1, w1, hnext', hcache', -, hrest⟩ := hmodel.row hcache hgood
    rw [hnext'] at hnext
    cases hnext
    exact ⟨⟨schema, projection, rest, hrest⟩, hcache'⟩

private theorem truthful_next_column {c c' : SSTableColumnCursor} {w w' : World}
    (h : Truthful contents (.sstableColumn c)) (hcache : CacheCoherent contents w.blockCache)
    (hnext : ICursor.next c w = .ok (c', w')) :
    Truthful contents (.sstableColumn c') ∧ CacheCoherent contents w'.blockCache := by
  obtain ⟨schema, projection, rows, hgood⟩ := h
  have hmodel := SSTableColumnCursor.model schema projection contents
  cases rows with
  | nil =>
    have hend : c.scan.keys.length ≤ c.scan.index := hgood.scan
    change (c.scan.next _ _ _ _ >>= _) = _ at hnext
    rw [BlockScan.next, if_neg (not_lt.mpr hend)] at hnext
    cases hnext
    exact ⟨⟨schema, projection, [], hgood⟩, hcache⟩
  | cons row rest =>
    obtain ⟨-, -, -, c1, w1, hnext', hcache', -, hrest⟩ := hmodel.row hcache hgood
    rw [hnext'] at hnext
    cases hnext
    exact ⟨⟨schema, projection, rest, hrest⟩, hcache'⟩

/-- Whatever the memory has become, moving a truthful cursor on keeps the cache
truthful. -/
theorem Truthful.next {c c' : ScanCursor} {w w' : World} (h : Truthful contents c)
    (hcache : CacheCoherent contents w.blockCache) (hnext : ICursor.next c w = .ok (c', w')) :
    Truthful contents c' ∧ CacheCoherent contents w'.blockCache := by
  cases c with
  | activeMemTable c =>
    obtain ⟨⟨c1, w1⟩, hleaf, hnext⟩ := Result.bind_eq_ok.mp hnext
    cases hnext
    refine ⟨trivial, ?_⟩
    simp only [ICursor.next] at hleaf
    split at hleaf
    · cases hleaf
      exact hcache
    · obtain ⟨entry, -, hleaf⟩ := Result.bind_eq_ok.mp hleaf
      cases hleaf
      exact hcache
  | immutableMemTable c =>
    obtain ⟨⟨c1, w1⟩, hleaf, hnext⟩ := Result.bind_eq_ok.mp hnext
    cases hnext
    refine ⟨trivial, ?_⟩
    simp only [ICursor.next] at hleaf
    split at hleaf
    · cases hleaf
      exact hcache
    · cases hleaf
      exact hcache
  | sstableRow c =>
    obtain ⟨⟨c1, w1⟩, hleaf, hnext⟩ := Result.bind_eq_ok.mp hnext
    cases hnext
    exact truthful_next_row h hcache hleaf
  | sstableColumn c =>
    obtain ⟨⟨c1, w1⟩, hleaf, hnext⟩ := Result.bind_eq_ok.mp hnext
    cases hnext
    exact truthful_next_column h hcache hleaf

end ScanCursor

/-- Reading on through a composed cursor of a scan. -/
theorem ComposedCursor.truthful_next {contents : CacheKey → Option Bytes}
    {c c' : ComposedCursor ScanCursor} {w w' : World}
    (h : ∀ leaf ∈ c.leaves, leaf.Truthful contents) (hcache : CacheCoherent contents w.blockCache)
    (hnext : ICursor.next c w = .ok (c', w')) :
    (∀ leaf ∈ c'.leaves, leaf.Truthful contents) ∧ CacheCoherent contents w'.blockCache :=
  @next_leaves _ _ (ScanCursor.Truthful contents) (fun w => CacheCoherent contents w.blockCache)
    (fun _ _ _ _ hleaf hstate hstep => hleaf.next hstate hstep) _ _ _ _ h hcache hnext

end Htap.Cursor
