import Htap.Cursor.Interface

/-!
The loop both SSTable cursors run: load blocks until one of them has a row in
the key range, step over the rows outside of it, load the next blocks when the
loaded one is used up. What a load does is a parameter, so the loop is followed
once for both layouts.
-/

namespace Htap.Cursor

open Storage SSTable Read

/-- The blocks still to be loaded, the keys of the loaded block, what else the
cursor keeps of it, and the row it stands at. -/
structure BlockScan (β δ : Type) where
  pending : List β
  keys : List Key
  payload : δ
  index : Nat

/-- `while (valid() && !contains(range_, key())) ++current_row_idx_`. -/
def skipOutside (range : KeyRange) (keys : List Key) (index : Nat) : Nat :=
  index + ((keys.drop index).takeWhile fun key => !range.contains key).length

/-- A block is loaded through the block cache. -/
abbrev BlockLoad (β δ : Type) : Type :=
  β → Option SSTableBlockCache → Result ((List Key × δ) × Option SSTableBlockCache)

namespace BlockScan

variable {β δ : Type}

def valid (s : BlockScan β δ) : Bool := decide (s.index < s.keys.length)

/-- `load_next_non_empty_block`. -/
def loadNextNonEmptyBlock (range : KeyRange) (load : BlockLoad β δ) (cleared : δ) :
    List β → Option SSTableBlockCache → Result (BlockScan β δ × Option SSTableBlockCache)
  | [], cache => .ok (⟨[], [], cleared, 0⟩, cache)
  | block :: pending, cache => do
    let ((keys, payload), cache) ← load block cache
    let index := skipOutside range keys 0
    if index < keys.length then return (⟨pending, keys, payload, index⟩, cache)
    else loadNextNonEmptyBlock range load cleared pending cache

def next (range : KeyRange) (load : BlockLoad β δ) (cleared : δ) (s : BlockScan β δ)
    (cache : Option SSTableBlockCache) : Result (BlockScan β δ × Option SSTableBlockCache) :=
  if s.index < s.keys.length then
    let index := skipOutside range s.keys (s.index + 1)
    if index < s.keys.length then .ok ({ s with index := index }, cache)
    else loadNextNonEmptyBlock range load cleared s.pending cache
  else .ok (s, cache)

end BlockScan

/-! ## What the loop goes through -/

/-- The rows of the range. -/
def inRange (range : KeyRange) (rows : List Row) : List Row :=
  rows.filter fun row => range.contains (rowKey row)

@[simp] theorem inRange_nil (range : KeyRange) : inRange range [] = [] := rfl

theorem inRange_append (range : KeyRange) (rows more : List Row) :
    inRange range (rows ++ more) = inRange range rows ++ inRange range more :=
  List.filter_append ..

@[simp] theorem inRange_full (rows : List Row) : inRange KeyRange.full rows = rows := by
  simp [inRange]

/-- Whatever the cache, the block loads as `rows` and the cache stays truthful. -/
def Loads {β δ : Type} (contents : CacheKey → Option Bytes) (load : BlockLoad β δ)
    (Shows : List Row → δ → Prop) (block : β) (rows : List Row) : Prop :=
  ∀ cache, CacheCoherent contents cache → ∃ payload cache',
    load block cache = .ok ((rows.map rowKey, payload), cache') ∧
      CacheCoherent contents cache' ∧ Shows rows payload

/-- Skipping stops at the first row of the range, if one is left. -/
theorem skipOutside_spec (range : KeyRange) (rows : List Row) (index : Nat) :
    (∃ row rest, inRange range (rows.drop index) = row :: rest ∧
      rows[skipOutside range (rows.map rowKey) index]? = some row ∧
      rest = inRange range (rows.drop (skipOutside range (rows.map rowKey) index + 1))) ∨
    (inRange range (rows.drop index) = [] ∧
      rows.length ≤ skipOutside range (rows.map rowKey) index) := by
  have hskip : skipOutside range (rows.map rowKey) index =
      index + ((rows.drop index).takeWhile fun row => !range.contains (rowKey row)).length := by
    unfold skipOutside
    rw [← List.map_drop, List.takeWhile_map, List.length_map]
    rfl
  have hparts := List.takeWhile_append_dropWhile
    (p := fun row => !range.contains (rowKey row)) (l := rows.drop index)
  generalize hfront : (rows.drop index).takeWhile (fun row => !range.contains (rowKey row)) = front
    at hskip hparts
  have hout : inRange range front = [] := by
    rw [inRange, List.filter_eq_nil_iff, ← hfront]
    intro row hrow
    simpa using List.mem_takeWhile_imp hrow
  rw [hskip, ← hparts, inRange_append, hout, List.nil_append]
  cases hback : (rows.drop index).dropWhile (fun row => !range.contains (rowKey row)) with
  | nil =>
    rw [hback, List.append_nil] at hparts
    have hlength := congrArg List.length hparts
    rw [List.length_drop] at hlength
    exact Or.inr ⟨rfl, by omega⟩
  | cons row back =>
    have hin : range.contains (rowKey row) = true := by
      have hhead := List.head_dropWhile_not (fun row => !range.contains (rowKey row))
        (l := rows.drop index) (by simp [hback])
      simp only [hback, List.head_cons] at hhead
      simpa using hhead
    rw [hback] at hparts
    have hdrop : rows.drop (index + front.length) = row :: back := by
      rw [← List.drop_drop, ← hparts, List.drop_left]
    refine Or.inl ⟨row, inRange range back, by simp [inRange, hin], ?_, ?_⟩
    · rw [← Nat.add_zero (index + front.length), ← List.getElem?_drop, hdrop]
      rfl
    · rw [← List.drop_drop, hdrop]
      rfl

namespace BlockScan

variable {β δ : Type} {contents : CacheKey → Option Bytes} {range : KeyRange}
  {load : BlockLoad β δ} {cleared : δ} {Shows : List Row → δ → Prop}

/-- The rows the scan has left: those of the range among what is left of the
loaded block and the blocks to come. It stands at the first of them. -/
def Holds (contents : CacheKey → Option Bytes) (range : KeyRange) (load : BlockLoad β δ)
    (Shows : List Row → δ → Prop) (s : BlockScan β δ) : List Row → Prop
  | [] => s.keys.length ≤ s.index
  | row :: rest => ∃ loaded blocks, s.keys = loaded.map rowKey ∧ Shows loaded s.payload ∧
      loaded[s.index]? = some row ∧ List.Forall₂ (Loads contents load Shows) s.pending blocks ∧
      rest = inRange range (loaded.drop (s.index + 1)) ++ inRange range blocks.flatten

/-- Loading blocks leads to the rows of the range in them. -/
theorem loadNextNonEmptyBlock_spec {pending : List β} {blocks : List (List Row)}
    (hblocks : List.Forall₂ (Loads contents load Shows) pending blocks)
    {cache : Option SSTableBlockCache} (hcache : CacheCoherent contents cache) :
    ∃ s cache', loadNextNonEmptyBlock range load cleared pending cache = .ok (s, cache') ∧
      CacheCoherent contents cache' ∧
      s.Holds contents range load Shows (inRange range blocks.flatten) := by
  induction hblocks generalizing cache with
  | nil => exact ⟨_, cache, rfl, hcache, Nat.zero_le _⟩
  | @cons block rows pending blocks hblock hrest ih =>
    obtain ⟨payload, cache', hload, hcache', hshows⟩ := hblock cache hcache
    rw [loadNextNonEmptyBlock, hload, Result.ok_bind]
    dsimp only
    rw [List.flatten_cons, inRange_append, List.length_map]
    rcases skipOutside_spec range rows 0 with ⟨row, rest, hfirst, hget, hrest'⟩ | ⟨hnone, hend⟩
    · rw [List.drop_zero] at hfirst
      have hlt := (List.getElem?_eq_some_iff.mp hget).1
      rw [if_pos hlt, hfirst, List.cons_append, hrest']
      exact ⟨_, cache', rfl, hcache', rows, blocks, rfl, hshows, hget, hrest, rfl⟩
    · rw [List.drop_zero] at hnone
      rw [if_neg (not_lt.mpr hend), hnone, List.nil_append]
      exact ih hcache'

theorem valid_of_holds {s : BlockScan β δ} {row : Row} {rest : List Row}
    (h : s.Holds contents range load Shows (row :: rest)) : s.index < s.keys.length := by
  obtain ⟨loaded, -, hkeys, -, hget, -⟩ := h
  rw [hkeys, List.length_map]
  exact (List.getElem?_eq_some_iff.mp hget).1

theorem key_of_holds {s : BlockScan β δ} {row : Row} {rest : List Row}
    (h : s.Holds contents range load Shows (row :: rest)) :
    s.keys[s.index]? = some (rowKey row) := by
  obtain ⟨loaded, -, hkeys, -, hget, -⟩ := h
  rw [hkeys, List.getElem?_map, hget]
  rfl

theorem next_spec {s : BlockScan β δ} {row : Row} {rest : List Row}
    (h : s.Holds contents range load Shows (row :: rest)) {cache : Option SSTableBlockCache}
    (hcache : CacheCoherent contents cache) :
    ∃ s' cache', next range load cleared s cache = .ok (s', cache') ∧
      CacheCoherent contents cache' ∧ s'.Holds contents range load Shows rest := by
  have hvalid := valid_of_holds h
  obtain ⟨loaded, blocks, hkeys, hshows, hget, hblocks, rfl⟩ := h
  rw [next, if_pos hvalid]
  dsimp only
  rw [hkeys, List.length_map]
  rcases skipOutside_spec range loaded (s.index + 1) with
    ⟨row', rest', hfirst, hget', hrest'⟩ | ⟨hnone, hend⟩
  · have hlt := (List.getElem?_eq_some_iff.mp hget').1
    rw [if_pos hlt, hfirst, List.cons_append, hrest']
    exact ⟨_, cache, rfl, hcache, loaded, blocks, rfl, hshows, hget', hblocks, rfl⟩
  · rw [if_neg (not_lt.mpr hend), hnone, List.nil_append]
    exact loadNextNonEmptyBlock_spec hblocks hcache

end BlockScan

end Htap.Cursor
