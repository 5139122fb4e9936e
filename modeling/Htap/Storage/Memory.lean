import Htap.Basis.Splitting
import Htap.Storage.Types

/-!
The in-memory layer: the active memtable, an ordered map that rows overwrite
by key, and the queue of immutable memtables frozen from it.

`ident` and `generation` stand for object identity: a frozen memtable keeps
the generation of the active memtable it came from, and an iterator into an
active memtable of an earlier generation dangles.
-/

namespace Htap.Storage

/-- A `std::map` from keys to rows; every row is stored under its own key. -/
structure MemTable where
  data : SortedMap Key Row
  keyed : ∀ e ∈ data.entries, rowKey e.2 = e.1

namespace MemTable

def empty : MemTable := ⟨SortedMap.empty, by simp [SortedMap.empty]⟩

def insert (m : MemTable) (row : Row) : MemTable where
  data := m.data.insert (rowKey row) row
  keyed := by
    intro e he
    rcases SortedMap.mem_insert.mp he with rfl | ⟨hmem, -⟩
    · rfl
    · exact m.keyed e hmem

def size (m : MemTable) : Nat := m.data.size

/-- The stored rows in key order. -/
def rows (m : MemTable) : List Row := m.data.entries.map Prod.snd

theorem sorted_rows (m : MemTable) : m.rows.Pairwise fun a b => rowKey a < rowKey b := by
  apply List.pairwise_map.mpr
  apply m.data.sorted.imp_of_mem
  intro a b ha hb hab
  rwa [m.keyed a ha, m.keyed b hb]

/-- An insertion replaces the row of its key and keeps all others. -/
theorem rows_insert_perm (m : MemTable) (row : Row) :
    (m.insert row).rows.Perm (row :: m.rows.filter fun r => rowKey r ≠ rowKey row) := by
  have hperm := (m.data.entries_insert_perm (rowKey row) row).map Prod.snd
  have hfilter : (m.data.entries.filter fun e => e.1 ≠ rowKey row).map Prod.snd =
      m.rows.filter fun r => rowKey r ≠ rowKey row := by
    unfold rows
    rw [List.filter_map]
    congr 1
    apply List.filter_congr
    intro e he
    simp [m.keyed e he]
  rw [List.map_cons, hfilter] at hperm
  exact hperm

theorem mem_rows_insert {m : MemTable} {row r : Row} :
    r ∈ (m.insert row).rows ↔ r = row ∨ (r ∈ m.rows ∧ rowKey r ≠ rowKey row) := by
  rw [(m.rows_insert_perm row).mem_iff]
  simp

@[simp] theorem rows_empty : empty.rows = [] := rfl

end MemTable

/-- The rows of a frozen memtable, in key order. -/
structure ImmutableMemTable where
  ident : Nat
  data : List Row
  sorted : data.Pairwise fun a b => rowKey a < rowKey b

namespace ImmutableMemTable

def size (imm : ImmutableMemTable) : Nat := imm.data.length

/-- `std::lower_bound`: the position of the first row whose key is not less. -/
def lowerBound (imm : ImmutableMemTable) (key : Key) : Nat :=
  (imm.data.takeWhile fun row => decide (rowKey row < key)).length

end ImmutableMemTable

def MemTable.toSortedImmutable (m : MemTable) (ident : Nat) : ImmutableMemTable :=
  ⟨ident, m.rows, m.sorted_rows⟩

structure MemoryLayer where
  threshold : Nat
  active : MemTable := MemTable.empty
  generation : Nat := 0
  immutables : List ImmutableMemTable := []

namespace MemoryLayer

def activeToImmutable (layer : MemoryLayer) : MemoryLayer :=
  { layer with
    active := MemTable.empty
    generation := layer.generation + 1
    immutables := layer.immutables ++ [layer.active.toSortedImmutable layer.generation] }

def insert (layer : MemoryLayer) (row : Row) : MemoryLayer :=
  let written := { layer with active := layer.active.insert row }
  if written.active.size < layer.threshold then written else written.activeToImmutable

def immutableCount (layer : MemoryLayer) : Nat := layer.immutables.length

def frontImmutable (layer : MemoryLayer) : Option ImmutableMemTable := layer.immutables.head?

/-- Drop the front of the queue, if there is one. -/
def popFrontImmutable (layer : MemoryLayer) : MemoryLayer :=
  { layer with immutables := layer.immutables.tail }

/-- Everything held in memory: the active rows, then the queue in order. -/
def rows (layer : MemoryLayer) : List Row :=
  layer.active.rows ++ layer.immutables.flatMap ImmutableMemTable.data

/-- Freezing moves rows within the layer and loses none. -/
theorem rows_activeToImmutable_perm (layer : MemoryLayer) :
    layer.activeToImmutable.rows.Perm layer.rows := by
  simp only [rows, activeToImmutable, MemTable.rows_empty, List.nil_append, List.flatMap_append,
    List.flatMap_cons, List.flatMap_nil, List.append_nil, MemTable.toSortedImmutable]
  exact List.perm_append_comm

/-- An insertion into a layer adds the row and drops only what the active
memtable held under the row's key. -/
theorem rows_insert_perm (layer : MemoryLayer) (row : Row) :
    (layer.insert row).rows.Perm
      (row :: (layer.active.rows.filter fun r => rowKey r ≠ rowKey row) ++
        layer.immutables.flatMap ImmutableMemTable.data) := by
  have hwritten : ({ layer with active := layer.active.insert row } : MemoryLayer).rows.Perm
      (row :: (layer.active.rows.filter fun r => rowKey r ≠ rowKey row) ++
        layer.immutables.flatMap ImmutableMemTable.data) :=
    (layer.active.rows_insert_perm row).append_right _
  unfold insert
  dsimp only
  split
  · exact hwritten
  · exact (rows_activeToImmutable_perm _).trans hwritten

end MemoryLayer

/-! ## Ranges of an immutable memtable -/

/-- Rows with sorted keys fall into those below, inside and beyond a range. -/
theorem length_takeWhile_mono {rows : List Row} {f t : Key} (h : f ≤ t) :
    (rows.takeWhile fun row => decide (rowKey row < f)).length ≤
      (rows.takeWhile fun row => decide (rowKey row < t)).length := by
  induction rows with
  | nil => simp
  | cons row rows ih =>
    by_cases hf : rowKey row < f
    · have ht := hf.trans_le h
      simpa [hf, ht] using ih
    · simp [hf]

private theorem take_length_takeWhile (rows : List Row) (p : Row → Bool) :
    rows.take (rows.takeWhile p).length = rows.takeWhile p :=
  (List.prefix_iff_eq_take.mp (List.takeWhile_prefix p)).symm

private theorem drop_length_takeWhile (rows : List Row) (p : Row → Bool) :
    rows.drop (rows.takeWhile p).length = rows.dropWhile p := by
  have hsplit : rows.takeWhile p ++ rows.dropWhile p = rows := List.takeWhile_append_dropWhile
  conv_lhs =>
    arg 2
    rw [← hsplit]
  exact List.drop_left

private theorem drop_takeWhile (rows : List Row) (p : Row → Bool) {count : Nat}
    (h : count ≤ (rows.takeWhile p).length) :
    (rows.takeWhile p).drop count = (rows.drop count).takeWhile p := by
  induction rows generalizing count with
  | nil => simp
  | cons row rows ih =>
    cases count with
    | zero => simp
    | succ count =>
      by_cases hp : p row = true
      · simp only [List.takeWhile_cons, hp, if_true, List.length_cons] at h ⊢
        exact ih (Nat.le_of_succ_le_succ h)
      · simp [hp] at h

theorem dropWhile_sorted {rows : List Row} (p : Key → Bool)
    (hsorted : rows.Pairwise fun a b => rowKey a < rowKey b)
    (hdown : ∀ a b, a < b → p b = true → p a = true) :
    rows.takeWhile (fun row => p (rowKey row)) = rows.filter (fun row => p (rowKey row)) ∧
      rows.dropWhile (fun row => p (rowKey row)) = rows.filter fun row => !p (rowKey row) := by
  induction rows with
  | nil => simp
  | cons row rows ih =>
    obtain ⟨hhead, htail⟩ := List.pairwise_cons.mp hsorted
    cases hp : p (rowKey row) with
    | true => simp [hp, ih htail]
    | false =>
      have hnone : ∀ r ∈ rows, p (rowKey r) = false := by
        intro r hr
        cases hpr : p (rowKey r) with
        | false => rfl
        | true =>
          have := hdown _ _ (hhead r hr) hpr
          simp [hp] at this
      constructor
      · simp only [List.takeWhile_cons, hp, List.filter_cons, Bool.false_eq_true, if_false]
        symm
        apply List.filter_eq_nil_iff.mpr
        intro r hr
        simp [hnone r hr]
      · simp only [List.dropWhile_cons, hp, List.filter_cons, Bool.false_eq_true, if_false,
          Bool.not_false, if_true, List.cons.injEq, true_and]
        symm
        apply List.filter_eq_self.mpr
        intro r hr
        simp [hnone r hr]

namespace ImmutableMemTable

/-- `range.from ? lower_bound(*range.from) : begin()`. -/
def rangeBegin (imm : ImmutableMemTable) : Option Key → Nat
  | some key => imm.lowerBound key
  | none => 0

/-- `range.to ? lower_bound(*range.to) : end()`. -/
def rangeEnd (imm : ImmutableMemTable) : Option Key → Nat
  | some key => imm.lowerBound key
  | none => imm.data.length

theorem rangeEnd_le (imm : ImmutableMemTable) (upper : Option Key) :
    imm.rangeEnd upper ≤ imm.data.length := by
  cases upper with
  | none => exact le_rfl
  | some t => exact (List.takeWhile_prefix _).length_le

theorem rangeBegin_le_rangeEnd (imm : ImmutableMemTable) {range : KeyRange}
    (hordered : range.Ordered) : imm.rangeBegin range.fromKey ≤ imm.rangeEnd range.toKey := by
  obtain ⟨lower, upper⟩ := range
  cases lower with
  | none => exact Nat.zero_le _
  | some f =>
    cases upper with
    | none => exact (List.takeWhile_prefix _).length_le
    | some t => exact length_takeWhile_mono (hordered f rfl t rfl)

/-- The iterator pair of an ordered range delimits the rows of the range. -/
theorem slice_range (imm : ImmutableMemTable) {range : KeyRange} (hordered : range.Ordered) :
    Splitting.slice imm.data (imm.rangeBegin range.fromKey) (imm.rangeEnd range.toKey) =
      imm.data.filter fun row => range.contains (rowKey row) := by
  have hle := imm.rangeBegin_le_rangeEnd hordered
  have hend : imm.rangeEnd range.toKey =
      (imm.data.takeWhile fun row => SortedMap.before range.toKey (rowKey row)).length := by
    cases range.toKey with
    | none =>
      have hall : imm.data.takeWhile (fun row => SortedMap.before none (rowKey row)) = imm.data :=
        List.takeWhile_eq_self_iff.mpr fun row _ => rfl
      rw [hall]
      rfl
    | some t => rfl
  have hdrop : imm.data.drop (imm.rangeBegin range.fromKey) =
      imm.data.filter fun row => SortedMap.atOrAfter range.fromKey (rowKey row) := by
    cases range.fromKey with
    | none => simp [rangeBegin, SortedMap.atOrAfter]
    | some f =>
      have hsplit := (dropWhile_sorted (fun key => decide (key < f)) imm.sorted (by
        intro a b hab hb
        simp only [decide_eq_true_eq] at hb ⊢
        exact hab.trans hb)).2
      simp only [rangeBegin, lowerBound, SortedMap.atOrAfter, Option.all_some]
      rw [drop_length_takeWhile, hsplit]
      apply List.filter_congr
      intro row _
      by_cases h : rowKey row < f
      · simp [h]
      · simp [h, not_lt.mp h]
  have hrest : (imm.data.drop (imm.rangeBegin range.fromKey)).Pairwise
      fun a b => rowKey a < rowKey b := imm.sorted.sublist (List.drop_sublist _ _)
  have hupper := (dropWhile_sorted (SortedMap.before range.toKey) hrest
    fun a b => SortedMap.before_of_lt).1
  calc Splitting.slice imm.data (imm.rangeBegin range.fromKey) (imm.rangeEnd range.toKey)
      = (imm.data.take (imm.rangeEnd range.toKey)).drop (imm.rangeBegin range.fromKey) := by
        rw [List.drop_take, Splitting.slice]
    _ = (imm.data.drop (imm.rangeBegin range.fromKey)).takeWhile
          fun row => SortedMap.before range.toKey (rowKey row) := by
        rw [hend, take_length_takeWhile, drop_takeWhile _ _ (hend ▸ hle)]
    _ = imm.data.filter fun row => range.contains (rowKey row) := by
        rw [hupper, hdrop, List.filter_filter]
        apply List.filter_congr
        intro row _
        rw [KeyRange.contains_eq, Bool.and_comm]

end ImmutableMemTable

end Htap.Storage
