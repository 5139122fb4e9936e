import Htap.Tree.Scan

/-!
Scans of the memory. The two iterators of a memtable's cursor come from two
searches that are compared for equality only, so a range with swapped bounds and
a stored key between them opens a cursor that starts behind its end.
-/

namespace Htap.Properties

open Storage SSTable Read Cursor Htap.Tree

/-- Where a memtable cursor stands and ends in its container. -/
structure Place where
  current : Nat
  stop : Nat
  size : Nat

def place (w : World) : ScanCursor → Option Place
  | .activeMemTable c =>
    some ⟨w.memtable.data.position c.current, w.memtable.data.position c.stop, w.memtable.size⟩
  | .immutableMemTable c => some ⟨c.current, c.stop, c.data.length⟩
  | .sstableRow _ | .sstableColumn _ => none

/-- Any number of calls of `next` that return. -/
def Moves : ScanCursor × World → ScanCursor × World → Prop :=
  Relation.ReflTransGen fun here there => ICursor.next here.1 here.2 = .ok there

/-- However often it is moved on, the cursor stands between its begin and its
end, within its container, and can be moved on again. -/
def StaysWithin (w : World) (c : ScanCursor) : Prop :=
  ∃ first, place w c = some first ∧ first.stop ≤ first.size ∧
    ∀ there, Moves (c, w) there →
      ∃ p, place there.2 there.1 = some p ∧ p.stop = first.stop ∧ p.size = first.size ∧
        first.current ≤ p.current ∧ p.current ≤ first.stop ∧
        ∃ next, ICursor.next there.1 there.2 = .ok next

/-- The memtable cursors of a scan yield the stored rows of the range, complete
and each once, and stay within their containers. -/
structure ScansMemory (tree : LSMTree) (range : KeyRange) : Prop where
  yields : ∃ views,
    List.Forall₂ (fun c => Yields (List.range tree.schema.size) c tree.world)
      (memtableCursors tree range) views ∧
    views.flatten =
      (inRange range tree.memoryLayer.rows).map (viewRow (List.range tree.schema.size))
  within : ∀ c ∈ memtableCursors tree range, StaysWithin tree.world c

/-! ## A cursor that holds rows -/

section

variable {schema : Schema} {contents : CacheKey → Option Bytes} {w : World} {c : ScanCursor}

private theorem place_of_holds {projection : List Nat} {rows : List Row} {p : Place}
    (h : ScanCursor.Holds schema projection contents w c rows) (hplace : place w c = some p) :
    p.stop = p.current + rows.length ∧ p.stop ≤ p.size := by
  cases c with
  | activeMemTable c =>
    obtain ⟨-, -, entries, hwalk, hrows⟩ := h
    cases hplace
    have hlength := congrArg List.length hrows
    rw [List.length_map] at hlength
    rw [← hlength]
    exact ⟨SortedMap.position_of_walks hwalk, SortedMap.position_le_size _ _⟩
  | immutableMemTable c =>
    cases hplace
    exact ⟨ImmutableMemTableCursor.Holds.length_eq (w := w) h, h.2.1⟩
  | sstableRow c => cases hplace
  | sstableColumn c => cases hplace

/-- What one row of a memtable cursor reads as, and where the next stands. -/
private theorem row_of_holds {projection : List Nat} (hbound : ∀ i ∈ projection, i < schema.size)
    {row : Row} {rest : List Row} {p : Place}
    (h : ScanCursor.Holds schema projection contents w c (row :: rest))
    (hplace : place w c = some p) :
    ICursor.valid c = true ∧ ICursor.key c w = .ok (rowKey row) ∧
      (∀ i ∈ projection, ICursor.value c w i = .ok (cell row i)) ∧
      ∃ c' p', ICursor.next c w = .ok (c', w) ∧ place w c' = some p' ∧ p'.stop = p.stop ∧
        p'.size = p.size ∧ ScanCursor.Holds schema projection contents w c' rest := by
  cases c with
  | activeMemTable c =>
    obtain ⟨hvalid, hkey, hvalue, c', hnext, hstop, hrest⟩ :=
      ActiveMemTableCursor.Holds.row hbound h
    cases hplace
    refine ⟨hvalid, hkey, hvalue, .activeMemTable c', _, ?_, rfl, ?_, rfl, hrest⟩
    · change (ICursor.next c w >>= _) = _
      rw [hnext]
      rfl
    · dsimp only
      rw [hstop]
  | immutableMemTable c =>
    obtain ⟨hvalid, hkey, hvalue, c', hnext, hstop, hdata, hrest⟩ :=
      ImmutableMemTableCursor.Holds.row hbound h
    cases hplace
    refine ⟨hvalid, hkey, hvalue, .immutableMemTable c', _, ?_, rfl, hstop, ?_, hrest⟩
    · change (ICursor.next c w >>= _) = _
      rw [hnext]
      rfl
    · dsimp only
      rw [hdata]
  | sstableRow c => cases hplace
  | sstableColumn c => cases hplace

private theorem done_of_holds {projection : List Nat} {p : Place}
    (h : ScanCursor.Holds schema projection contents w c []) (hplace : place w c = some p) :
    ICursor.valid c = false ∧ ICursor.next c w = .ok (c, w) := by
  cases c with
  | activeMemTable c =>
    have hend := ActiveMemTableCursor.Holds.done h
    simp [ICursor.valid, ICursor.next, hend]
  | immutableMemTable c =>
    have hend := ImmutableMemTableCursor.Holds.done (w := w) h
    simp [ICursor.valid, ICursor.next, hend]
  | sstableRow c => cases hplace
  | sstableColumn c => cases hplace

theorem yields_of_holds {projection : List Nat} (hbound : ∀ i ∈ projection, i < schema.size)
    {rows : List Row} {p : Place} (h : ScanCursor.Holds schema projection contents w c rows)
    (hplace : place w c = some p) : Yields projection c w (rows.map (viewRow projection)) := by
  induction rows generalizing c p with
  | nil => exact Yields.done (done_of_holds h hplace).1
  | cons row rest ih =>
    obtain ⟨hvalid, hkey, hvalue, c', p', hnext, hplace', -, -, hrest⟩ :=
      row_of_holds hbound h hplace
    exact Yields.row hvalid hkey (Result.mapM_eq_map projection hvalue) hnext (ih hrest hplace')

/-- Moving on keeps holding rows, fewer and fewer. -/
private theorem holds_of_moves {projection : List Nat} (hbound : ∀ i ∈ projection, i < schema.size)
    {rows : List Row} {first : Place} (h : ScanCursor.Holds schema projection contents w c rows)
    (hplace : place w c = some first) {there : ScanCursor × World} (hmoves : Moves (c, w) there) :
    there.2 = w ∧ ∃ rest p, ScanCursor.Holds schema projection contents w there.1 rest ∧
      rest.length ≤ rows.length ∧ place w there.1 = some p ∧ p.stop = first.stop ∧
      p.size = first.size := by
  induction hmoves with
  | refl => exact ⟨rfl, rows, first, h, le_rfl, hplace, rfl, rfl⟩
  | @tail here there _ hnext ih =>
    obtain ⟨hworld, rest, p, hholds, hlength, hhere, hstop, hsize⟩ := ih
    rw [hworld] at hnext
    cases rest with
    | nil =>
      rw [(done_of_holds hholds hhere).2] at hnext
      cases hnext
      exact ⟨rfl, [], p, hholds, hlength, hhere, hstop, hsize⟩
    | cons row rest =>
      obtain ⟨-, -, -, c', p', hnext', hplace', hstop', hsize', hrest⟩ :=
        row_of_holds hbound hholds hhere
      rw [hnext'] at hnext
      cases hnext
      refine ⟨rfl, rest, p', hrest, ?_, hplace', hstop'.trans hstop, hsize'.trans hsize⟩
      exact (Nat.le_succ _).trans hlength

theorem staysWithin_of_holds {projection : List Nat} (hbound : ∀ i ∈ projection, i < schema.size)
    {rows : List Row} {first : Place} (h : ScanCursor.Holds schema projection contents w c rows)
    (hplace : place w c = some first) : StaysWithin w c := by
  obtain ⟨hlast, hsize⟩ := place_of_holds h hplace
  refine ⟨first, hplace, hsize, ?_⟩
  rintro ⟨c', w'⟩ hmoves
  obtain ⟨hworld, rest, p, hholds, hlength, hthere, hpstop, hpsize⟩ :=
    holds_of_moves hbound h hplace hmoves
  dsimp only at hworld hholds hthere ⊢
  subst hworld
  obtain ⟨hpos, -⟩ := place_of_holds hholds hthere
  refine ⟨p, hthere, hpstop, hpsize, by omega, by omega, ?_⟩
  cases rest with
  | nil => exact ⟨_, (done_of_holds hholds hthere).2⟩
  | cons row rest =>
    obtain ⟨-, -, -, c'', -, hnext, -⟩ := row_of_holds hbound hholds hthere
    exact ⟨_, hnext⟩

end

/-! ## The cursors of a range -/

section

variable {tree : LSMTree} {range : KeyRange}

private theorem exists_place {c : ScanCursor} (hc : c ∈ memtableCursors tree range) (w : World) :
    ∃ p, place w c = some p := by
  rcases List.mem_append.mp hc with hin | hin
  · unfold LSMTree.scanActive at hin
    dsimp only at hin
    split at hin
    · rw [List.mem_singleton.mp hin]
      exact ⟨_, rfl⟩
    · cases hin
  · obtain ⟨imm, -, hin⟩ := List.mem_flatMap.mp hin
    unfold LSMTree.scanImmutable at hin
    dsimp only at hin
    split at hin
    · rw [List.mem_singleton.mp hin]
      exact ⟨_, rfl⟩
    · cases hin

private theorem scansMemory_of_not_crosses (hwidth : MemoryWidth tree)
    (hcrosses : ¬ Crosses tree range) : ScansMemory tree range := by
  have hbound : ∀ i ∈ List.range tree.schema.size, i < tree.schema.size :=
    fun i hi => List.mem_range.mp hi
  obtain ⟨sources, hheld, hflat, -⟩ := memtableCursors_hold hwidth hcrosses
    (List.range tree.schema.size) fun _ => none
  constructor
  · refine ⟨sources.map (List.map (viewRow (List.range tree.schema.size))), ?_, ?_⟩
    · apply List.forall₂_map_right_iff.mpr
      apply List.forall₂_iff_get.mpr
      refine ⟨hheld.length_eq, ?_⟩
      intro i hi hi'
      obtain ⟨p, hplace⟩ := exists_place (List.get_mem _ ⟨i, hi⟩) tree.world
      exact yields_of_holds hbound (hheld.get hi hi') hplace
    · rw [← hflat, List.map_flatten]
  · intro c hc
    obtain ⟨i, rfl⟩ := List.mem_iff_get.mp hc
    obtain ⟨p, hplace⟩ := exists_place hc tree.world
    have hi' : i.val < sources.length := hheld.length_eq ▸ i.isLt
    exact staysWithin_of_holds hbound (hheld.get i.isLt hi') hplace

/-- A range that a stored key lies in backwards opens a cursor behind its end. -/
private theorem exists_behind (h : Crosses tree range) :
    ∃ c ∈ memtableCursors tree range, ∃ p, place tree.world c = some p ∧ p.stop < p.current := by
  obtain ⟨f, hf, t, ht, row, hrow, hlow, hhigh⟩ := h
  obtain ⟨lower, upper⟩ := range
  rw [show lower = some f from hf, show upper = some t from ht]
  rcases List.mem_append.mp hrow with hin | hin
  · obtain ⟨e, he, rfl⟩ := List.mem_map.mp hin
    rw [tree.memoryLayer.active.keyed e he] at hlow hhigh
    have hlt := SortedMap.position_stop_lt_start he hlow hhigh
    refine ⟨.activeMemTable ⟨tree.memoryLayer.generation,
      tree.memoryLayer.active.data.start (some f), tree.memoryLayer.active.data.stop (some t)⟩,
      List.mem_append_left _ ?_, _, rfl, hlt⟩
    have hne : tree.memoryLayer.active.data.start (some f) ≠
        tree.memoryLayer.active.data.stop (some t) := by
      intro heq
      rw [heq] at hlt
      exact absurd hlt (lt_irrefl _)
    unfold LSMTree.scanActive
    dsimp only
    rw [if_pos hne]
    exact List.mem_singleton_self _
  · obtain ⟨imm, himm, hdata⟩ := List.mem_flatMap.mp hin
    have hlt : imm.lowerBound t < imm.lowerBound f := by
      rw [lowerBound_eq_countP, lowerBound_eq_countP]
      apply SortedMap.countP_lt_countP (e := row) _ hdata (by simpa using hhigh)
        (by simpa using hlow)
      intro other _ hother
      simp only [decide_eq_true_eq] at hother ⊢
      exact hother.trans (hlow.trans_lt hhigh)
    refine ⟨.immutableMemTable ⟨imm.data, imm.lowerBound f, imm.lowerBound t⟩,
      List.mem_append_right _ (List.mem_flatMap.mpr ⟨imm, himm, ?_⟩), _, rfl, hlt⟩
    have hne : imm.rangeBegin (some f) ≠ imm.rangeEnd (some t) := hlt.ne'
    unfold LSMTree.scanImmutable
    dsimp only
    rw [if_pos hne]
    exact List.mem_singleton_self _

private theorem not_scansMemory_of_crosses (h : Crosses tree range) : ¬ ScansMemory tree range := by
  intro hscans
  obtain ⟨c, hc, p, hplace, hbehind⟩ := exists_behind h
  obtain ⟨first, hfirst, -, hstays⟩ := hscans.within c hc
  rw [hplace] at hfirst
  cases hfirst
  obtain ⟨q, hq, -, -, hfrom, hto, -⟩ := hstays _ Relation.ReflTransGen.refl
  omega

/-- The memtable cursors of a scan yield exactly the stored rows of the range within their
containers, unless a stored key lies between swapped bounds. The memory is any whose rows
are as wide as the schema; only the containers of the rows matter, not how they came there.
-/
theorem memtable_scan_exact (tree : LSMTree) (range : KeyRange) (hwidth : MemoryWidth tree) :
    ScansMemory tree range ↔ ¬ Crosses tree range := by
  constructor
  · exact fun hscans hcrosses => not_scansMemory_of_crosses hcrosses hscans
  · exact scansMemory_of_not_crosses hwidth

end

/-! ## Swapped bounds around a stored key -/

/-- A table with one row, whose key is 5, in its active memtable. -/
def singleRowTree : LSMTree where
  schema := ⟨[⟨[105, 100], .int64, true, false⟩]⟩
  config := { rootPath := [47, 100] }
  memoryLayer := ({ threshold := 10000 } : MemoryLayer).insert [some (.int64 5)]
  opened := ⟨fun _ => none, none⟩

private theorem singleRowTree_rows : singleRowTree.memoryLayer.rows = [[some (.int64 5)]] := rfl

private theorem singleRowTree_width : MemoryWidth singleRowTree := by
  intro row hrow
  rw [singleRowTree_rows] at hrow
  rw [List.mem_singleton.mp hrow]
  rfl

theorem memtable_scan_exact_empty : ScansMemory singleRowTree ⟨some 9, some 7⟩ := by
  apply (memtable_scan_exact singleRowTree ⟨some 9, some 7⟩ singleRowTree_width).mpr
  rintro ⟨f, hf, t, ht, row, hrow, hlow, -⟩
  cases hf
  cases ht
  rw [singleRowTree_rows] at hrow
  rw [List.mem_singleton.mp hrow] at hlow
  exact absurd hlow (by decide)

/-- From 7 to 3, the cursor starts past the end of the memtable, claims to be
valid, and reads there. -/
theorem memtable_scan_reversed :
    MemoryWidth singleRowTree ∧ ¬ ScansMemory singleRowTree ⟨some 7, some 3⟩ ∧
      ∃ c, memtableCursors singleRowTree ⟨some 7, some 3⟩ = [c] ∧ ICursor.valid c = true ∧
        ICursor.key c singleRowTree.world = .error .danglingIterator := by
  refine ⟨singleRowTree_width, ?_, .activeMemTable ⟨0, none, some 5⟩, rfl, rfl, rfl⟩
  apply not_scansMemory_of_crosses
  refine ⟨7, rfl, 3, rfl, [some (.int64 5)], ?_, by decide, by decide⟩
  rw [singleRowTree_rows]
  exact List.mem_singleton_self _

end Htap.Properties
