import Htap.Read.Selector
import Htap.Storage.Memory

/-!
The cursor interface and the cursors over memtables.

A cursor reads state it does not own: the map of the active memtable and the
shared block cache. `World` is that state, and a cursor step threads it. What a
cursor means is the list of rows it has left; `CursorModel` says that the
cursor's operations follow such a list in every world that keeps the memory and
a truthful cache.
-/

namespace Htap.Cursor

open Storage SSTable Read

/-- What a cursor reads outside of itself. -/
structure World where
  generation : Nat
  memtable : MemTable
  blockCache : Option SSTableBlockCache

class ICursor (α : Type) where
  valid : α → Bool
  next : α → World → Result (α × World)
  key : α → World → Result Key
  value : α → World → Nat → Result NullableValue

/-- What a reader sees of a row: its key and the projected cells. -/
structure RowView where
  key : Key
  cells : List NullableValue
  deriving DecidableEq

def viewRow (projection : List Nat) (row : Row) : RowView :=
  ⟨rowKey row, projection.map (cell row)⟩

/-- Reading a cursor to its end gives exactly these views, without an
exception. -/
inductive Yields {α : Type} [ICursor α] (projection : List Nat) :
    α → World → List RowView → Prop where
  | done {c : α} {w : World} (h : ICursor.valid c = false) : Yields projection c w []
  | row {c c' : α} {w w' : World} {k : Key} {cells : List NullableValue} {rest : List RowView}
      (hvalid : ICursor.valid c = true) (hkey : ICursor.key c w = .ok k)
      (hcells : projection.mapM (ICursor.value c w) = .ok cells)
      (hnext : ICursor.next c w = .ok (c', w')) (hrest : Yields projection c' w' rest) :
      Yields projection c w (⟨k, cells⟩ :: rest)

/-- A cursor yields one list only. -/
theorem Yields.unique {α : Type} [ICursor α] {projection : List Nat} {c : α} {w : World}
    {xs ys : List RowView} (hx : Yields projection c w xs) (hy : Yields projection c w ys) :
    xs = ys := by
  induction hx generalizing ys with
  | done h =>
    cases hy with
    | done _ => rfl
    | row hvalid => simp [h] at hvalid
  | row hvalid hkey hcells hnext _ ih =>
    cases hy with
    | done h => simp [h] at hvalid
    | row _ hkey' hcells' hnext' hrest' =>
      rw [hkey] at hkey'
      rw [hcells] at hcells'
      rw [hnext] at hnext'
      cases hkey'
      cases hcells'
      cases hnext'
      rw [ih hrest']

/-- The memory of both worlds is the same. -/
def SameMemory (w w' : World) : Prop := w'.generation = w.generation ∧ w'.memtable = w.memtable

theorem SameMemory.refl (w : World) : SameMemory w w := ⟨rfl, rfl⟩

/-- `Holds w c rows`: in world `w`, cursor `c` has `rows` left. -/
structure CursorModel {α : Type} [ICursor α] (projection : List Nat)
    (contents : CacheKey → Option Bytes) (Holds : World → α → List Row → Prop) : Prop where
  stable : ∀ {w w' c rows}, Holds w c rows → SameMemory w w' → Holds w' c rows
  done : ∀ {w c}, Holds w c [] → ICursor.valid c = false
  row : ∀ {w c row rest}, CacheCoherent contents w.blockCache → Holds w c (row :: rest) →
    ICursor.valid c = true ∧ ICursor.key c w = .ok (rowKey row) ∧
      (∀ i ∈ projection, ICursor.value c w i = .ok (cell row i)) ∧
      ∃ c' w', ICursor.next c w = .ok (c', w') ∧ CacheCoherent contents w'.blockCache ∧
        SameMemory w w' ∧ Holds w' c' rest

namespace CursorModel

variable {α : Type} [ICursor α] {projection : List Nat} {contents : CacheKey → Option Bytes}
  {Holds : World → α → List Row → Prop}

/-- A cursor that holds rows yields their views. -/
theorem yields (hmodel : CursorModel projection contents Holds) {c : α} {w : World}
    {rows : List Row} (hcache : CacheCoherent contents w.blockCache) (h : Holds w c rows) :
    Yields projection c w (rows.map (viewRow projection)) := by
  induction rows generalizing c w with
  | nil => exact Yields.done (hmodel.done h)
  | cons row rest ih =>
    obtain ⟨hvalid, hkey, hvalue, c', w', hnext, hcache', -, hrest⟩ := hmodel.row hcache h
    exact Yields.row hvalid hkey (Result.mapM_eq_map projection hvalue) hnext (ih hcache' hrest)

theorem valid_eq (hmodel : CursorModel projection contents Holds) {c : α} {w : World}
    {rows : List Row} (hcache : CacheCoherent contents w.blockCache) (h : Holds w c rows) :
    ICursor.valid c = !rows.isEmpty := by
  cases rows with
  | nil => simpa using hmodel.done h
  | cons row rest => simpa using (hmodel.row hcache h).1

end CursorModel

/-! ## The empty cursor -/

structure EmptyCursor where

instance : ICursor EmptyCursor where
  valid _ := false
  next c w := .ok (c, w)
  key _ _ := .error (.logicError "EmptyCursor::key() called on invalid cursor")
  value _ _ _ := .error (.logicError "EmptyCursor::value() called on invalid cursor")

/-! ## Cursors over the active memtable -/

/-- A pair of iterators into the map of the memtable `generation`. -/
structure ActiveMemTableCursor where
  generation : Nat
  current : Option Key
  stop : Option Key
  deriving DecidableEq

namespace ActiveMemTableCursor

/-- Dereferencing an iterator: it dangles when its memtable was frozen, and
there is nothing to read past the end. -/
def entry (c : ActiveMemTableCursor) (w : World) : Result (Key × Row) :=
  if w.generation ≠ c.generation then .error .danglingIterator
  else
    match c.current with
    | none => .error .danglingIterator
    | some k =>
      match w.memtable.data.find? k with
      | none => .error .danglingIterator
      | some row => .ok (k, row)

instance : ICursor ActiveMemTableCursor where
  valid c := decide (c.current ≠ c.stop)
  next c w :=
    if c.current = c.stop then .ok (c, w)
    else do
      let (k, _) ← c.entry w
      return ({ c with current := w.memtable.data.next k }, w)
  key c w :=
    if c.current = c.stop then
      .error (.logicError "ActiveMemTableCursor::key() called on invalid cursor")
    else do
      let (k, _) ← c.entry w
      return k
  value c w columnIdx :=
    if c.current = c.stop then
      .error (.logicError "ActiveMemTableCursor::value() called on invalid cursor")
    else do
      let (_, row) ← c.entry w
      match row[columnIdx]? with
      | some value => return value
      | none => throw (.outOfRange "Column index out of range")

/-- The iterators walk over `rows` in the memtable they belong to. -/
def Holds (width : Nat) (w : World) (c : ActiveMemTableCursor) (rows : List Row) : Prop :=
  w.generation = c.generation ∧ (∀ row ∈ rows, row.length = width) ∧
    ∃ entries : List (Key × Row), w.memtable.data.Walks c.stop c.current entries ∧
      entries.map Prod.snd = rows

theorem Holds.row {projection : List Nat} {width : Nat} (hprojection : ∀ i ∈ projection, i < width)
    {w : World} {c : ActiveMemTableCursor} {row : Row} {rest : List Row}
    (h : Holds width w c (row :: rest)) :
    ICursor.valid c = true ∧ ICursor.key c w = .ok (rowKey row) ∧
      (∀ i ∈ projection, ICursor.value c w i = .ok (cell row i)) ∧
      ∃ c', ICursor.next c w = .ok (c', w) ∧ c'.stop = c.stop ∧ Holds width w c' rest := by
  obtain ⟨hgeneration, hwidth, entries, hwalk, hrows⟩ := h
  cases entries with
  | nil => cases hrows
  | cons e entries =>
    rw [List.map_cons, List.cons.injEq] at hrows
    obtain ⟨rfl, rfl⟩ := hrows
    obtain ⟨hne, hcurrent, hfind, hrest⟩ := hwalk
    have hentry : c.entry w = .ok (e.1, e.2) := by
      rw [entry, if_neg (not_not.mpr hgeneration), hcurrent]
      simp only [hfind]
    have hkey : rowKey e.2 = e.1 :=
      w.memtable.keyed e (SortedMap.find?_eq_some_iff.mp hfind)
    refine ⟨by simp [ICursor.valid, hne], ?_, ?_,
      { c with current := w.memtable.data.next e.1 }, ?_, rfl,
      hgeneration, fun r hr => hwidth r (List.mem_cons_of_mem _ hr), entries, hrest, rfl⟩
    · simp only [ICursor.key, if_neg hne, hentry, Result.ok_bind, Result.pure_eq, hkey]
    · intro i hi
      have hlt : i < e.2.length := by
        rw [hwidth e.2 List.mem_cons_self]
        exact hprojection i hi
      simp only [ICursor.value, if_neg hne, hentry, Result.ok_bind,
        List.getElem?_eq_getElem hlt, Result.pure_eq, cell, List.getD_eq_getElem?_getD,
        Option.getD_some]
    · simp only [ICursor.next, if_neg hne, hentry, Result.ok_bind, Result.pure_eq]

theorem Holds.done {width : Nat} {w : World} {c : ActiveMemTableCursor}
    (h : Holds width w c []) : c.current = c.stop := by
  obtain ⟨-, -, entries, hwalk, hrows⟩ := h
  rw [List.map_eq_nil_iff] at hrows
  subst hrows
  exact hwalk

theorem model {projection : List Nat} {width : Nat} (hprojection : ∀ i ∈ projection, i < width)
    (contents : CacheKey → Option Bytes) :
    CursorModel projection contents (Holds width) where
  stable := by
    intro w w' c rows h hsame
    obtain ⟨hgeneration, hwidth, entries, hwalk, hrows⟩ := h
    exact ⟨hsame.1.trans hgeneration, hwidth, entries, by rwa [hsame.2], hrows⟩
  done := by
    intro w c h
    simp [ICursor.valid, h.done]
  row := by
    intro w c row rest hcache h
    obtain ⟨hvalid, hkey, hvalue, c', hnext, -, hrest⟩ := h.row hprojection
    exact ⟨hvalid, hkey, hvalue, c', w, hnext, hcache, SameMemory.refl w, hrest⟩

end ActiveMemTableCursor

/-! ## Cursors over immutable memtables -/

/-- A pair of iterators into the rows of an immutable memtable, which the scan
keeps alive. -/
structure ImmutableMemTableCursor where
  data : List Row
  current : Nat
  stop : Nat
  deriving DecidableEq

namespace ImmutableMemTableCursor

/-- Dereferencing; at or past the end of the vector there is no row. -/
def row (c : ImmutableMemTableCursor) : Result Row :=
  match c.data[c.current]? with
  | some row => .ok row
  | none => .error .danglingIterator

instance : ICursor ImmutableMemTableCursor where
  valid c := decide (c.current ≠ c.stop)
  next c w := if c.current = c.stop then .ok (c, w)
      else .ok ({ c with current := c.current + 1 }, w)
  key c _ :=
    if c.current = c.stop then
      .error (.logicError "ImmutableMemTableCursor::key() called on invalid cursor")
    else do
      let row ← c.row
      return rowKey row
  value c _ columnIdx :=
    if c.current = c.stop then
      .error (.logicError "ImmutableMemTableCursor::value() called on invalid cursor")
    else do
      let row ← c.row
      match row[columnIdx]? with
      | some value => return value
      | none => throw (.outOfRange "Column index out of range")

def Holds (width : Nat) (_ : World) (c : ImmutableMemTableCursor) (rows : List Row) : Prop :=
  c.current ≤ c.stop ∧ c.stop ≤ c.data.length ∧ (∀ row ∈ rows, row.length = width) ∧
    rows = Splitting.slice c.data c.current c.stop

theorem Holds.length_eq {width : Nat} {w : World} {c : ImmutableMemTableCursor} {rows : List Row}
    (h : Holds width w c rows) : c.stop = c.current + rows.length := by
  obtain ⟨hle, hstop, -, hrows⟩ := h
  rw [hrows, Splitting.length_slice c.data hstop]
  omega

theorem Holds.row {projection : List Nat} {width : Nat} (hprojection : ∀ i ∈ projection, i < width)
    {w : World} {c : ImmutableMemTableCursor} {row : Row} {rest : List Row}
    (h : Holds width w c (row :: rest)) :
    ICursor.valid c = true ∧ ICursor.key c w = .ok (rowKey row) ∧
      (∀ i ∈ projection, ICursor.value c w i = .ok (cell row i)) ∧
      ∃ c', ICursor.next c w = .ok (c', w) ∧ c'.stop = c.stop ∧ c'.data = c.data ∧
        Holds width w c' rest := by
  have hlength := h.length_eq
  rw [List.length_cons] at hlength
  obtain ⟨hle, hstop, hwidth, hrows⟩ := h
  have hlt : c.current < c.data.length := by omega
  have hne : c.current ≠ c.stop := by omega
  have hslice : Splitting.slice c.data c.current c.stop =
      c.data[c.current] :: Splitting.slice c.data (c.current + 1) c.stop := by
    rw [Splitting.slice, Splitting.slice, List.drop_eq_getElem_cons hlt,
      show c.stop - c.current = c.stop - (c.current + 1) + 1 by omega, List.take_succ_cons]
  rw [hslice, List.cons.injEq] at hrows
  have hread : c.row = .ok row := by
    rw [ImmutableMemTableCursor.row, List.getElem?_eq_getElem hlt, hrows.1]
  refine ⟨by simp [ICursor.valid, hne], ?_, ?_, { c with current := c.current + 1 }, ?_, rfl, rfl,
    (by omega : c.current + 1 ≤ c.stop), hstop, fun r hr => hwidth r (List.mem_cons_of_mem _ hr),
    hrows.2⟩
  · simp only [ICursor.key, if_neg hne, hread, Result.ok_bind, Result.pure_eq]
  · intro i hi
    have hin : i < row.length := by
      rw [hwidth row List.mem_cons_self]
      exact hprojection i hi
    simp only [ICursor.value, if_neg hne, hread, Result.ok_bind, List.getElem?_eq_getElem hin,
      Result.pure_eq, cell, List.getD_eq_getElem?_getD, Option.getD_some]
  · simp only [ICursor.next, if_neg hne]

theorem Holds.done {width : Nat} {w : World} {c : ImmutableMemTableCursor}
    (h : Holds width w c []) : c.current = c.stop := h.length_eq.symm

theorem model {projection : List Nat} {width : Nat} (hprojection : ∀ i ∈ projection, i < width)
    (contents : CacheKey → Option Bytes) :
    CursorModel projection contents (Holds width) where
  stable := fun h _ => h
  done := by
    intro w c h
    simp [ICursor.valid, h.done]
  row := by
    intro w c row rest hcache h
    obtain ⟨hvalid, hkey, hvalue, c', hnext, -, -, hrest⟩ := h.row hprojection
    exact ⟨hvalid, hkey, hvalue, c', w, hnext, hcache, SameMemory.refl w, hrest⟩

end ImmutableMemTableCursor

end Htap.Cursor
