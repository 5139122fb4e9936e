import Htap.Basis.Merging
import Htap.Cursor.BlockScan

/-!
`ChainCursor`, `MergeCursor` and `compose_cursors`. A chain yields the rows of
its cursors one after another, a merge yields them in key order; among equal
keys the cursor that was given first comes first.
-/

namespace Htap.Cursor

open Storage Read

variable {α : Type} [ICursor α]

/-! ## Chains -/

structure ChainCursor (α : Type) where
  cursors : List α
  current : Nat

namespace ChainCursor

/-- `skip_invalid_cursors`. -/
def skipInvalidCursors (cursors : List α) (current : Nat) : Nat :=
  current + ((cursors.drop current).takeWhile fun c => !ICursor.valid c).length

def create (cursors : List α) : ChainCursor α := ⟨cursors, skipInvalidCursors cursors 0⟩

instance : ICursor (ChainCursor α) where
  valid c := (c.cursors[c.current]?).any ICursor.valid
  next c w :=
    match c.cursors[c.current]? with
    | none => .ok (c, w)
    | some cursor =>
      if !ICursor.valid cursor then .ok (c, w)
      else do
        let (cursor, w) ← ICursor.next cursor w
        let cursors := c.cursors.set c.current cursor
        return (⟨cursors, skipInvalidCursors cursors c.current⟩, w)
  key c w :=
    match c.cursors[c.current]? with
    | none => .error (.logicError "ChainCursor::key() called on invalid cursor")
    | some cursor =>
      if !ICursor.valid cursor then
        .error (.logicError "ChainCursor::key() called on invalid cursor")
      else ICursor.key cursor w
  value c w columnIdx :=
    match c.cursors[c.current]? with
    | none => .error (.logicError "ChainCursor::value() called on invalid cursor")
    | some cursor =>
      if !ICursor.valid cursor then
        .error (.logicError "ChainCursor::value() called on invalid cursor")
      else ICursor.value cursor w columnIdx

end ChainCursor

/-! ## Merges -/

/-- The priority queue holds the key of every valid cursor, with its index. -/
structure MergeCursor (α : Type) where
  cursors : List α
  heap : List (Key × Nat)

namespace MergeCursor

def pushIfValid (cursors : List α) (w : World) (heap : List (Key × Nat)) (cursorIndex : Nat) :
    Result (List (Key × Nat)) :=
  match cursors[cursorIndex]? with
  | none => .ok heap
  | some cursor =>
    if ICursor.valid cursor then do
      let key ← ICursor.key cursor w
      return Merging.push heap (key, cursorIndex)
    else .ok heap

def create (cursors : List α) (w : World) : Result (MergeCursor α) := do
  let heap ← (List.range cursors.length).foldlM (pushIfValid cursors w) []
  return ⟨cursors, heap⟩

instance : ICursor (MergeCursor α) where
  valid c := !c.heap.isEmpty
  next c w :=
    match c.heap with
    | [] => .ok (c, w)
    | (_, popCursor) :: heap =>
      match c.cursors[popCursor]? with
      | none => .error .danglingIterator
      | some cursor => do
        let (cursor, w) ← ICursor.next cursor w
        let cursors := c.cursors.set popCursor cursor
        let heap ← pushIfValid cursors w heap popCursor
        return (⟨cursors, heap⟩, w)
  key c _ :=
    match c.heap with
    | [] => .error (.logicError "MergeCursor::key() called on invalid cursor")
    | (key, _) :: _ => .ok key
  value c w columnIdx :=
    match c.heap with
    | [] => .error (.logicError "MergeCursor::value() called on invalid cursor")
    | (_, currentCursor) :: _ =>
      match c.cursors[currentCursor]? with
      | none => .error .danglingIterator
      | some cursor => ICursor.value cursor w columnIdx

end MergeCursor

/-! ## `compose_cursors` -/

inductive ComposedCursor (α : Type) where
  | empty (c : EmptyCursor)
  | single (c : α)
  | chain (c : ChainCursor α)
  | merge (c : MergeCursor α)

namespace ComposedCursor

instance : ICursor (ComposedCursor α) where
  valid
    | .empty c => ICursor.valid c
    | .single c => ICursor.valid c
    | .chain c => ICursor.valid c
    | .merge c => ICursor.valid c
  next
    | .empty c, w => do
      let (c, w) ← ICursor.next c w
      return (.empty c, w)
    | .single c, w => do
      let (c, w) ← ICursor.next c w
      return (.single c, w)
    | .chain c, w => do
      let (c, w) ← ICursor.next c w
      return (.chain c, w)
    | .merge c, w => do
      let (c, w) ← ICursor.next c w
      return (.merge c, w)
  key
    | .empty c => ICursor.key c
    | .single c => ICursor.key c
    | .chain c => ICursor.key c
    | .merge c => ICursor.key c
  value
    | .empty c => ICursor.value c
    | .single c => ICursor.value c
    | .chain c => ICursor.value c
    | .merge c => ICursor.value c

end ComposedCursor

def composeCursors (cursors : List α) (order : ScanOrder) (w : World) :
    Result (ComposedCursor α) :=
  match cursors.filter ICursor.valid with
  | [] => .ok (.empty {})
  | [cursor] => .ok (.single cursor)
  | validCursors =>
    match order with
    | .unordered => .ok (.chain (ChainCursor.create validCursors))
    | .keyAscending => do
      let cursor ← MergeCursor.create validCursors w
      return .merge cursor

/-! ## What a chain yields -/

variable {projection : List Nat} {contents : CacheKey → Option Bytes}
  {Leaf : World → α → List Row → Prop}

omit [ICursor α] in
theorem forall₂_mono {P Q : α → List Row → Prop} {cursors : List α}
    {sources : List (List Row)} (hpq : ∀ c rows, c ∈ cursors → P c rows → Q c rows)
    (h : List.Forall₂ P cursors sources) : List.Forall₂ Q cursors sources := by
  induction h with
  | nil => exact List.Forall₂.nil
  | cons hhead _ ih =>
    exact List.Forall₂.cons (hpq _ _ List.mem_cons_self hhead)
      (ih fun c rows hc => hpq c rows (List.mem_cons_of_mem _ hc))

namespace ChainCursor

/-- The cursors from the current one on hold `rows` together, and the current
one is not used up. -/
def Holds (Leaf : World → α → List Row → Prop) (w : World) (c : ChainCursor α) (rows : List Row) :
    Prop :=
  ∃ sources, List.Forall₂ (Leaf w) (c.cursors.drop c.current) sources ∧ rows = sources.flatten ∧
    ∀ source rest, sources = source :: rest → source ≠ []

omit [ICursor α] in
private theorem holds_nil {w : World} {c : ChainCursor α}
    (h : Holds Leaf w c []) : c.cursors[c.current]? = none := by
  obtain ⟨sources, hleaves, hrows, hfirst⟩ := h
  cases sources with
  | nil =>
    have hdrop := List.forall₂_nil_right_iff.mp hleaves
    exact List.getElem?_eq_none (List.drop_eq_nil_iff.mp hdrop)
  | cons source rest =>
    have hnil := List.flatten_eq_nil_iff.mp hrows.symm source List.mem_cons_self
    exact absurd hnil (hfirst source rest rfl)

/-- Skipping used up cursors loses no rows. -/
theorem holds_skip (hmodel : CursorModel projection contents Leaf) {cursors : List α}
    {current : Nat} {sources : List (List Row)} {w : World}
    (hcache : CacheCoherent contents w.blockCache)
    (h : List.Forall₂ (Leaf w) (cursors.drop current) sources) :
    Holds Leaf w ⟨cursors, skipInvalidCursors cursors current⟩ sources.flatten := by
  induction sources generalizing current with
  | nil =>
    have hdrop := List.forall₂_nil_right_iff.mp h
    refine ⟨[], ?_, rfl, by simp⟩
    simp [skipInvalidCursors, hdrop]
  | cons source sources ih =>
    cases hdrop : cursors.drop current with
    | nil => simp [hdrop] at h
    | cons c rest =>
      rw [hdrop, List.forall₂_cons] at h
      have hvalid := hmodel.valid_eq hcache h.1
      have hrest : cursors.drop (current + 1) = rest := by
        rw [← List.drop_drop, hdrop]
        rfl
      cases source with
      | nil =>
        have hnext := @ih (current + 1) (by rw [hrest]; exact h.2)
        have hskip : skipInvalidCursors cursors current =
            skipInvalidCursors cursors (current + 1) := by
          have hinvalid : ICursor.valid c = false := by simpa using hvalid
          simp only [skipInvalidCursors, hdrop, hrest, hinvalid, Bool.not_false,
            List.takeWhile_cons_of_pos, List.length_cons]
          omega
        rw [hskip]
        exact hnext
      | cons row more =>
        have hskip : skipInvalidCursors cursors current = current := by
          have hcurrent : ICursor.valid c = true := by simpa using hvalid
          simp [skipInvalidCursors, hdrop, hcurrent]
        rw [hskip]
        refine ⟨(row :: more) :: sources, ?_, rfl, ?_⟩
        · rw [hdrop]
          exact List.Forall₂.cons h.1 h.2
        · intro source' rest' heq
          cases heq
          exact List.cons_ne_nil _ _

theorem model (hmodel : CursorModel projection contents Leaf) :
    CursorModel projection contents (Holds Leaf) where
  stable := by
    intro w w' c rows h hsame
    obtain ⟨sources, hleaves, hrows, hfirst⟩ := h
    exact ⟨sources, forall₂_mono (fun _ _ _ hleaf => hmodel.stable hleaf hsame) hleaves, hrows,
      hfirst⟩
  done := by
    intro w c h
    simp [ICursor.valid, holds_nil h]
  row := by
    intro w c row rest hcache h
    obtain ⟨sources, hleaves, hrows, hfirst⟩ := h
    cases sources with
    | nil => cases hrows
    | cons source sources =>
      cases source with
      | nil => exact absurd rfl (hfirst [] sources rfl)
      | cons first more =>
        rw [List.flatten_cons, List.cons_append, List.cons.injEq] at hrows
        obtain ⟨rfl, rfl⟩ := hrows
        cases hdrop : c.cursors.drop c.current with
        | nil => simp [hdrop] at hleaves
        | cons cursor others =>
          rw [hdrop, List.forall₂_cons] at hleaves
          have hget : c.cursors[c.current]? = some cursor := by
            rw [← Nat.add_zero c.current, ← List.getElem?_drop, hdrop]
            rfl
          obtain ⟨hlt, -⟩ := List.getElem?_eq_some_iff.mp hget
          obtain ⟨hvalid, hkey, hvalue, cursor', w', hnext, hcache', hsame, hrest⟩ :=
            hmodel.row hcache hleaves.1
          have hothers : List.Forall₂ (Leaf w') others sources :=
            forall₂_mono (fun _ _ _ hleaf => hmodel.stable hleaf hsame) hleaves.2
          have hset : (c.cursors.set c.current cursor').drop c.current = cursor' :: others := by
            have htail : c.cursors.drop (c.current + 1) = others := by
              rw [← List.drop_drop, hdrop]
              rfl
            rw [List.drop_eq_getElem_cons (by rw [List.length_set]; exact hlt),
              List.getElem_set_self, List.drop_set_of_lt (Nat.lt_succ_self _), htail]
          have hskip := holds_skip hmodel hcache'
            (hset ▸ List.Forall₂.cons hrest hothers)
          refine ⟨by simp [ICursor.valid, hget, hvalid], ?_, ?_, _, w', ?_, hcache', hsame, hskip⟩
          · simp only [ICursor.key, hget, hvalid, Bool.not_true, Bool.false_eq_true, if_false, hkey]
          · intro i hi
            simp only [ICursor.value, hget, hvalid, Bool.not_true, Bool.false_eq_true, if_false,
              hvalue i hi]
          · simp only [ICursor.next, hget, hvalid, Bool.not_true, Bool.false_eq_true, if_false,
              hnext, Result.ok_bind, Result.pure_eq]

end ChainCursor

/-! ## What a merge yields -/

namespace MergeCursor

/-- The cursors hold sorted rows, and the heap has one item for each that is
not used up. -/
def Holds (Leaf : World → α → List Row → Prop) (w : World) (c : MergeCursor α) (rows : List Row) :
    Prop :=
  ∃ sources, List.Forall₂ (Leaf w) c.cursors sources ∧
    (∀ source ∈ sources, Merging.SortedBy rowKey source) ∧
    Merging.HeapOf (Merging.headKey rowKey sources) c.heap ∧
    rows = Merging.stableSort rowKey sources.flatten

/-- Pushing a cursor again notes the key it stands at now. -/
private theorem pushIfValid_spec (hmodel : CursorModel projection contents Leaf) {w : World}
    (hcache : CacheCoherent contents w.blockCache) {cursors : List α} {i : Nat} {c : α}
    {rows : List Row} (hget : cursors[i]? = some c) (hleaf : Leaf w c rows)
    {heads : Nat → Option Key} {heap : List (Key × Nat)} (hheap : Merging.HeapOf heads heap)
    (hfree : heads i = none) :
    ∃ heap', pushIfValid cursors w heap i = .ok heap' ∧
      Merging.HeapOf (Function.update heads i (rows.head?.map rowKey)) heap' := by
  unfold pushIfValid
  rw [hget]
  cases rows with
  | nil =>
    refine ⟨heap, by simp [hmodel.done hleaf], ?_⟩
    rwa [List.head?_nil, Option.map_none, ← hfree, Function.update_eq_self]
  | cons row rest =>
    obtain ⟨hvalid, hkey, -⟩ := hmodel.row hcache hleaf
    exact ⟨_, by simp only [hvalid, if_true, hkey, Result.ok_bind, Result.pure_eq],
      hheap.push hfree (rowKey row)⟩

omit [ICursor α] in
private theorem forall₂_set {P : α → List Row → Prop} {cursors : List α}
    {sources : List (List Row)} (h : List.Forall₂ P cursors sources) {i : Nat} {c : α}
    {rows : List Row} (hc : P c rows) : List.Forall₂ P (cursors.set i c) (sources.set i rows) := by
  induction h generalizing i with
  | nil => exact List.Forall₂.nil
  | cons hhead htail ih =>
    cases i with
    | zero => exact List.Forall₂.cons hc htail
    | succ i => exact List.Forall₂.cons hhead ih

omit [ICursor α] in
private theorem forall₂_getElem? {P : α → List Row → Prop} {cursors : List α}
    {sources : List (List Row)} (h : List.Forall₂ P cursors sources) {i : Nat} {rows : List Row}
    (hi : sources[i]? = some rows) : ∃ c, cursors[i]? = some c ∧ P c rows := by
  induction h generalizing i with
  | nil => simp at hi
  | @cons c source cursors sources hhead htail ih =>
    cases i with
    | zero =>
      rw [List.getElem?_cons_zero, Option.some.injEq] at hi
      exact ⟨c, rfl, hi ▸ hhead⟩
    | succ i => exact ih hi

/-- The constructor pushes the first key of every cursor that is not used up. -/
theorem create_heap (hmodel : CursorModel projection contents Leaf) {w : World}
    (hcache : CacheCoherent contents w.blockCache) {cursors : List α} {sources : List (List Row)}
    (hleaves : List.Forall₂ (Leaf w) cursors sources) :
    ∃ heap, create cursors w = .ok ⟨cursors, heap⟩ ∧
      Merging.HeapOf (Merging.headKey rowKey sources) heap := by
  -- the heap after the first `n` cursors has the items of those cursors
  have hpushed : ∀ n ≤ cursors.length, ∃ heap,
      (List.range n).foldlM (pushIfValid cursors w) [] = .ok heap ∧
        Merging.HeapOf (fun i => if i < n then Merging.headKey rowKey sources i else none)
          heap := by
    intro n
    induction n with
    | zero =>
      intro _
      exact ⟨[], rfl, by simpa using Merging.HeapOf.nil⟩
    | succ n ih =>
      intro hle
      obtain ⟨heap, hfold, hheap⟩ := ih (by omega)
      have hlt : n < sources.length := by
        rw [← hleaves.length_eq]
        omega
      have hsource := List.getElem?_eq_getElem hlt
      obtain ⟨c, hget, hleaf⟩ := forall₂_getElem? hleaves hsource
      obtain ⟨heap', hpush, hheap'⟩ :=
        pushIfValid_spec hmodel hcache hget hleaf hheap (by simp)
      refine ⟨heap', ?_, ?_⟩
      · rw [List.range_succ, List.foldlM_append, hfold, Result.ok_bind]
        simp only [List.foldlM_cons, List.foldlM_nil, hpush, Result.ok_bind, Result.pure_eq]
      · have hheads : (fun i => if i < n + 1 then Merging.headKey rowKey sources i else none) =
            Function.update (fun i => if i < n then Merging.headKey rowKey sources i else none) n
              (sources[n].head?.map rowKey) := by
          funext i
          rw [Function.update_apply]
          by_cases hi : i = n
          · subst hi
            simp [Merging.headKey, hsource]
          · simp only [hi, if_false]
            congr 1
            exact propext ⟨fun h => by omega, fun h => by omega⟩
        rw [hheads]
        exact hheap'
  obtain ⟨heap, hfold, hheap⟩ := hpushed cursors.length le_rfl
  have hheads : (fun i => if i < cursors.length then Merging.headKey rowKey sources i else none) =
      Merging.headKey rowKey sources := by
    funext i
    split
    · rfl
    · rename_i hge
      rw [hleaves.length_eq] at hge
      rw [Merging.headKey, List.getElem?_eq_none (not_lt.mp hge)]
      rfl
  rw [hheads] at hheap
  refine ⟨heap, ?_, hheap⟩
  rw [create, hfold]
  rfl

theorem create_spec (hmodel : CursorModel projection contents Leaf) {w : World}
    (hcache : CacheCoherent contents w.blockCache) {cursors : List α} {sources : List (List Row)}
    (hleaves : List.Forall₂ (Leaf w) cursors sources)
    (hsorted : ∀ source ∈ sources, Merging.SortedBy rowKey source) :
    ∃ c, create cursors w = .ok c ∧
      Holds Leaf w c (Merging.stableSort rowKey sources.flatten) := by
  obtain ⟨heap, hcreate, hheap⟩ := create_heap hmodel hcache hleaves
  exact ⟨⟨cursors, heap⟩, hcreate, sources, hleaves, hsorted, hheap, rfl⟩

omit [ICursor α] in
/-- The top of the heap is the cursor whose row comes next. -/
theorem top_spec {w : World} {c : MergeCursor α} {sources : List (List Row)}
    (hleaves : List.Forall₂ (Leaf w) c.cursors sources)
    (hheap : Merging.HeapOf (Merging.headKey rowKey sources) c.heap) {k : Key} {i : Nat}
    {heap : List (Key × Nat)} (hitems : c.heap = (k, i) :: heap) :
    ∃ first more cursor, sources[i]? = some (first :: more) ∧ rowKey first = k ∧
      Merging.HeadFirst rowKey sources i first ∧ c.cursors[i]? = some cursor ∧
      Leaf w cursor (first :: more) := by
  rw [hitems] at hheap
  obtain ⟨first, more, hsource, hkey, hfirst⟩ := Merging.HeapOf.headFirst rowKey hheap
  obtain ⟨cursor, hget, hleaf⟩ := forall₂_getElem? hleaves hsource
  exact ⟨first, more, cursor, hsource, hkey, hfirst, hget, hleaf⟩

/-- A step moves the top cursor on and notes its new key. -/
theorem next_spec (hmodel : CursorModel projection contents Leaf) {w : World}
    (hcache : CacheCoherent contents w.blockCache) {c : MergeCursor α}
    {sources : List (List Row)} (hleaves : List.Forall₂ (Leaf w) c.cursors sources)
    (hheap : Merging.HeapOf (Merging.headKey rowKey sources) c.heap) {k : Key} {i : Nat}
    {heap : List (Key × Nat)} (hitems : c.heap = (k, i) :: heap) {first : Row} {more : List Row}
    (hsource : sources[i]? = some (first :: more)) :
    ∃ c' w', ICursor.next c w = .ok (c', w') ∧ CacheCoherent contents w'.blockCache ∧
      SameMemory w w' ∧ List.Forall₂ (Leaf w') c'.cursors (sources.set i more) ∧
      Merging.HeapOf (Merging.headKey rowKey (sources.set i more)) c'.heap := by
  rw [hitems] at hheap
  obtain ⟨hlt, -⟩ := List.getElem?_eq_some_iff.mp hsource
  obtain ⟨cursor, hget, hleaf⟩ := forall₂_getElem? hleaves hsource
  obtain ⟨-, -, -, cursor', w', hnext, hcache', hsame, hrest⟩ := hmodel.row hcache hleaf
  have hleaves' : List.Forall₂ (Leaf w') (c.cursors.set i cursor') (sources.set i more) :=
    forall₂_set (forall₂_mono (fun _ _ _ hl => hmodel.stable hl hsame) hleaves) hrest
  have hset : (c.cursors.set i cursor')[i]? = some cursor' :=
    List.getElem?_set_self (by rw [hleaves.length_eq]; exact hlt)
  obtain ⟨heap', hpush, hheap'⟩ := pushIfValid_spec hmodel hcache' hset hrest hheap.pop
    (by rw [Function.update_self])
  rw [Function.update_idem, ← Merging.headKey_set rowKey hlt] at hheap'
  refine ⟨⟨c.cursors.set i cursor', heap'⟩, w', ?_, hcache', hsame, hleaves', hheap'⟩
  simp only [ICursor.next, hitems, hget, hnext, Result.ok_bind, hpush, Result.pure_eq]

theorem model (hmodel : CursorModel projection contents Leaf) :
    CursorModel projection contents (Holds Leaf) where
  stable := by
    intro w w' c rows h hsame
    obtain ⟨sources, hleaves, hsorted, hheap, hrows⟩ := h
    exact ⟨sources, forall₂_mono (fun _ _ _ hleaf => hmodel.stable hleaf hsame) hleaves, hsorted,
      hheap, hrows⟩
  done := by
    intro w c h
    obtain ⟨sources, -, -, hheap, hrows⟩ := h
    cases hitems : c.heap with
    | nil => simp [ICursor.valid, hitems]
    | cons top rest =>
      rw [hitems] at hheap
      obtain ⟨x, more, hget, -, -⟩ := Merging.HeapOf.headFirst rowKey hheap
      have hperm := Merging.stableSort_perm rowKey sources.flatten
      rw [← hrows] at hperm
      have hmem := List.mem_flatten_of_mem (List.mem_of_getElem? hget) List.mem_cons_self
      rw [List.nil_perm.mp hperm] at hmem
      cases hmem
  row := by
    intro w c row rest hcache h
    obtain ⟨sources, hleaves, hsorted, hheap, hrows⟩ := h
    cases hitems : c.heap with
    | nil =>
      rw [hitems] at hheap
      rw [Merging.HeapOf.flatten_eq_nil rowKey hheap] at hrows
      cases hrows
    | cons top heap =>
      obtain ⟨k, i⟩ := top
      obtain ⟨first, more, cursor, hsource, rfl, hfirst, hget, hleaf⟩ :=
        top_spec hleaves hheap hitems
      have hpop := Merging.stableSort_flatten_pop rowKey sources i first more hsorted hsource hfirst
      rw [hpop, List.cons.injEq] at hrows
      obtain ⟨rfl, rfl⟩ := hrows
      obtain ⟨-, -, hvalue, -⟩ := hmodel.row hcache hleaf
      obtain ⟨c', w', hnext, hcache', hsame, hleaves', hheap'⟩ :=
        next_spec hmodel hcache hleaves hheap hitems hsource
      refine ⟨by simp [ICursor.valid, hitems], by simp only [ICursor.key, hitems],
        ?_, c', w', hnext,
        hcache', hsame, sources.set i more, hleaves', ?_, hheap', rfl⟩
      · intro j hj
        simp only [ICursor.value, hitems, hget, hvalue j hj]
      · exact Merging.sortedBy_set rowKey sources i _ more hsorted hsource

end MergeCursor

/-! ## What a composed cursor yields -/

namespace ComposedCursor

def Holds (Leaf : World → α → List Row → Prop) (w : World) : ComposedCursor α → List Row → Prop
  | .empty _, rows => rows = []
  | .single c, rows => Leaf w c rows
  | .chain c, rows => ChainCursor.Holds Leaf w c rows
  | .merge c, rows => MergeCursor.Holds Leaf w c rows

theorem model (hmodel : CursorModel projection contents Leaf) :
    CursorModel projection contents (Holds Leaf) where
  stable := by
    intro w w' c rows h hsame
    cases c with
    | empty c => exact h
    | single c => exact hmodel.stable h hsame
    | chain c => exact (ChainCursor.model hmodel).stable h hsame
    | merge c => exact (MergeCursor.model hmodel).stable h hsame
  done := by
    intro w c h
    cases c with
    | empty c => rfl
    | single c => exact hmodel.done h
    | chain c => exact (ChainCursor.model hmodel).done h
    | merge c => exact (MergeCursor.model hmodel).done h
  row := by
    intro w c row rest hcache h
    cases c with
    | empty c => cases h
    | single c =>
      obtain ⟨hvalid, hkey, hvalue, c', w', hnext, hrest⟩ := hmodel.row hcache h
      exact ⟨hvalid, hkey, hvalue, .single c', w', by simp only [ICursor.next, hnext]; rfl, hrest⟩
    | chain c =>
      obtain ⟨hvalid, hkey, hvalue, c', w', hnext, hrest⟩ :=
        (ChainCursor.model hmodel).row hcache h
      refine ⟨hvalid, hkey, hvalue, .chain c', w', ?_, hrest⟩
      change (ICursor.next c w >>= _) = _
      rw [hnext]
      rfl
    | merge c =>
      obtain ⟨hvalid, hkey, hvalue, c', w', hnext, hrest⟩ :=
        (MergeCursor.model hmodel).row hcache h
      refine ⟨hvalid, hkey, hvalue, .merge c', w', ?_, hrest⟩
      change (ICursor.next c w >>= _) = _
      rw [hnext]
      rfl

end ComposedCursor

/-- The rows a scan of the given sources yields. -/
def ordered (order : ScanOrder) (sources : List (List Row)) : List Row :=
  match order with
  | .unordered => sources.flatten
  | .keyAscending => Merging.stableSort rowKey sources.flatten

theorem ordered_perm (order : ScanOrder) (sources : List (List Row)) :
    (ordered order sources).Perm sources.flatten := by
  cases order with
  | unordered => exact List.Perm.refl _
  | keyAscending => exact Merging.stableSort_perm rowKey _

private theorem filter_valid (hmodel : CursorModel projection contents Leaf) {w : World}
    (hcache : CacheCoherent contents w.blockCache) {cursors : List α} {sources : List (List Row)}
    (hleaves : List.Forall₂ (Leaf w) cursors sources) :
    List.Forall₂ (Leaf w) (cursors.filter ICursor.valid)
      (sources.filter fun source => !source.isEmpty) := by
  induction hleaves with
  | nil => exact List.Forall₂.nil
  | @cons c source cursors sources hhead _ ih =>
    rw [List.filter_cons, List.filter_cons, hmodel.valid_eq hcache hhead]
    split
    · exact List.Forall₂.cons hhead ih
    · exact ih

private theorem flatten_filter (sources : List (List Row)) :
    (sources.filter fun source => !source.isEmpty).flatten = sources.flatten := by
  induction sources with
  | nil => rfl
  | cons source sources ih => cases source <;> simp [ih]

theorem composeCursors_spec (hmodel : CursorModel projection contents Leaf) {w : World}
    (hcache : CacheCoherent contents w.blockCache) {cursors : List α} {sources : List (List Row)}
    (hleaves : List.Forall₂ (Leaf w) cursors sources) (order : ScanOrder)
    (hsorted : order = .keyAscending → ∀ source ∈ sources, Merging.SortedBy rowKey source) :
    ∃ c, composeCursors cursors order w = .ok c ∧
      ComposedCursor.Holds Leaf w c (ordered order sources) := by
  have hvalid := filter_valid hmodel hcache hleaves
  have hsorted' : order = .keyAscending →
      ∀ source ∈ sources.filter fun source => !source.isEmpty, Merging.SortedBy rowKey source :=
    fun h source hsource => hsorted h source (List.mem_of_mem_filter hsource)
  have hordered : ordered order sources =
      ordered order (sources.filter fun source => !source.isEmpty) := by
    unfold ordered
    rw [flatten_filter]
  have hnonempty : ∀ source ∈ sources.filter fun source => !source.isEmpty, source ≠ [] := by
    intro source hsource
    simpa using (List.mem_filter.mp hsource).2
  rw [hordered]
  unfold composeCursors
  generalize cursors.filter ICursor.valid = kept at hvalid
  generalize sources.filter (fun source => !source.isEmpty) = parts at hvalid hsorted' hnonempty
  cases hvalid with
  | nil =>
    refine ⟨_, rfl, ?_⟩
    cases order <;> rfl
  | @cons c part cs parts hc hrest =>
    cases hrest with
    | nil =>
      refine ⟨_, rfl, ?_⟩
      have hone : ordered order [part] = part := by
        cases order with
        | unordered => simp [ordered]
        | keyAscending =>
          have hpart := hsorted' rfl part List.mem_cons_self
          simpa [ordered] using Merging.stableSort_of_sortedBy rowKey hpart
      rw [hone]
      exact hc
    | @cons c' part' cs parts hc' hrest =>
      have hall := List.Forall₂.cons hc (List.Forall₂.cons hc' hrest)
      cases order with
      | unordered =>
        refine ⟨_, rfl, ?_⟩
        have hskip := @ChainCursor.holds_skip α _ projection contents Leaf hmodel
          (c :: c' :: cs) 0 (part :: part' :: parts) w hcache hall
        exact hskip
      | keyAscending =>
        obtain ⟨m, hcreate, hholds⟩ :=
          MergeCursor.create_spec hmodel hcache hall (hsorted' rfl)
        refine ⟨.merge m, ?_, hholds⟩
        simp only [hcreate]
        rfl

end Htap.Cursor
