import Htap.Executor.Plan

/-!
The executor's loop over a cursor, and what it computes on a cursor that reads a
list of rows: the same loop over the list.
-/

namespace Htap.Executor

open Storage SSTable Read Cursor

/-- One round of a loop: the new state, and whether to break. -/
abbrev Body (σ : Type) : Type := (Nat → Result NullableValue) → σ → Result (σ × Bool)

variable {α σ : Type}

/-- `while (cursor->valid()) { ...; cursor->next(); }`, for at most `fuel` rounds. -/
def whileValid [ICursor α] (body : Body σ) : Nat → α → World → σ → Result σ
  | fuel, c, w, s =>
    if ICursor.valid c then
      match fuel with
      | 0 => throw .outOfFuel
      | fuel + 1 => do
        let (s, stop) ← body (ICursor.value c w) s
        if stop then return s
        let (c, w) ← ICursor.next c w
        whileValid body fuel c w s
    else return s

/-- Reading cursor `c` to its end gives `rows`, as far as the projected columns
show them. -/
inductive Reads [ICursor α] (projection : List Nat) : α → World → List Row → Prop where
  | done {c : α} {w : World} (h : ICursor.valid c = false) : Reads projection c w []
  | row {c c' : α} {w w' : World} {row : Row} {rest : List Row}
      (hvalid : ICursor.valid c = true)
      (hvalue : ∀ i ∈ projection, ICursor.value c w i = .ok (cell row i))
      (hnext : ICursor.next c w = .ok (c', w')) (hrest : Reads projection c' w' rest) :
      Reads projection c w (row :: rest)

/-- The loop over a list of rows. -/
def foldRows (body : Body σ) : List Row → σ → Result σ
  | [], s => .ok s
  | row :: rest, s => do
    let (s, stop) ← body (rowValue row) s
    if stop then return s
    foldRows body rest s

/-- The body reads projected columns only. -/
def ReadsOnly (projection : List Nat) (body : Body σ) : Prop :=
  ∀ (value value' : Nat → Result NullableValue) s, (∀ i ∈ projection, value i = value' i) →
    body value s = body value' s

/-- On a cursor that reads `rows` the loop is the loop over `rows`. -/
theorem whileValid_eq [ICursor α] {projection : List Nat} {body : Body σ}
    (hbody : ReadsOnly projection body) {c : α} {w : World} {rows : List Row}
    (h : Reads projection c w rows) {fuel : Nat} (hfuel : rows.length ≤ fuel) (s : σ) :
    whileValid body fuel c w s = foldRows body rows s := by
  induction h generalizing fuel s with
  | done h =>
    unfold whileValid
    rw [if_neg (by simp [h])]
    rfl
  | @row c c' w w' row rest hvalid hvalue hnext _ ih =>
    cases fuel with
    | zero => simp at hfuel
    | succ fuel =>
      have hstep : body (ICursor.value c w) s = body (rowValue row) s := hbody _ _ s hvalue
      rw [whileValid, foldRows, if_pos hvalid, hstep]
      cases body (rowValue row) s with
      | error e => rfl
      | ok next =>
        obtain ⟨s', stop⟩ := next
        cases stop with
        | true => rfl
        | false =>
          simp only [Result.ok_bind, hnext, Bool.false_eq_true, if_false]
          exact ih (by simpa using hfuel) s'

/-! ## Early exit -/

/-- What every round keeps, the loop keeps. -/
theorem whileValid_invariant [ICursor α] {body : Body σ} {P : σ → Prop}
    (hstep : ∀ value s s' stop, P s → body value s = .ok (s', stop) → P s') {fuel : Nat} {c : α}
    {w : World} {s final : σ} (hs : P s) (h : whileValid body fuel c w s = .ok final) :
    P final := by
  induction fuel generalizing c w s with
  | zero =>
    unfold whileValid at h
    split at h
    · cases h
    · cases h
      exact hs
  | succ fuel ih =>
    unfold whileValid at h
    split at h
    · obtain ⟨⟨s', stop⟩, hs', hrest⟩ := Result.bind_eq_ok.mp h
      have hP := hstep _ _ _ _ hs hs'
      dsimp only at hrest
      split at hrest
      · cases hrest
        exact hP
      · obtain ⟨⟨c', w'⟩, -, hrest⟩ := Result.bind_eq_ok.mp hrest
        exact ih hP hrest
    · cases h
      exact hs

/-- What every round on one of the rows keeps, the loop over the rows keeps. -/
theorem foldRows_invariant {body : Body σ} {P : σ → Prop} {rows : List Row}
    (hstep : ∀ row ∈ rows, ∀ s s' stop, P s → body (rowValue row) s = .ok (s', stop) → P s')
    {s final : σ} (hs : P s) (h : foldRows body rows s = .ok final) : P final := by
  induction rows generalizing s with
  | nil =>
    cases h
    exact hs
  | cons row rest ih =>
    obtain ⟨⟨s', stop⟩, hbody, h⟩ := Result.bind_eq_ok.mp h
    have hP := hstep row List.mem_cons_self s s' stop hs hbody
    cases stop with
    | true =>
      cases h
      exact hP
    | false => exact ih (fun r hr => hstep r (List.mem_cons_of_mem row hr)) hP h

/-- A loop that returns without breaking has read its whole cursor. -/
theorem length_le_fuel [ICursor α] {body : Body σ} {projection : List Nat}
    (hstop : ∀ value s s' stop, body value s = .ok (s', stop) → stop = false) {c : α} {w : World}
    {rows : List Row} (hreads : Reads projection c w rows) {fuel : Nat} {s final : σ}
    (h : whileValid body fuel c w s = .ok final) : rows.length ≤ fuel := by
  induction hreads generalizing fuel s with
  | done _ => exact Nat.zero_le fuel
  | row hvalid _ hnext _ ih =>
    unfold whileValid at h
    rw [if_pos hvalid] at h
    cases fuel with
    | zero => cases h
    | succ fuel =>
      obtain ⟨⟨s', stop⟩, hbody, hrest⟩ := Result.bind_eq_ok.mp h
      obtain rfl := hstop _ _ _ _ hbody
      simp only [Bool.false_eq_true, if_false, hnext, Result.ok_bind] at hrest
      exact Nat.succ_le_succ (ih hrest)

/-- A loop that only differs from another by breaking when it is `Done`: it
returns too, in the same state or in an earlier one of the other loop. -/
theorem whileValid_break [ICursor α] {body body' : Body σ} {Going Done : σ → Prop}
    {Later : σ → σ → Prop} (hrefl : ∀ s, Later s s)
    (hlater : ∀ t value s s' stop, Later t s → body' value s = .ok (s', stop) → Later t s')
    (hstep : ∀ value s s' stop, Going s → body' value s = .ok (s', stop) →
      stop = false ∧ ((body value s = .ok (s', false) ∧ Going s') ∨
        (body value s = .ok (s', true) ∧ Done s')))
    {fuel : Nat} {c : α} {w : World} {s final : σ} (hs : Going s)
    (h : whileValid body' fuel c w s = .ok final) :
    ∃ t, whileValid body fuel c w s = .ok t ∧
      ((t = final ∧ Going t) ∨ (Done t ∧ Later t final)) := by
  induction fuel generalizing c w s with
  | zero =>
    unfold whileValid at h ⊢
    split at h
    · cases h
    · rename_i hinvalid
      cases h
      exact ⟨final, by rw [if_neg hinvalid]; rfl, Or.inl ⟨rfl, hs⟩⟩
  | succ fuel ih =>
    unfold whileValid at h ⊢
    split at h
    · rename_i hvalid
      obtain ⟨⟨s', stop⟩, hs', hrest⟩ := Result.bind_eq_ok.mp h
      obtain ⟨rfl, hnext⟩ := hstep _ _ _ _ hs hs'
      obtain ⟨⟨c', w'⟩, hmove, hrest⟩ := Result.bind_eq_ok.mp hrest
      rcases hnext with ⟨hsame, hgoing⟩ | ⟨hbreak, hdone⟩
      · obtain ⟨t, ht, hcases⟩ := ih hgoing hrest
        refine ⟨t, ?_, hcases⟩
        simp only [if_pos hvalid, hsame, Result.ok_bind, hmove]
        exact ht
      · refine ⟨s', ?_, Or.inr ⟨hdone, whileValid_invariant (hlater s') (hrefl s') hrest⟩⟩
        simp only [if_pos hvalid, hbreak, Result.ok_bind]
        rfl
    · rename_i hinvalid
      cases h
      exact ⟨final, by rw [if_neg hinvalid]; rfl, Or.inl ⟨rfl, hs⟩⟩

end Htap.Executor
