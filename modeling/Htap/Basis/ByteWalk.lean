import Htap.Basis.ByteFormat

/-!
Code that walks over a block of memory with a position. A load is checked
against the block by the code itself or not at all, so a load outside of the
block is a fault apart from the exceptions the code throws. A walk that checks
before every load is a parser of the bytes from its position on, and never
faults.
-/

namespace ByteWalk

open ByteFormat

/-- What ends a walk early. -/
inductive Fault (ε : Type) where
  | thrown (e : ε)
  | outOfBounds

/-- A computation over a block and a position in it. -/
def Walk (ε α : Type) : Type := List UInt8 → Nat → Except (Fault ε) (α × Nat)

namespace Walk

variable {ε α β : Type}

def run (w : Walk ε α) (block : List UInt8) (pos : Nat) : Except (Fault ε) (α × Nat) :=
  w block pos

protected def pure (a : α) : Walk ε α := fun _ pos => .ok (a, pos)

protected def bind (w : Walk ε α) (f : α → Walk ε β) : Walk ε β := fun block pos =>
  match w block pos with
  | .ok (a, pos) => f a block pos
  | .error fault => .error fault

instance : Monad (Walk ε) where
  pure := Walk.pure
  bind := Walk.bind

/-- `if (pos + size > block.size()) throw e`. -/
def require (e : ε) (size : Nat) : Walk ε Unit := fun block pos =>
  if block.length < pos + size then .error (.thrown e) else .ok ((), pos)

/-- The `size` bytes at the position. -/
def load (size : Nat) : Walk ε (List UInt8) := fun block pos =>
  if pos + size ≤ block.length then .ok ((block.drop pos).take size, pos)
  else .error .outOfBounds

def advance (size : Nat) : Walk ε Unit := fun _ pos => .ok ((), pos + size)

/-- `xs[i]`. -/
def access (xs : List α) (i : Nat) : Walk ε α := fun _ pos =>
  match xs[i]? with
  | some a => .ok (a, pos)
  | none => .error .outOfBounds

/-- `xs[i] = a`. -/
def assign (xs : List α) (i : Nat) (a : α) : Walk ε (List α) := fun _ pos =>
  if i < xs.length then .ok (xs.set i a, pos) else .error .outOfBounds

/-- Run `w` exactly `count` times. -/
def times (w : Walk ε α) : Nat → Walk ε (List α)
  | 0 => return []
  | count + 1 => do
    let first ← w
    let rest ← times w count
    return first :: rest

theorem pure_bind (a : α) (f : α → Walk ε β) : (Pure.pure a >>= f) = f a := rfl

theorem access_eq {xs : List α} {i : Nat} {a : α} (h : xs[i]? = some a) :
    (access xs i : Walk ε α) = Pure.pure a := by
  funext block pos
  rw [access, h]
  rfl

theorem assign_eq {xs : List α} {i : Nat} (a : α) (h : i < xs.length) :
    (assign xs i a : Walk ε (List α)) = Pure.pure (xs.set i a) := by
  funext block pos
  rw [assign, if_pos h]
  rfl

end Walk

/-- The walk stands where the parser stopped, or both threw. -/
inductive Agree {ε α : Type} (block : List UInt8) :
    Except (Fault ε) (α × Nat) → Except ε (α × List UInt8) → Prop
  | value (a : α) {pos : Nat} (h : pos ≤ block.length) :
    Agree block (.ok (a, pos)) (.ok (a, block.drop pos))
  | throws (e : ε) : Agree block (.error (.thrown e)) (.error e)

/-- From every position in every block, `w` does what `p` does with the bytes
that are left there. -/
def Follows {ε α : Type} (w : Walk ε α) (p : Parser ε α) : Prop :=
  ∀ (block : List UInt8) (pos : Nat), pos ≤ block.length →
    Agree block (w.run block pos) (p.run (block.drop pos))

namespace Follows

variable {ε α β : Type}

theorem pure (a : α) : Follows (Pure.pure a : Walk ε α) (Pure.pure a) :=
  fun _ _ h => .value a h

/-- Sequencing after a walk whose results are the `f a` of what `p` can read. -/
theorem bind_map {γ : Type} {w : Walk ε β} {p : Parser ε α} {f : α → β} {v : β → Walk ε γ}
    {q : α → Parser ε γ} (h : Follows w (p >>= fun a => Pure.pure (f a)))
    (hrest : ∀ a, (∃ raw rest, p.run raw = .ok (a, rest)) → Follows (v (f a)) (q a)) :
    Follows (w >>= v) (p >>= q) := by
  intro block pos hpos
  have hfirst := h block pos hpos
  change Agree block (w.run block pos) (Parser.bind p _ (block.drop pos)) at hfirst
  change Agree block (Walk.bind w v block pos) (Parser.bind p q (block.drop pos))
  unfold Walk.bind
  unfold Parser.bind at hfirst ⊢
  simp only [Walk.run] at hfirst
  cases hp : p (block.drop pos) with
  | error e =>
    rw [hp] at hfirst
    cases hw : w block pos with
    | error fault =>
      rw [hw] at hfirst
      cases hfirst
      exact .throws e
    | ok next =>
      rw [hw] at hfirst
      cases hfirst
  | ok read =>
    obtain ⟨a, rest⟩ := read
    rw [hp] at hfirst
    change Agree block (w block pos) (.ok (f a, rest)) at hfirst
    cases hw : w block pos with
    | error fault =>
      rw [hw] at hfirst
      cases hfirst
    | ok next =>
      rw [hw] at hfirst
      cases hfirst with
      | value _ hnext => exact hrest a ⟨block.drop pos, _, hp⟩ block _ hnext

theorem bind {w : Walk ε α} {p : Parser ε α} {f : α → Walk ε β} {g : α → Parser ε β}
    (h : Follows w p) (hrest : ∀ a, Follows (f a) (g a)) : Follows (w >>= f) (p >>= g) :=
  bind_map (by rwa [bind_pure]) fun a _ => hrest a

/-- A last result that is only repackaged. -/
theorem map {w : Walk ε α} {p : Parser ε α} (f : α → β) (h : Follows w p) :
    Follows (w >>= fun a => Pure.pure (f a)) (p >>= fun a => Pure.pure (f a)) :=
  h.bind fun a => Follows.pure (f a)

/-- Checked bytes. -/
theorem bytes (e : ε) (size : Nat) :
    Follows (do
      Walk.require e size
      let raw ← Walk.load size
      Walk.advance size
      return raw) (Parser.bytes e size) := by
  intro block pos hpos
  change Agree block (Walk.bind _ _ block pos) (Parser.bytes e size (block.drop pos))
  have hlength : (block.drop pos).length = block.length - pos := List.length_drop
  unfold Walk.bind Walk.require Parser.bytes
  by_cases hsize : block.length < pos + size
  · rw [if_pos hsize, if_neg (by omega)]
    exact .throws e
  · have hroom : pos + size ≤ block.length := by omega
    rw [if_neg hsize, if_pos (by omega), List.drop_drop]
    change Agree block (Walk.bind _ _ block pos) _
    unfold Walk.bind Walk.load
    rw [if_pos hroom]
    exact .value _ hroom

/-- Checked bytes that are skipped. -/
theorem skip (e : ε) (size : Nat) :
    Follows (do
      Walk.require e size
      Walk.advance size) (do
      let _ ← Parser.bytes e size
      return ()) := by
  intro block pos hpos
  change Agree block (Walk.bind _ _ block pos) (Parser.bind _ _ (block.drop pos))
  have hlength : (block.drop pos).length = block.length - pos := List.length_drop
  unfold Walk.bind Walk.require Parser.bind Parser.bytes
  by_cases hsize : block.length < pos + size
  · rw [if_pos hsize, if_neg (by omega)]
    exact .throws e
  · rw [if_neg hsize, if_pos (by omega), List.drop_drop]
    exact .value () (by omega)

theorem times {w : Walk ε α} {p : Parser ε α} (h : Follows w p) (count : Nat) :
    Follows (Walk.times w count) (Parser.times p count) := by
  induction count with
  | zero => exact pure []
  | succ count ih =>
    rw [Walk.times, Parser.times]
    exact h.bind fun first => ih.bind fun rest => pure (first :: rest)

/-- A walk that follows a parser stays within its block. -/
theorem run_eq {w : Walk ε α} {p : Parser ε α} (h : Follows w p) (block : List UInt8) :
    (w.run block 0).map Prod.fst = ((p.run block).map Prod.fst).mapError Fault.thrown := by
  have hagree := h block 0 (Nat.zero_le _)
  rw [List.drop_zero] at hagree
  cases hw : w.run block 0 <;> cases hp : p.run block <;> rw [hw, hp] at hagree <;>
    cases hagree <;> rfl

end Follows

end ByteWalk
