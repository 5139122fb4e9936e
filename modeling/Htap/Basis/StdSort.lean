import Mathlib

/-!
Sorting with a comparator that may throw. An implementation is free in how it
orders equal elements and in which comparisons it makes, but it is a function
of its arguments, returns a sorted permutation under a strict weak order, and
learns about the elements through the comparator alone.
-/

/-- The comparator never throws on the elements of `l` and says `lt`. -/
def Decides {α ε : Type} (less : α → α → Except ε Bool) (lt : α → α → Bool) (l : List α) : Prop :=
  ∀ x ∈ l, ∀ y ∈ l, less x y = .ok (lt x y)

/-- `lt` is a strict weak order on the elements of `l`. -/
structure StrictWeakOn {α : Type} (lt : α → α → Bool) (l : List α) : Prop where
  irrefl : ∀ x ∈ l, lt x x = false
  trans : ∀ x ∈ l, ∀ y ∈ l, ∀ z ∈ l, lt x y = true → lt y z = true → lt x z = true
  incomparable : ∀ x ∈ l, ∀ y ∈ l, ∀ z ∈ l, lt y x = false → lt z y = false → lt z x = false

/-- What `std::map` and `std::sort` require of a comparator on the elements of `S`. -/
structure StrictWeakOrder {α ε : Type} (less : α → α → Except ε Bool) (S : Set α) : Prop where
  returns : ∀ x ∈ S, ∀ y ∈ S, ∃ b, less x y = .ok b
  irrefl : ∀ x ∈ S, less x x = .ok false
  asymm : ∀ x ∈ S, ∀ y ∈ S, less x y = .ok true → less y x = .ok false
  trans : ∀ x ∈ S, ∀ y ∈ S, ∀ z ∈ S, less x y = .ok true → less y z = .ok true →
    less x z = .ok true
  incomparable : ∀ x ∈ S, ∀ y ∈ S, ∀ z ∈ S, less x y = .ok false → less y x = .ok false →
    less y z = .ok false → less z y = .ok false → less x z = .ok false ∧ less z x = .ok false

/-- A comparator that compares keys of a linear order is a strict weak order. -/
theorem StrictWeakOrder.of_key {α ε κ : Type} [LinearOrder κ] {less : α → α → Except ε Bool}
    {S : Set α} (key : α → κ)
    (h : ∀ x ∈ S, ∀ y ∈ S, less x y = .ok (decide (key x < key y))) : StrictWeakOrder less S := by
  have htrue : ∀ x ∈ S, ∀ y ∈ S, (less x y = .ok true ↔ key x < key y) := by
    intro x hx y hy
    rw [h x hx y hy, Except.ok.injEq, decide_eq_true_iff]
  have hfalse : ∀ x ∈ S, ∀ y ∈ S, (less x y = .ok false ↔ key y ≤ key x) := by
    intro x hx y hy
    rw [h x hx y hy, Except.ok.injEq, decide_eq_false_iff_not, not_lt]
  constructor
  · intro x hx y hy
    exact ⟨_, h x hx y hy⟩
  · intro x hx
    exact (hfalse x hx x hx).mpr le_rfl
  · intro x hx y hy hxy
    exact (hfalse y hy x hx).mpr ((htrue x hx y hy).mp hxy).le
  · intro x hx y hy z hz hxy hyz
    exact (htrue x hx z hz).mpr (((htrue x hx y hy).mp hxy).trans ((htrue y hy z hz).mp hyz))
  · intro x hx y hy z hz hxy hyx hyz hzy
    have hsame : key x = key y :=
      le_antisymm ((hfalse y hy x hx).mp hyx) ((hfalse x hx y hy).mp hxy)
    have hsame' : key y = key z :=
      le_antisymm ((hfalse z hz y hy).mp hzy) ((hfalse y hy z hz).mp hyz)
    have heq := hsame.trans hsame'
    exact ⟨(hfalse x hx z hz).mpr heq.ge, (hfalse z hz x hx).mpr heq.le⟩

theorem Decides.mono {α ε : Type} {less : α → α → Except ε Bool} {lt : α → α → Bool}
    {l l' : List α} (h : Decides less lt l) (hsub : ∀ x ∈ l', x ∈ l) : Decides less lt l' :=
  fun x hx y hy => h x (hsub x hx) y (hsub y hy)

theorem StrictWeakOn.mono {α : Type} {lt : α → α → Bool} {l l' : List α} (h : StrictWeakOn lt l)
    (hsub : ∀ x ∈ l', x ∈ l) : StrictWeakOn lt l' where
  irrefl x hx := h.irrefl x (hsub x hx)
  trans x hx y hy z hz := h.trans x (hsub x hx) y (hsub y hy) z (hsub z hz)
  incomparable x hx y hy z hz := h.incomparable x (hsub x hx) y (hsub y hy) z (hsub z hz)

/-- Both throw the same, or both return, with related values. -/
def RelatedResults {α β ε : Type} (R : α → β → Prop) : Except ε α → Except ε β → Prop
  | .ok a, .ok b => R a b
  | .error e, .error e' => e = e'
  | _, _ => False

structure StdSort (ε : Type) where
  sort : {α : Type} → (α → α → Except ε Bool) → List α → Except ε (List α)
  sorts : ∀ {α : Type} {less : α → α → Except ε Bool} {lt : α → α → Bool} {l : List α},
    Decides less lt l → StrictWeakOn lt l →
      ∃ out, sort less l = .ok out ∧ out.Perm l ∧ out.Pairwise fun x y => lt y x = false
  parametric : ∀ {α β : Type} {less : α → α → Except ε Bool} {less' : β → β → Except ε Bool}
    {R : α → β → Prop} {l : List α} {l' : List β},
    (∀ x x' y y', R x x' → R y y' → less x y = less' x' y') → List.Forall₂ R l l' →
      RelatedResults (List.Forall₂ R) (sort less l) (sort less' l')

namespace StdSort

variable {α β ε : Type}

/-- A comparator that compares keys of a linear order. -/
theorem sorts_key (std : StdSort ε) {κ : Type*} [LinearOrder κ] {less : α → α → Except ε Bool}
    (key : α → κ) {l : List α} (h : Decides less (fun x y => decide (key x < key y)) l) :
    ∃ out, std.sort less l = .ok out ∧ out.Perm l ∧ out.Pairwise fun x y => key x ≤ key y := by
  have hweak : StrictWeakOn (fun x y => decide (key x < key y)) l := by
    constructor
    · intro x _
      exact decide_eq_false (lt_irrefl _)
    · intro x _ y _ z _ hxy hyz
      exact decide_eq_true ((of_decide_eq_true hxy).trans (of_decide_eq_true hyz))
    · intro x _ y _ z _ hyx hzy
      have hxy := not_lt.mp (of_decide_eq_false hyx)
      have hyz := not_lt.mp (of_decide_eq_false hzy)
      exact decide_eq_false (not_lt.mpr (hxy.trans hyz))
  obtain ⟨out, hout, hperm, hsorted⟩ := std.sorts h hweak
  refine ⟨out, hout, hperm, hsorted.imp ?_⟩
  intro x y hxy
  exact not_lt.mp (of_decide_eq_false hxy)

/-! ## One implementation -/

def insertSorted (less : α → α → Except ε Bool) (x : α) : List α → Except ε (List α)
  | [] => .ok [x]
  | y :: ys => do
    if ← less x y then return x :: y :: ys
    else return y :: (← insertSorted less x ys)

def insertionSort (less : α → α → Except ε Bool) : List α → Except ε (List α)
  | [] => .ok []
  | x :: xs => do
    let sorted ← insertionSort less xs
    insertSorted less x sorted

private theorem insertSorted_sorts {less : α → α → Except ε Bool} {lt : α → α → Bool} {x : α}
    {l : List α} (hless : Decides less lt (x :: l)) (hweak : StrictWeakOn lt (x :: l))
    (hsorted : l.Pairwise fun x y => lt y x = false) :
    ∃ out, insertSorted less x l = .ok out ∧ out.Perm (x :: l) ∧
      out.Pairwise fun x y => lt y x = false := by
  induction l with
  | nil => exact ⟨[x], rfl, List.Perm.refl _, List.pairwise_singleton _ _⟩
  | cons y ys ih =>
    obtain ⟨hhead, htail⟩ := List.pairwise_cons.mp hsorted
    have hx : x ∈ x :: y :: ys := List.mem_cons_self
    have hy : y ∈ x :: y :: ys := by simp
    have hcompare : less x y = .ok (lt x y) := hless x hx y hy
    cases hxy : lt x y with
    | true =>
      refine ⟨x :: y :: ys, ?_, List.Perm.refl _, List.pairwise_cons.mpr ⟨?_, hsorted⟩⟩
      · rw [insertSorted, hcompare, hxy]
        rfl
      · have hyx : lt y x = false := by
          by_contra hne
          have hyx : lt y x = true := by simpa using hne
          have := hweak.trans x hx y hy x hx hxy hyx
          rw [hweak.irrefl x hx] at this
          cases this
        rintro z hz
        rcases List.mem_cons.mp hz with rfl | hz
        · exact hyx
        · exact hweak.incomparable x hx y hy z (by simp [hz]) hyx (hhead z hz)
    | false =>
      have hsub : ∀ z ∈ x :: ys, z ∈ x :: y :: ys := by
        intro z hz
        rcases List.mem_cons.mp hz with rfl | hz <;> simp [*]
      obtain ⟨out, hout, hperm, hpair⟩ := ih (hless.mono hsub) (hweak.mono hsub) htail
      refine ⟨y :: out, ?_, ?_, List.pairwise_cons.mpr ⟨?_, hpair⟩⟩
      · simp only [insertSorted, hcompare, hxy, hout]
        rfl
      · exact (hperm.cons y).trans (List.Perm.swap x y ys)
      · rintro z hz
        rcases List.mem_cons.mp (hperm.mem_iff.mp hz) with rfl | hz
        · exact hxy
        · exact hhead z hz

private theorem insertSorted_parametric {less : α → α → Except ε Bool}
    {less' : β → β → Except ε Bool} {R : α → β → Prop} {x : α} {x' : β} {l : List α} {l' : List β}
    (hless : ∀ x x' y y', R x x' → R y y' → less x y = less' x' y') (hx : R x x')
    (h : List.Forall₂ R l l') :
    RelatedResults (List.Forall₂ R) (insertSorted less x l) (insertSorted less' x' l') := by
  induction h with
  | nil => exact List.Forall₂.cons hx List.Forall₂.nil
  | @cons y y' ys ys' hy hys ih =>
    simp only [insertSorted, hless x x' y y' hx hy]
    cases less' x' y' with
    | error e => rfl
    | ok before =>
      cases before with
      | true => exact List.Forall₂.cons hx (List.Forall₂.cons hy hys)
      | false =>
        revert ih
        cases insertSorted less x ys <;> cases insertSorted less' x' ys'
        · exact id
        · exact id
        · exact id
        · exact List.Forall₂.cons hy

/-- Insertion sort is a valid `std::sort`. -/
def insertion (ε : Type) : StdSort ε where
  sort := insertionSort
  sorts := by
    intro α less lt l hless hweak
    induction l with
    | nil => exact ⟨[], rfl, List.Perm.refl _, List.Pairwise.nil⟩
    | cons x xs ih =>
      have hrest : ∀ z ∈ xs, z ∈ x :: xs := fun z hz => List.mem_cons_of_mem x hz
      obtain ⟨sorted, hsort, hperm, hpair⟩ := ih (hless.mono hrest) (hweak.mono hrest)
      have hmem : ∀ z ∈ x :: sorted, z ∈ x :: xs := fun z => (hperm.cons x).mem_iff.mp
      obtain ⟨out, hout, hpermOut, hpairOut⟩ :=
        insertSorted_sorts (hless.mono hmem) (hweak.mono hmem) hpair
      refine ⟨out, ?_, hpermOut.trans (hperm.cons x), hpairOut⟩
      rw [insertionSort, hsort]
      exact hout
  parametric := by
    intro α β less less' R l l' hless h
    induction h with
    | nil => exact List.Forall₂.nil
    | @cons x x' xs xs' hx _ ih =>
      simp only [insertionSort]
      revert ih
      cases insertionSort less xs with
      | error e =>
        cases insertionSort less' xs' with
        | error e' => exact id
        | ok out' => exact False.elim
      | ok out =>
        cases insertionSort less' xs' with
        | error e' => exact False.elim
        | ok out' => exact fun ih => insertSorted_parametric hless hx ih

end StdSort
