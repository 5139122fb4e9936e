import Htap.Basis.Rounding

/-!
Sums of doubles in two orders. Rounded addition is not associative, so the order of the
summands matters unless the additions are exact. Two orders that differ only within stretches
of exact additions give the same number.
-/

namespace Binary64

/-- The number nearest to the sum is the sum. -/
def AddsExactly (a b : Binary64) : Prop :=
  (add a b).isNaN = false ∧ (add a b).isInfinite = false ∧
    (add a b).signedUnits = a.signedUnits + b.signedUnits

instance (a b : Binary64) : Decidable (AddsExactly a b) := inferInstanceAs (Decidable (_ ∧ _ ∧ _))

/-- Adding the numbers one after another to `sum` never rounds. -/
def RunsExactly : Binary64 → List Binary64 → Prop
  | _, [] => True
  | sum, d :: ds => AddsExactly sum d ∧ RunsExactly (add sum d) ds

/-- Two orders of adding to `sum` that differ only within stretches of exact additions. -/
inductive AddsAlike : Binary64 → List Binary64 → List Binary64 → Prop
  | nil (sum : Binary64) : AddsAlike sum [] []
  | same {sum d : Binary64} {ds ds' : List Binary64} (h : AddsAlike (add sum d) ds ds') :
    AddsAlike sum (d :: ds) (d :: ds')
  | reordered {sum : Binary64} {part part' ds ds' : List Binary64} (hperm : part.Perm part')
    (hexact : RunsExactly sum part) (hexact' : RunsExactly sum part')
    (h : AddsAlike (part.foldl add sum) ds ds') : AddsAlike sum (part ++ ds) (part' ++ ds')

theorem AddsAlike.refl (sum : Binary64) (ds : List Binary64) : AddsAlike sum ds ds := by
  induction ds generalizing sum with
  | nil => exact .nil sum
  | cons d ds ih => exact .same (ih (add sum d))

/-- The same bits, or finite numbers that are equal. Zeros may differ in the sign. -/
def SameNumber (a b : Binary64) : Prop :=
  a = b ∨ a.isNaN = false ∧ a.isInfinite = false ∧ b.isNaN = false ∧ b.isInfinite = false ∧
    a.signedUnits = b.signedUnits

variable {a b c d sum : Binary64} {ds ds' : List Binary64}

theorem SameNumber.refl (a : Binary64) : SameNumber a a := Or.inl rfl

theorem SameNumber.trans (h : SameNumber a b) (h' : SameNumber b c) : SameNumber a c := by
  rcases h with rfl | ⟨han, hai, hbn, hbi, hunits⟩
  · exact h'
  · rcases h' with rfl | ⟨-, -, hcn, hci, hunits'⟩
    · exact Or.inr ⟨han, hai, hbn, hbi, hunits⟩
    · exact Or.inr ⟨han, hai, hcn, hci, hunits.trans hunits'⟩

/-- Zeros are the same number. -/
private theorem sameNumber_zero (negative negative' : Bool) :
    SameNumber (ofMagnitude negative 0) (ofMagnitude negative' 0) := by
  cases negative <;> cases negative' <;> exact Or.inr (by decide +kernel)

theorem SameNumber.add (h : SameNumber a b) (d : Binary64) :
    SameNumber (Binary64.add a d) (Binary64.add b d) := by
  rcases h with rfl | ⟨han, hai, hbn, hbi, hunits⟩
  · exact SameNumber.refl _
  · unfold Binary64.add
    rw [han, hbn, hai, hbi, hunits]
    simp only [Bool.false_or, Bool.false_eq_true, if_false]
    split
    · exact SameNumber.refl nan
    · split
      · exact SameNumber.refl d
      · split
        · exact sameNumber_zero _ _
        · exact SameNumber.refl _

theorem SameNumber.foldl (h : SameNumber a b) (ds : List Binary64) :
    SameNumber (ds.foldl Binary64.add a) (ds.foldl Binary64.add b) := by
  induction ds generalizing a b with
  | nil => exact h
  | cons d ds ih => exact ih (h.add d)

/-- An exact run adds up the values. -/
private theorem RunsExactly.units (h : RunsExactly sum ds) :
    (ds.foldl add sum).signedUnits = sum.signedUnits + (ds.map signedUnits).sum := by
  induction ds generalizing sum with
  | nil => simp
  | cons d ds ih =>
    obtain ⟨⟨-, -, hunits⟩, hrest⟩ := h
    rw [List.foldl_cons, ih hrest, hunits, List.map_cons, List.sum_cons, add_assoc]

private theorem RunsExactly.finite (h : RunsExactly sum ds) (hne : ds ≠ []) :
    (ds.foldl add sum).isNaN = false ∧ (ds.foldl add sum).isInfinite = false := by
  induction ds generalizing sum with
  | nil => exact absurd rfl hne
  | cons d ds ih =>
    obtain ⟨⟨hnan, hinfinite, -⟩, hrest⟩ := h
    cases ds with
    | nil => exact ⟨hnan, hinfinite⟩
    | cons next ds => exact ih hrest (List.cons_ne_nil next ds)

/-- Exact additions give the same number in any order. -/
theorem RunsExactly.sameNumber (h : RunsExactly sum ds) (h' : RunsExactly sum ds')
    (hperm : ds.Perm ds') : SameNumber (ds.foldl Binary64.add sum)
    (ds'.foldl Binary64.add sum) := by
  by_cases hne : ds = []
  · subst hne
    rw [List.nil_perm.mp hperm]
    exact SameNumber.refl sum
  · have hne' : ds' ≠ [] := by
      rintro rfl
      exact hne (List.perm_nil.mp hperm)
    obtain ⟨hnan, hinfinite⟩ := h.finite hne
    obtain ⟨hnan', hinfinite'⟩ := h'.finite hne'
    refine Or.inr ⟨hnan, hinfinite, hnan', hinfinite', ?_⟩
    rw [h.units, h'.units, (hperm.map signedUnits).sum_eq]

theorem AddsAlike.sameNumber (h : AddsAlike sum ds ds') :
    SameNumber (ds.foldl Binary64.add sum) (ds'.foldl Binary64.add sum) := by
  induction h with
  | nil sum => exact SameNumber.refl sum
  | same h ih => exact ih
  | @reordered sum part part' ds ds' hperm hexact hexact' h ih =>
    rw [List.foldl_append, List.foldl_append]
    exact ih.trans ((hexact.sameNumber hexact' hperm).foldl ds')

/-- Division tells equal numbers apart by the sign of a zero at most. -/
theorem SameNumber.div (h : SameNumber a b) (c : Binary64) : Binary64.div a c = Binary64.div b c ∨
    (Binary64.div a c).isNaN = false ∧ (Binary64.div b c).isNaN = false ∧
      (Binary64.div a c).rank = (Binary64.div b c).rank := by
  rcases h with rfl | ⟨han, hai, hbn, hbi, hunits⟩
  · exact Or.inl rfl
  have habs : a.units = b.units := by
    unfold signedUnits at hunits
    split at hunits <;> split at hunits <;> omega
  by_cases hsign : a.negative = b.negative
  · left
    unfold Binary64.div
    rw [han, hbn, hai, hbi, habs, hsign]
  · have hzero : b.units = 0 := by
      unfold signedUnits at hunits
      rw [habs] at hunits
      split at hunits <;> split at hunits
      all_goals simp_all
    have hround : ∀ den, roundUnits 0 den = 0 := by
      intro den
      simp [roundUnits, halfEven, Nat.min]
    have hranks : ∀ sign sign' : Bool, (ofMagnitude sign 0).isNaN = false ∧
        (ofMagnitude sign' 0).isNaN = false ∧
          (ofMagnitude sign 0).rank = (ofMagnitude sign' 0).rank := by decide +kernel
    unfold Binary64.div
    rw [han, hbn, hai, hbi, habs, hzero, Nat.zero_mul, hround]
    simp only [Bool.false_or, Bool.false_eq_true, if_false, if_true]
    by_cases hcn : c.isNaN = true
    · exact Or.inl (by rw [if_pos hcn, if_pos hcn])
    rw [if_neg hcn, if_neg hcn]
    by_cases hci : c.isInfinite = true
    · rw [if_pos hci, if_pos hci]
      exact Or.inr (hranks _ _)
    rw [if_neg hci, if_neg hci]
    by_cases hcu : c.units = 0
    · exact Or.inl (by rw [if_pos hcu, if_pos hcu])
    · rw [if_neg hcu, if_neg hcu]
      exact Or.inr (hranks _ _)

/-- Integers that stay exact are added exactly. -/
theorem runsExactly_of_exact {ints : List Int64} {z : Int} (hz : Exact z)
    (hexact : ∀ x ∈ ints, Exact x.toInt)
    (hprefixes : ∀ n, Exact (z + ((ints.take n).map Int64.toInt).sum)) :
    RunsExactly (ofInt z) (ints.map ofInt64) := by
  induction ints generalizing z with
  | nil => trivial
  | cons x ints ih =>
    have hx := hexact x List.mem_cons_self
    have hnext : Exact (z + x.toInt) := by simpa using hprefixes 1
    have hadd : add (ofInt z) (ofInt64 x) = ofInt (z + x.toInt) := by
      rw [ofInt64_eq]
      exact add_ofInt hz hx
    refine ⟨?_, ?_⟩
    · rw [AddsExactly, hadd, ofInt64_eq, hz.2.2, hx.2.2, hnext.2.2, add_mul]
      exact ⟨hnext.1, hnext.2.1, rfl⟩
    · rw [hadd]
      apply ih hnext fun y hy => hexact y (List.mem_cons_of_mem x hy)
      intro n
      have hmore := hprefixes (n + 1)
      rwa [List.take_succ_cons, List.map_cons, List.sum_cons, ← add_assoc] at hmore

end Binary64
