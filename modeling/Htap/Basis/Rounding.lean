import Htap.Basis.Binary64

/-!
Binary64 addition and division, and rounding of a ratio to the nearest number,
ties to even. Every finite number is a multiple of the least subnormal
`2 ^ -1074`, so exact values are natural numbers of these units. All NaN
results are one pattern here.
-/

namespace Binary64

def isInfinite (d : Binary64) : Bool := decide (d.magnitude = infinityMagnitude)

/-- Absolute value of a finite number in units of `2 ^ -1074`. -/
def units (d : Binary64) : Nat :=
  if d.magnitude / 2 ^ 52 = 0 then d.magnitude
  else (2 ^ 52 + d.magnitude % 2 ^ 52) * 2 ^ (d.magnitude / 2 ^ 52 - 1)

def signedUnits (d : Binary64) : Int := if d.negative then -(d.units : Int) else d.units

/-- `num / den` rounded to the nearest integer, ties to even. -/
def halfEven (num den : Nat) : Nat :=
  if den < 2 * (num % den) ∨ (2 * (num % den) = den ∧ num / den % 2 = 1) then num / den + 1
  else num / den

/-- Magnitude of the number nearest to `num / den` units, or of infinity. -/
def roundUnits (num den : Nat) : Nat :=
  let shift := Nat.log2 (num / den) - 52
  Nat.min infinityMagnitude (shift * 2 ^ 52 + halfEven num (den * 2 ^ shift))

def ofMagnitude (negative : Bool) (magnitude : Nat) : Binary64 :=
  ⟨UInt64.ofNat (magnitude + if negative then 2 ^ 63 else 0)⟩

def nan : Binary64 := ⟨0x7FF8000000000000⟩

/-- `std::numeric_limits<double>::max()`. -/
def greatest : Binary64 := ⟨0x7FEFFFFFFFFFFFFF⟩

/-- `std::numeric_limits<double>::lowest()`. -/
def lowest : Binary64 := ⟨0xFFEFFFFFFFFFFFFF⟩

def add (a b : Binary64) : Binary64 :=
  if a.isNaN || b.isNaN then nan
  else if a.isInfinite then
    if b.isInfinite && a.negative != b.negative then nan else a
  else if b.isInfinite then b
  else
    let sum := a.signedUnits + b.signedUnits
    if sum = 0 then ofMagnitude (a.negative && b.negative) 0
    else ofMagnitude (decide (sum < 0)) (roundUnits sum.natAbs 1)

def div (a b : Binary64) : Binary64 :=
  let sign := a.negative != b.negative
  if a.isNaN || b.isNaN then nan
  else if a.isInfinite then
    if b.isInfinite then nan else ofMagnitude sign infinityMagnitude
  else if b.isInfinite then ofMagnitude sign 0
  else if b.units = 0 then
    if a.units = 0 then nan else ofMagnitude sign infinityMagnitude
  else ofMagnitude sign (roundUnits (a.units * 2 ^ 1074) b.units)

/-- The bits of `0.1 + 0.2`, of `1.0 / 3.0`, and of a sum that is rounded. -/
example :
    (add ⟨0x3FB999999999999A⟩ ⟨0x3FC999999999999A⟩).bits = 0x3FD3333333333334 ∧
      (div ⟨0x3FF0000000000000⟩ ⟨0x4008000000000000⟩).bits = 0x3FD5555555555555 ∧
      add (ofInt64 9007199254740992) (ofInt64 1) = ofInt64 9007199254740992 := by decide +kernel

/-! ## Integers -/

/-- The number nearest to an integer. -/
def ofInt (z : Int) : Binary64 :=
  if z = 0 then zero else ofMagnitude (decide (z < 0)) (roundUnits (z.natAbs * 2 ^ 1074) 1)

/-- The integer is a finite number itself. -/
def Exact (z : Int) : Prop :=
  (ofInt z).isNaN = false ∧ (ofInt z).isInfinite = false ∧ (ofInt z).signedUnits = z * 2 ^ 1074

instance (z : Int) : Decidable (Exact z) := inferInstanceAs (Decidable (_ ∧ _ ∧ _))

theorem halfEven_mul {k den : Nat} (hden : 0 < den) : halfEven (k * den) den = k := by
  unfold halfEven
  rw [Nat.mul_mod_left, Nat.mul_div_cancel k hden]
  rw [if_neg]
  omega

/-- Rounding a ratio does not see a common factor. -/
theorem halfEven_scale {num den k : Nat} (hk : 0 < k) :
    halfEven (num * k) (den * k) = halfEven num den := by
  unfold halfEven
  rw [Nat.mul_div_mul_right _ _ hk, Nat.mul_mod_mul_right]
  have hless : den * k < 2 * (num % den * k) ↔ den < 2 * (num % den) := by
    rw [← Nat.mul_assoc]
    exact Nat.mul_lt_mul_right hk
  have htie : 2 * (num % den * k) = den * k ↔ 2 * (num % den) = den := by
    rw [← Nat.mul_assoc]
    exact Nat.mul_left_inj hk.ne'
  simp only [hless, htie]

theorem roundUnits_le (num den : Nat) : roundUnits num den ≤ infinityMagnitude :=
  Nat.min_le_left _ _

private theorem bits_ofMagnitude {negative : Bool} {magnitude : Nat} (h : magnitude < 2 ^ 63) :
    (ofMagnitude negative magnitude).bits.toNat =
      magnitude + if negative then 2 ^ 63 else 0 := by
  unfold ofMagnitude
  rw [UInt64.toNat_ofNat']
  apply Nat.mod_eq_of_lt
  split <;> omega

theorem magnitude_ofMagnitude {negative : Bool} {magnitude : Nat} (h : magnitude < 2 ^ 63) :
    (ofMagnitude negative magnitude).magnitude = magnitude := by
  rw [Binary64.magnitude, bits_ofMagnitude h]
  split <;> omega

theorem negative_ofMagnitude {negative : Bool} {magnitude : Nat} (h : magnitude < 2 ^ 63) :
    (ofMagnitude negative magnitude).negative = negative := by
  rw [Binary64.negative, bits_ofMagnitude h]
  cases negative with
  | false => simpa using h
  | true => simp

theorem negative_ofInt (z : Int) : (ofInt z).negative = decide (z < 0) := by
  unfold ofInt
  split
  · rename_i hz
    rw [hz]
    rfl
  · apply negative_ofMagnitude
    exact (roundUnits_le _ _).trans_lt (by decide)

/-- The sum of two numbers that are integers is the number nearest to the sum of
the integers. -/
theorem add_ofInt {x y : Int} (hx : Exact x) (hy : Exact y) :
    add (ofInt x) (ofInt y) = ofInt (x + y) := by
  obtain ⟨hxn, hxi, hxu⟩ := hx
  obtain ⟨hyn, hyi, hyu⟩ := hy
  have hsum : (ofInt x).signedUnits + (ofInt y).signedUnits = (x + y) * 2 ^ 1074 := by
    rw [hxu, hyu, add_mul]
  have hpos : (0 : Int) < 2 ^ 1074 := by positivity
  unfold add
  rw [hxn, hyn, hxi, hyi, hsum]
  simp only [Bool.or_self, Bool.false_eq_true, if_false]
  generalize hscale : (2 : Int) ^ 1074 = scale at hpos
  by_cases hzero : x + y = 0
  · have hsign : ((ofInt x).negative && (ofInt y).negative) = false := by
      rw [negative_ofInt, negative_ofInt, ← Bool.decide_and, decide_eq_false_iff_not]
      omega
    rw [hzero, zero_mul, if_pos rfl, hsign]
    rfl
  · have hne : (x + y) * scale ≠ 0 := mul_ne_zero hzero hpos.ne'
    have hneg : ((x + y) * scale < 0) ↔ x + y < 0 := by
      rw [mul_neg_iff]
      omega
    have hcast : scale = ((2 ^ 1074 : Nat) : Int) := by
      rw [← hscale]
      exact (Nat.cast_pow 2 1074).symm
    have habs : ((x + y) * scale).natAbs = (x + y).natAbs * 2 ^ 1074 := by
      rw [Int.natAbs_mul, hcast, Int.natAbs_natCast]
    rw [if_neg hne, ofInt, if_neg hzero, habs, decide_eq_decide.mpr hneg]

private theorem log2_mul_two_pow {m : Nat} (hm : m ≠ 0) (k : Nat) :
    Nat.log2 (m * 2 ^ k) = Nat.log2 m + k := by
  rw [Nat.log2_eq_iff (Nat.mul_ne_zero hm (Nat.two_pow_pos k).ne'), pow_add, Nat.add_right_comm,
    pow_add]
  exact ⟨Nat.mul_le_mul_right _ (Nat.log2_self_le hm),
    Nat.mul_lt_mul_of_pos_right Nat.lt_log2_self (Nat.two_pow_pos k)⟩

/-- A significand is the rounded ratio to its unit. -/
private theorem halfEven_eq_significand (e m : Nat) :
    halfEven (m * 2 ^ 1074) (2 ^ (e + 1022)) = significand e m := by
  unfold significand
  split
  · rename_i he
    have hsplit : m * 2 ^ 1074 = m * 2 ^ (52 - e) * 2 ^ (e + 1022) := by
      rw [Nat.mul_assoc, ← pow_add, show 52 - e + (e + 1022) = 1074 by omega]
    rw [hsplit, halfEven_mul (Nat.two_pow_pos _)]
  · rename_i he
    have hunit : 2 ^ (e + 1022) = 2 ^ (e - 52) * 2 ^ 1074 := by
      rw [← pow_add, show e - 52 + 1074 = e + 1022 by omega]
    have hhalf : 2 ^ (e - 52) = 2 * 2 ^ (e - 52 - 1) := by
      rw [← pow_succ', show e - 52 - 1 + 1 = e - 52 by omega]
    rw [hunit, halfEven_scale (Nat.two_pow_pos _), halfEven]
    dsimp only
    rw [hhalf]
    generalize 2 ^ (e - 52 - 1) = half
    split <;> split <;> omega

private theorem roundNat_eq {m : Nat} (hm : m ≠ 0) (hle : roundNat m ≤ infinityMagnitude) :
    roundNat m = roundUnits (m * 2 ^ 1074) 1 := by
  have hround : roundNat m = (Nat.log2 m + 1022) * 2 ^ 52 + significand (Nat.log2 m) m := by
    rw [roundNat, if_neg hm]
  rw [hround] at hle
  unfold roundUnits
  dsimp only
  rw [Nat.div_one, log2_mul_two_pow hm, Nat.one_mul,
    show Nat.log2 m + 1074 - 52 = Nat.log2 m + 1022 by omega, halfEven_eq_significand]
  rw [hround]
  exact (Nat.min_eq_right hle).symm

/-- Conversion takes the nearest number. -/
theorem ofInt64_eq (v : Int64) : ofInt64 v = ofInt v.toInt := by
  unfold ofInt64 ofInt
  have hle : v.toInt.natAbs ≤ 2 ^ 63 := by
    have h1 := v.toInt_lt
    have h2 := v.le_toInt
    omega
  by_cases hzero : v.toInt = 0
  · rw [hzero]
    rfl
  · rw [if_neg hzero, roundNat_eq (by omega) (roundNat_lt_infinity hle).le]
    simp only [ofMagnitude, decide_eq_true_eq]

private theorem units_roundNat {m : Nat} (hm : m ≠ 0) (h : Nat.log2 m ≤ 52) :
    (roundNat m / 2 ^ 52 ≠ 0) ∧
      (2 ^ 52 + roundNat m % 2 ^ 52) * 2 ^ (roundNat m / 2 ^ 52 - 1) = m * 2 ^ 1074 := by
  have hlow := Nat.log2_self_le hm
  have hhigh := @Nat.lt_log2_self m
  have hround : roundNat m = (Nat.log2 m + 1022) * 2 ^ 52 + m * 2 ^ (52 - Nat.log2 m) := by
    rw [roundNat, if_neg hm, significand, if_pos h]
  generalize Nat.log2 m = e at hlow hhigh hround h
  have hsplit : 2 ^ e * 2 ^ (52 - e) = 2 ^ 52 := by
    rw [← pow_add, show e + (52 - e) = 52 by omega]
  have hge : 2 ^ 52 ≤ m * 2 ^ (52 - e) := by
    rw [← hsplit]
    exact Nat.mul_le_mul_right _ hlow
  have hlt : m * 2 ^ (52 - e) < 2 * 2 ^ 52 := by
    have hmul := Nat.mul_lt_mul_of_pos_right hhigh (Nat.two_pow_pos (52 - e))
    rwa [pow_succ, Nat.mul_right_comm, hsplit, Nat.mul_comm (2 ^ 52)] at hmul
  have hdiv : roundNat m / 2 ^ 52 = e + 1023 := by
    rw [hround]
    omega
  have hmod : 2 ^ 52 + roundNat m % 2 ^ 52 = m * 2 ^ (52 - e) := by
    rw [hround]
    omega
  rw [hdiv, hmod, Nat.mul_assoc, ← pow_add, show 52 - e + (e + 1023 - 1) = 1074 by omega]
  exact ⟨by omega, rfl⟩

/-- Integers of less than 53 bits are numbers. -/
theorem exact_of_natAbs_lt {z : Int} (h : z.natAbs < 2 ^ 53) : Exact z := by
  by_cases hzero : z = 0
  · rw [hzero]
    decide +kernel
  have hm : z.natAbs ≠ 0 := by omega
  have hlog : Nat.log2 z.natAbs ≤ 52 := by
    have hlt := (Nat.log2_lt hm).mpr h
    omega
  have hfinite : roundNat z.natAbs < infinityMagnitude :=
    roundNat_lt_infinity (h.le.trans (by decide))
  have hvalue : ofInt z = ofMagnitude (decide (z < 0)) (roundNat z.natAbs) := by
    rw [ofInt, if_neg hzero, roundNat_eq hm hfinite.le]
  have hmagnitude : (ofInt z).magnitude = roundNat z.natAbs := by
    rw [hvalue]
    exact magnitude_ofMagnitude (hfinite.trans (by decide))
  obtain ⟨hexponent, hunits⟩ := units_roundNat hm hlog
  refine ⟨?_, ?_, ?_⟩
  · rw [isNaN, hmagnitude]
    exact decide_eq_false hfinite.not_gt
  · rw [isInfinite, hmagnitude]
    exact decide_eq_false hfinite.ne
  · have hu : (ofInt z).units = z.natAbs * 2 ^ 1074 := by
      rw [units, hmagnitude, if_neg hexponent]
      exact hunits
    rw [signedUnits, hu, negative_ofInt]
    generalize hscale : 2 ^ 1074 = scale
    have hcast : ((2 : Int) ^ 1074) = (scale : Nat) := by
      rw [← hscale]
      exact (Nat.cast_pow 2 1074).symm
    rw [hcast, Nat.cast_mul]
    split
    · rename_i hneg
      have hz := of_decide_eq_true hneg
      rw [← Int.neg_mul, Int.ofNat_natAbs_of_nonpos hz.le, neg_neg]
    · rename_i hneg
      have hz : ¬ z < 0 := by simpa using hneg
      rw [Int.natAbs_of_nonneg (not_lt.mp hz)]

end Binary64
