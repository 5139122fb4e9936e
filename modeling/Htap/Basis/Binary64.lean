import Mathlib

/-!
Binary64 floating point numbers as bit patterns, with their IEEE 754
comparison and the round-to-nearest-even conversion from 64-bit integers.
The order of the non-NaN patterns is the order of their signed magnitudes.
-/

structure Binary64 where
  bits : UInt64
  deriving DecidableEq

namespace Binary64

/-- The pattern without its sign bit. -/
def magnitude (d : Binary64) : Nat := d.bits.toNat % 2 ^ 63

def negative (d : Binary64) : Bool := decide (2 ^ 63 ≤ d.bits.toNat)

/-- Magnitude of the infinities; only NaN patterns lie above it. -/
def infinityMagnitude : Nat := 2047 * 2 ^ 52

def isNaN (d : Binary64) : Bool := decide (infinityMagnitude < d.magnitude)

/-- Signed magnitude: equal exactly for numerically equal numbers, so both
zeros have rank 0. -/
def rank (d : Binary64) : Int := if d.negative then -(d.magnitude : Int) else d.magnitude

/-- `a < b`; false when either side is NaN. -/
def lt (a b : Binary64) : Bool := !a.isNaN && !b.isNaN && decide (a.rank < b.rank)

/-- `a <= b`; false when either side is NaN. -/
def le (a b : Binary64) : Bool := !a.isNaN && !b.isNaN && decide (a.rank ≤ b.rank)

/-- `std::min`: the second argument only when it is less. -/
def min (a b : Binary64) : Binary64 := if lt b a then b else a

/-- `std::max`: the second argument only when it is greater. -/
def max (a b : Binary64) : Binary64 := if lt a b then b else a

def zero : Binary64 := ⟨0⟩

theorem lt_iff {a b : Binary64} (ha : a.isNaN = false) (hb : b.isNaN = false) :
    lt a b = true ↔ a.rank < b.rank := by
  simp [lt, ha, hb]

/-! ## Conversion from integers -/

/-- The 53-bit significand of `m` at exponent `e = log2 m`, rounded to nearest,
ties to even. Rounding up may reach `2^53`. -/
def significand (e m : Nat) : Nat :=
  if e ≤ 52 then m * 2 ^ (52 - e)
  else
    let shift := e - 52
    let quotient := m / 2 ^ shift
    let remainder := m % 2 ^ shift
    let half := 2 ^ (shift - 1)
    if half < remainder ∨ (remainder = half ∧ quotient % 2 = 1) then quotient + 1 else quotient

/-- Magnitude of the number nearest to `m`. A significand of `2^53` carries
into the exponent field by the addition. -/
def roundNat (m : Nat) : Nat :=
  if m = 0 then 0 else (Nat.log2 m + 1022) * 2 ^ 52 + significand (Nat.log2 m) m

/-- `static_cast<double>` of a 64-bit integer. -/
def ofInt64 (v : Int64) : Binary64 :=
  ⟨UInt64.ofNat (roundNat v.toInt.natAbs + if v.toInt < 0 then 2 ^ 63 else 0)⟩

private theorem significand_bounds {e m : Nat} (hlow : 2 ^ e ≤ m) (hhigh : m < 2 ^ (e + 1)) :
    2 ^ 52 ≤ significand e m ∧ significand e m ≤ 2 ^ 53 := by
  unfold significand
  split
  · rename_i he
    have h52 : 2 ^ e * 2 ^ (52 - e) = 2 ^ 52 := by rw [← pow_add]; congr 1; omega
    have h53 : 2 ^ (e + 1) * 2 ^ (52 - e) = 2 ^ 53 := by rw [← pow_add]; congr 1; omega
    constructor
    · rw [← h52]
      exact Nat.mul_le_mul_right _ hlow
    · rw [← h53]
      exact Nat.mul_le_mul_right _ hhigh.le
  · rename_i he
    have hpos : 0 < 2 ^ (e - 52) := Nat.two_pow_pos _
    have hlow' : 2 ^ 52 ≤ m / 2 ^ (e - 52) := by
      rw [Nat.le_div_iff_mul_le hpos, ← pow_add]
      convert hlow using 2
      omega
    have hhigh' : m / 2 ^ (e - 52) < 2 ^ 53 := by
      rw [Nat.div_lt_iff_lt_mul hpos, ← pow_add]
      convert hhigh using 2
      omega
    dsimp only
    split <;> constructor <;> omega

private theorem significand_mono {e m n : Nat} (h : m ≤ n) : significand e m ≤ significand e n := by
  unfold significand
  split
  · exact Nat.mul_le_mul_right _ h
  · have hq : m / 2 ^ (e - 52) ≤ n / 2 ^ (e - 52) := Nat.div_le_div_right h
    have hm := Nat.div_add_mod m (2 ^ (e - 52))
    have hn := Nat.div_add_mod n (2 ^ (e - 52))
    dsimp only
    rcases Nat.lt_or_eq_of_le hq with hlt | heq
    · split <;> split <;> omega
    · have hr : m % 2 ^ (e - 52) ≤ n % 2 ^ (e - 52) := by
        rw [heq] at hm
        omega
      rw [heq]
      split <;> split <;> omega

theorem roundNat_mono {m n : Nat} (h : m ≤ n) : roundNat m ≤ roundNat n := by
  unfold roundNat
  by_cases hm : m = 0
  · simp [hm]
  have hn : n ≠ 0 := by omega
  rw [if_neg hm, if_neg hn]
  have hbm := significand_bounds (Nat.log2_self_le hm) Nat.lt_log2_self
  have hbn := significand_bounds (Nat.log2_self_le hn) Nat.lt_log2_self
  have hlog : Nat.log2 m ≤ Nat.log2 n := by
    rw [Nat.log2_eq_log_two, Nat.log2_eq_log_two]
    exact Nat.log_mono_right h
  rcases Nat.lt_or_eq_of_le hlog with hlt | heq
  · omega
  · rw [heq] at *
    have : significand (Nat.log2 n) m ≤ significand (Nat.log2 n) n := significand_mono h
    omega

theorem roundNat_lt_infinity {m : Nat} (h : m ≤ 2 ^ 63) : roundNat m < infinityMagnitude := by
  have htop : roundNat (2 ^ 63) < infinityMagnitude := by decide +kernel
  exact lt_of_le_of_lt (roundNat_mono h) htop

private theorem natAbs_le (v : Int64) : v.toInt.natAbs ≤ 2 ^ 63 := by
  have h1 := v.toInt_lt
  have h2 := v.le_toInt
  omega

private theorem bits_ofInt64 (v : Int64) :
    (ofInt64 v).bits.toNat = roundNat v.toInt.natAbs + if v.toInt < 0 then 2 ^ 63 else 0 := by
  have h := roundNat_lt_infinity (natAbs_le v)
  unfold infinityMagnitude at h
  unfold ofInt64
  rw [UInt64.toNat_ofNat']
  apply Nat.mod_eq_of_lt
  split <;> omega

theorem magnitude_ofInt64 (v : Int64) : (ofInt64 v).magnitude = roundNat v.toInt.natAbs := by
  have h := roundNat_lt_infinity (natAbs_le v)
  unfold infinityMagnitude at h
  unfold magnitude
  rw [bits_ofInt64]
  split <;> omega

theorem negative_ofInt64 (v : Int64) : (ofInt64 v).negative = decide (v.toInt < 0) := by
  have h := roundNat_lt_infinity (natAbs_le v)
  unfold infinityMagnitude at h
  unfold negative
  rw [bits_ofInt64]
  apply decide_eq_decide.mpr
  split <;> omega

theorem rank_ofInt64 (v : Int64) :
    (ofInt64 v).rank =
      if v.toInt < 0 then -(roundNat v.toInt.natAbs : Int) else roundNat v.toInt.natAbs := by
  unfold rank
  rw [negative_ofInt64, magnitude_ofInt64]
  simp

theorem isNaN_ofInt64 (v : Int64) : (ofInt64 v).isNaN = false := by
  have h := roundNat_lt_infinity (natAbs_le v)
  unfold isNaN
  rw [magnitude_ofInt64]
  simpa using h.le

/-- Conversion never reverses the order of two integers. -/
theorem rank_ofInt64_mono {v w : Int64} (h : v ≤ w) : (ofInt64 v).rank ≤ (ofInt64 w).rank := by
  rw [Int64.le_iff_toInt_le] at h
  rw [rank_ofInt64, rank_ofInt64]
  split
  · split
    · have := roundNat_mono (show w.toInt.natAbs ≤ v.toInt.natAbs by omega)
      omega
    · have h1 : (0 : Int) ≤ roundNat v.toInt.natAbs := Int.natCast_nonneg _
      have h2 : (0 : Int) ≤ roundNat w.toInt.natAbs := Int.natCast_nonneg _
      omega
  · split
    · omega
    · have := roundNat_mono (show v.toInt.natAbs ≤ w.toInt.natAbs by omega)
      omega

/-! ## Extremes of non-NaN numbers -/

theorem isNaN_min {a b : Binary64} (ha : a.isNaN = false) (hb : b.isNaN = false) :
    (min a b).isNaN = false := by
  unfold min
  split <;> assumption

theorem isNaN_max {a b : Binary64} (ha : a.isNaN = false) (hb : b.isNaN = false) :
    (max a b).isNaN = false := by
  unfold max
  split <;> assumption

theorem rank_min {a b : Binary64} (ha : a.isNaN = false) (hb : b.isNaN = false) :
    (min a b).rank = Min.min a.rank b.rank := by
  unfold min
  split
  · rename_i h
    rw [min_eq_right ((lt_iff hb ha).mp h).le]
  · rename_i h
    rw [lt_iff hb ha] at h
    rw [min_eq_left (not_lt.mp h)]

theorem rank_max {a b : Binary64} (ha : a.isNaN = false) (hb : b.isNaN = false) :
    (max a b).rank = Max.max a.rank b.rank := by
  unfold max
  split
  · rename_i h
    rw [max_eq_right ((lt_iff ha hb).mp h).le]
  · rename_i h
    rw [lt_iff ha hb] at h
    rw [max_eq_left (not_lt.mp h)]

end Binary64

/-- Both zeros compare equal, and NaN with nothing. -/
example : Binary64.lt ⟨0x8000000000000000⟩ Binary64.zero = false ∧
    Binary64.le ⟨0x8000000000000000⟩ Binary64.zero = true ∧
    Binary64.le ⟨0x7FF8000000000000⟩ ⟨0x7FF8000000000000⟩ = false := by decide +kernel
