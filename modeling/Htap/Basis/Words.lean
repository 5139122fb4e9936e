import Mathlib

/-!
Fixed-width words seen through their integer values: the order of 64-bit
signed integers as a linear order, and the natural number a 64-bit pattern
stands for in either sign convention.
-/

instance Int64.instLinearOrder : LinearOrder Int64 where
  le_refl a := Int64.le_iff_toInt_le.mpr le_rfl
  le_trans a b c hab hbc := by
    rw [Int64.le_iff_toInt_le] at *
    exact hab.trans hbc
  le_antisymm a b hab hba := by
    rw [Int64.le_iff_toInt_le] at *
    exact Int64.toInt_inj.mp (le_antisymm hab hba)
  le_total a b := by
    simp only [Int64.le_iff_toInt_le]
    exact le_total _ _
  lt_iff_le_not_ge a b := by
    simp only [Int64.le_iff_toInt_le, Int64.lt_iff_toInt_lt]
    exact lt_iff_le_not_ge
  toDecidableLE := inferInstance
  toDecidableEq := inferInstance
  toDecidableLT := inferInstance
  min_def a b := by
    rfl
  max_def a b := by
    rfl

namespace Words

/-- The two's-complement pattern of a signed word, as a natural number. -/
def int64Bits (v : Int64) : Nat := v.toUInt64.toNat

/-- The signed word whose two's-complement pattern is `n mod 2^64`. -/
def int64OfBits (n : Nat) : Int64 := (UInt64.ofNat n).toInt64

@[simp] theorem int64OfBits_int64Bits (v : Int64) : int64OfBits (int64Bits v) = v := by
  simp [int64OfBits, int64Bits]

theorem int64Bits_lt (v : Int64) : int64Bits v < 2 ^ 64 := v.toUInt64.toNat_lt

/-- Adding one to a word that is not the greatest moves its value by one. -/
theorem toInt_add_one (v : Int64) (hv : v ≠ Int64.maxValue) :
    (v + 1).toInt = v.toInt + 1 := by
  have hlt : v.toInt < 2 ^ 63 - 1 := by
    rcases lt_or_eq_of_le v.toInt_le with h | h
    · simpa [Int64.toInt_maxValue] using h
    · exact absurd (Int64.toInt_inj.mp h) hv
  have hge := v.le_toInt
  rw [Int64.toInt_add, Int64.toInt_one]
  exact Int.bmod_eq_of_le (by omega) (by omega)

/-- `v + 1` is the successor of `v`: nothing lies strictly between them. -/
theorem lt_add_one_iff (v w : Int64) (hv : v ≠ Int64.maxValue) : w < v + 1 ↔ w ≤ v := by
  rw [Int64.lt_iff_toInt_lt, Int64.le_iff_toInt_le, toInt_add_one v hv]
  omega

theorem add_one_le_iff (v w : Int64) (hv : v ≠ Int64.maxValue) : v + 1 ≤ w ↔ v < w := by
  rw [Int64.lt_iff_toInt_lt, Int64.le_iff_toInt_le, toInt_add_one v hv]
  omega

theorem le_maxValue (v : Int64) : v ≤ Int64.maxValue := by
  rw [Int64.le_iff_toInt_le]
  exact v.toInt_le

theorem minValue_le (v : Int64) : Int64.minValue ≤ v := by
  rw [Int64.le_iff_toInt_le]
  exact v.minValue_le_toInt

/-- `static_cast<std::uint32_t>`. -/
def u32 (n : Nat) : Nat := n % 2 ^ 32

/-- `static_cast<std::uint64_t>`. -/
def u64 (n : Nat) : Nat := n % 2 ^ 64

/-- `static_cast<std::uint16_t>`. -/
def u16 (n : Nat) : Nat := n % 2 ^ 16

theorem u32_of_lt {n : Nat} (h : n < 2 ^ 32) : u32 n = n := Nat.mod_eq_of_lt h

theorem u64_of_lt {n : Nat} (h : n < 2 ^ 64) : u64 n = n := Nat.mod_eq_of_lt h

theorem u16_of_lt {n : Nat} (h : n < 2 ^ 16) : u16 n = n := Nat.mod_eq_of_lt h

theorem u32_lt (n : Nat) : u32 n < 2 ^ 32 := Nat.mod_lt _ (by norm_num)

/-- Incrementing a wrapped counter wraps the incremented counter. -/
theorem u32_add_one (n : Nat) : u32 (u32 n + 1) = u32 (n + 1) := by
  simp [u32, Nat.add_mod]

end Words
