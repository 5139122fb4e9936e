import Mathlib

/-!
Bitmaps packed eight flags to a byte, least significant bit first.
-/

namespace Bitmap

/-- Whether flag `i` is set. -/
def testBit (bitmap : List UInt8) (i : Nat) : Bool :=
  (bitmap.getD (i / 8) 0).toNat.testBit (i % 8)

/-- Set flag `i`; the byte it lives in has to exist. -/
def setBit (bitmap : List UInt8) (i : Nat) : List UInt8 :=
  bitmap.set (i / 8) (UInt8.ofNat ((bitmap.getD (i / 8) 0).toNat ||| 2 ^ (i % 8)))

/-- Bytes needed for `count` flags. -/
def byteCount (count : Nat) : Nat := (count + 7) / 8

@[simp] theorem length_setBit (bitmap : List UInt8) (i : Nat) :
    (setBit bitmap i).length = bitmap.length := by
  simp [setBit]

theorem div_lt_byteCount {i count : Nat} (h : i < count) : i / 8 < byteCount count := by
  unfold byteCount
  omega

theorem testBit_replicate_zero (count i : Nat) : testBit (List.replicate count 0) i = false := by
  by_cases h : i / 8 < count <;> simp [testBit, List.getD_eq_getElem?_getD, h]

/-- Appending cleared bytes sets no flag. -/
theorem testBit_append_zero (bitmap : List UInt8) (count i : Nat) :
    testBit (bitmap ++ List.replicate count 0) i = testBit bitmap i := by
  unfold testBit
  congr 2
  simp only [List.getD_eq_getElem?_getD, List.getElem?_append]
  split
  · rfl
  · rename_i h
    rw [List.getElem?_eq_none (by omega : bitmap.length ≤ i / 8), List.getElem?_replicate]
    split <;> rfl

private theorem toNat_or_pow (byte : UInt8) (bit : Nat) (hbit : bit < 8) :
    (UInt8.ofNat (byte.toNat ||| 2 ^ bit)).toNat = byte.toNat ||| 2 ^ bit := by
  have hpow : 2 ^ bit < 2 ^ 8 := Nat.pow_lt_pow_right (by omega) hbit
  have hor : byte.toNat ||| 2 ^ bit < 2 ^ 8 := Nat.or_lt_two_pow byte.toNat_lt hpow
  rw [UInt8.toNat_ofNat']
  exact Nat.mod_eq_of_lt hor

theorem testBit_setBit (bitmap : List UInt8) (i j : Nat) (hi : i / 8 < bitmap.length) :
    testBit (setBit bitmap i) j = (testBit bitmap j || decide (i = j)) := by
  unfold testBit setBit
  by_cases hbyte : i / 8 = j / 8
  · have hvalue : (bitmap.set (i / 8)
        (UInt8.ofNat ((bitmap.getD (i / 8) 0).toNat ||| 2 ^ (i % 8)))).getD (j / 8) 0 =
        UInt8.ofNat ((bitmap.getD (j / 8) 0).toNat ||| 2 ^ (i % 8)) := by
      rw [← hbyte, List.getD_eq_getElem?_getD, List.getElem?_set_self hi]
      rfl
    rw [hvalue, toNat_or_pow _ _ (Nat.mod_lt _ (by omega)), Nat.testBit_or, Nat.testBit_two_pow]
    congr 1
    exact decide_eq_decide.mpr (by omega)
  · have hvalue : (bitmap.set (i / 8)
        (UInt8.ofNat ((bitmap.getD (i / 8) 0).toNat ||| 2 ^ (i % 8)))).getD (j / 8) 0 =
        bitmap.getD (j / 8) 0 := by
      rw [List.getD_eq_getElem?_getD, List.getElem?_set_ne hbyte, List.getD_eq_getElem?_getD]
    have hne : i ≠ j := fun h => hbyte (by rw [h])
    rw [hvalue]
    simp [hne]

/-! ## The bitmap of a list of flags -/

/-- Set the flags that are true, counting them from `start`. -/
def mark (bitmap : List UInt8) (start : Nat) : List Bool → List UInt8
  | [] => bitmap
  | flag :: flags => mark (if flag then setBit bitmap start else bitmap) (start + 1) flags

@[simp] theorem length_mark (bitmap : List UInt8) (start : Nat) (flags : List Bool) :
    (mark bitmap start flags).length = bitmap.length := by
  induction flags generalizing bitmap start with
  | nil => rfl
  | cons flag flags ih =>
    rw [mark, ih]
    split <;> simp

theorem testBit_mark (bitmap : List UInt8) (start : Nat) (flags : List Bool) (i : Nat)
    (hroom : start + flags.length ≤ 8 * bitmap.length) :
    testBit (mark bitmap start flags) i =
      (testBit bitmap i || (decide (start ≤ i) && flags.getD (i - start) false)) := by
  induction flags generalizing bitmap start with
  | nil => simp [mark]
  | cons flag flags ih =>
    simp only [List.length_cons] at hroom
    have hrest : start + 1 + flags.length ≤
        8 * (if flag then setBit bitmap start else bitmap).length := by
      split
      · rw [length_setBit]
        omega
      · omega
    rw [mark, ih _ _ hrest]
    have hhead : testBit (if flag then setBit bitmap start else bitmap) i =
        (testBit bitmap i || (flag && decide (start = i))) := by
      cases flag with
      | false => simp
      | true => simp [testBit_setBit bitmap start i (by omega)]
    rw [hhead]
    rcases lt_trichotomy i start with h | h | h
    · simp [show ¬ start = i by omega, show ¬ start ≤ i by omega, show ¬ start + 1 ≤ i by omega]
    · subst h
      simp
    · obtain ⟨k, rfl⟩ : ∃ k, i = start + 1 + k := ⟨i - (start + 1), by omega⟩
      have hk : start + 1 + k - start = k + 1 := by omega
      simp [show ¬ start = start + 1 + k by omega, hk,
        show start ≤ start + 1 + k by omega]

/-- Marking a cleared bitmap of the right size records exactly the flags. -/
theorem testBit_mark_zero (flags : List Bool) (i : Nat) :
    testBit (mark (List.replicate (byteCount flags.length) 0) 0 flags) i = flags.getD i false := by
  rw [testBit_mark _ _ _ _ (by simp [byteCount]; omega), testBit_replicate_zero]
  simp

/-! ## Growing bitmaps -/

/-- Append cleared bytes until flag number `index` has its byte. -/
def grow (bitmap : List UInt8) (index : Nat) : List UInt8 :=
  if bitmap.length ≤ index / 8 then
    bitmap ++ List.replicate (index / 8 + 1 - bitmap.length) 0
  else bitmap

/-- Append flag number `index` to a bitmap that grows a byte at a time. -/
def push (bitmap : List UInt8) (index : Nat) (flag : Bool) : List UInt8 :=
  if flag then setBit (grow bitmap index) index else grow bitmap index

/-- Append flags one after another, the first of them as number `start`. -/
def pushAll (bitmap : List UInt8) (start : Nat) : List Bool → List UInt8
  | [] => bitmap
  | flag :: flags => pushAll (push bitmap start flag) (start + 1) flags

theorem pushAll_append (bitmap : List UInt8) (start : Nat) (flags more : List Bool) :
    pushAll bitmap start (flags ++ more) =
      pushAll (pushAll bitmap start flags) (start + flags.length) more := by
  induction flags generalizing bitmap start with
  | nil => rfl
  | cons flag flags ih =>
    rw [List.cons_append, pushAll, ih, List.length_cons]
    congr 1
    omega

theorem length_grow {bitmap : List UInt8} {index : Nat}
    (hlength : bitmap.length = byteCount index) :
    (grow bitmap index).length = byteCount (index + 1) := by
  unfold byteCount at *
  unfold grow
  split
  · rw [List.length_append, List.length_replicate]
    omega
  · omega

theorem testBit_grow (bitmap : List UInt8) (index i : Nat) :
    testBit (grow bitmap index) i = testBit bitmap i := by
  unfold grow
  split
  · exact testBit_append_zero _ _ _
  · rfl

theorem length_push {bitmap : List UInt8} {index : Nat} (flag : Bool)
    (hlength : bitmap.length = byteCount index) :
    (push bitmap index flag).length = byteCount (index + 1) := by
  cases flag with
  | false => exact length_grow hlength
  | true => exact (length_setBit _ _).trans (length_grow hlength)

theorem testBit_push {bitmap : List UInt8} {index : Nat} (flag : Bool) (i : Nat)
    (hlength : bitmap.length = byteCount index) :
    testBit (push bitmap index flag) i = (testBit bitmap i || (flag && decide (index = i))) := by
  cases flag with
  | false => simp [push, testBit_grow]
  | true =>
    have hroom : index / 8 < (grow bitmap index).length := by
      rw [length_grow hlength]
      exact div_lt_byteCount (Nat.lt_succ_self index)
    simp [push, testBit_setBit _ _ _ hroom, testBit_grow]

theorem length_pushAll {bitmap : List UInt8} {start : Nat} (flags : List Bool)
    (hlength : bitmap.length = byteCount start) :
    (pushAll bitmap start flags).length = byteCount (start + flags.length) := by
  induction flags generalizing bitmap start with
  | nil => exact hlength
  | cons flag flags ih =>
    rw [pushAll, ih (length_push flag hlength), List.length_cons]
    congr 1
    omega

theorem testBit_pushAll {bitmap : List UInt8} {start : Nat} (flags : List Bool) (i : Nat)
    (hlength : bitmap.length = byteCount start) :
    testBit (pushAll bitmap start flags) i =
      (testBit bitmap i || (decide (start ≤ i) && flags.getD (i - start) false)) := by
  induction flags generalizing bitmap start with
  | nil => simp [pushAll]
  | cons flag flags ih =>
    rw [pushAll, ih (length_push flag hlength), testBit_push flag i hlength]
    rcases lt_trichotomy i start with h | h | h
    · simp [show ¬ start = i by omega, show ¬ start ≤ i by omega, show ¬ start + 1 ≤ i by omega]
    · subst h
      simp
    · obtain ⟨k, rfl⟩ : ∃ k, i = start + 1 + k := ⟨i - (start + 1), by omega⟩
      have hk : start + 1 + k - start = k + 1 := by omega
      simp [show ¬ start = start + 1 + k by omega, hk,
        show start ≤ start + 1 + k by omega]

/-- The bitmap of a whole column of flags. -/
def ofFlags (flags : List Bool) : List UInt8 := pushAll [] 0 flags

theorem length_ofFlags (flags : List Bool) : (ofFlags flags).length = byteCount flags.length := by
  rw [ofFlags, length_pushAll flags rfl, Nat.zero_add]

theorem testBit_ofFlags (flags : List Bool) (i : Nat) :
    testBit (ofFlags flags) i = flags.getD i false := by
  rw [ofFlags, testBit_pushAll flags i rfl]
  simp [testBit]

end Bitmap
