import Htap.Parser.Convert
import Htap.Parser.Lexemes

/-!
The conversions on the texts the lexer gives them: a sign, digits, and for doubles
a point and digits. There they fail only where the number is out of range.
-/

namespace Htap.Parser

open Storage

section

variable {sign digits fraction : Bytes}

private theorem splitSign_append (hsign : IsSign sign) {text : Bytes}
    (htext : ∃ c ∈ text.head?, isDigit c = true) :
    splitSign (sign ++ text) = (decide (sign = [45]), text) := by
  obtain ⟨c, hc, hdigit⟩ := htext
  obtain ⟨rest, rfl⟩ := List.head?_eq_some_iff.mp hc
  rcases hsign with rfl | rfl
  · rw [List.nil_append, splitSign]
    · rfl
    · rintro rest' heq
      rw [List.cons.injEq] at heq
      rw [heq.1] at hdigit
      exact absurd hdigit (by decide)
  · rfl

private theorem head_isDigit (hdigits : IsDigits digits) (rest : Bytes) :
    ∃ c ∈ (digits ++ rest).head?, isDigit c = true := by
  obtain ⟨c, tail, rfl⟩ := List.exists_cons_of_ne_nil hdigits.1
  exact ⟨c, rfl, hdigits.2 c List.mem_cons_self⟩

theorem wholePart_integer (hsign : IsSign sign) (hdigits : IsDigits digits) :
    wholePart (sign ++ digits) = digits := by
  have hhead := head_isDigit hdigits []
  rw [List.append_nil] at hhead
  rw [wholePart, splitSign_append hsign hhead]
  exact List.takeWhile_eq_self_iff.mpr hdigits.2

theorem integerValue_integer (hsign : IsSign sign) (hdigits : IsDigits digits) :
    integerValue (sign ++ digits) =
      if sign = [45] then -(digitsValue digits : Int) else digitsValue digits := by
  have hhead := head_isDigit hdigits []
  rw [List.append_nil] at hhead
  rw [integerValue, wholePart_integer hsign hdigits, splitSign_append hsign hhead]
  simp only [decide_eq_true_eq]

/-- `stoll` reads an integer literal within `int64_t`. -/
theorem stoll_integer (hsign : IsSign sign) (hdigits : IsDigits digits) :
    stoll (sign ++ digits) =
      if -2 ^ 63 ≤ integerValue (sign ++ digits) ∧ integerValue (sign ++ digits) < 2 ^ 63 then
        .ok (Int64.ofInt (integerValue (sign ++ digits)))
      else .error (.outOfRange "stoll") := by
  rw [stoll, wholePart_integer hsign hdigits, if_neg hdigits.1]

/-- `stoull` reads an integer literal whose digits are within `uint64_t`. -/
theorem stoull_integer (hsign : IsSign sign) (hdigits : IsDigits digits) :
    stoull (sign ++ digits) =
      if digitsValue digits < 2 ^ 64 then
        .ok (integerValue (sign ++ digits) % 2 ^ 64).toNat
      else .error (.outOfRange "stoull") := by
  rw [stoull, wholePart_integer hsign hdigits, if_neg hdigits.1]

end

/-! ## The value of a LIMIT -/

/-- A number that is not negative is converted to itself. -/
theorem stoull_nonneg {text : Bytes} {n : Nat} (h : stoull text = .ok n)
    (hsign : 0 ≤ integerValue text) : (n : Int) = integerValue text := by
  unfold stoull at h
  split_ifs at h with hempty hlt
  cases h
  have hle : integerValue text ≤ digitsValue (wholePart text) := by
    unfold integerValue
    split_ifs
    all_goals omega
  rw [Int.toNat_of_nonneg (Int.emod_nonneg _ (by decide)), Int.emod_eq_of_lt hsign]
  omega

end Htap.Parser
