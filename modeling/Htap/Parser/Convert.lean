import Htap.Basis.Rounding
import Htap.Parser.Lexer

/-!
`std::stoll`, `std::stoull` and `std::stod` on the texts of number tokens: an
optional minus, digits, and for doubles a fraction. `stod` fails as in glibc: on
overflow, and on a tiny number that has no exact result. Tiny is what stays below the normal
numbers after it is rounded to 53 bits.
-/

namespace Htap.Parser

open Storage

/-- The number that digits denote. -/
def digitsValue (digits : Bytes) : Nat := digits.foldl (fun n c => 10 * n + (c.toNat - 48)) 0

/-- Whether a minus stands in front, and what follows it. -/
def splitSign : Bytes → Bool × Bytes
  | 45 :: rest => (true, rest)
  | text => (false, text)

/-- The leading digits behind the sign. -/
def wholePart (text : Bytes) : Bytes := (splitSign text).2.takeWhile isDigit

/-- The integer that a text starts with. -/
def integerValue (text : Bytes) : Int :=
  if (splitSign text).1 then -(digitsValue (wholePart text) : Int) else digitsValue (wholePart text)

def stoll (text : Bytes) : Parsed Int64 :=
  if wholePart text = [] then .error (.invalidArgument "stoll")
  else if -2 ^ 63 ≤ integerValue text ∧ integerValue text < 2 ^ 63 then
    .ok (Int64.ofInt (integerValue text))
  else .error (.outOfRange "stoll")

/-- A minus negates the result modulo `2 ^ 64`. -/
def stoull (text : Bytes) : Parsed Nat :=
  if wholePart text = [] then .error (.invalidArgument "stoull")
  else if digitsValue (wholePart text) < 2 ^ 64 then .ok (integerValue text % 2 ^ 64).toNat
  else .error (.outOfRange "stoull")

/-- The digits behind the point. -/
def fractionPart (text : Bytes) : Bytes :=
  match (splitSign text).2.dropWhile isDigit with
  | 46 :: rest => rest.takeWhile isDigit
  | _ => []

/-- The magnitude of the double nearest to the number a text denotes. -/
def doubleMagnitude (text : Bytes) : Nat :=
  Binary64.roundUnits (digitsValue (wholePart text ++ fractionPart text) * 2 ^ 1074)
    (10 ^ (fractionPart text).length)

/-- The number rounds below the normal numbers even where the exponent has no bound, and the
result is not exact. -/
def underflows (text : Bytes) : Bool :=
  decide (digitsValue (wholePart text ++ fractionPart text) * 2 ^ 1076 <
      (2 ^ 54 - 1) * 10 ^ (fractionPart text).length) &&
    decide (doubleMagnitude text * 10 ^ (fractionPart text).length ≠
      digitsValue (wholePart text ++ fractionPart text) * 2 ^ 1074)

def stod (text : Bytes) : Parsed Binary64 :=
  if wholePart text = [] ∧ fractionPart text = [] then .error (.invalidArgument "stod")
  else if doubleMagnitude text = Binary64.infinityMagnitude || underflows text then
    .error (.outOfRange "stod")
  else .ok (Binary64.ofMagnitude (splitSign text).1 (doubleMagnitude text))

example : stoll (ascii "-9223372036854775808") = .ok Int64.minValue ∧
    stoll (ascii "9223372036854775808") = .error (.outOfRange "stoll") ∧
    stoull (ascii "-5") = .ok (2 ^ 64 - 5) ∧ stod (ascii "-0.5") = .ok ⟨0xBFE0000000000000⟩ := by
  decide +kernel

/-- Just below the least normal number: the first rounds up to it and fails, the second is
not tiny any more. -/
example : stod (ascii "0." ++ List.replicate 307 48 ++ ascii "22250738585072012") =
      .error (.outOfRange "stod") ∧
    stod (ascii "0." ++ List.replicate 307 48 ++ ascii "222507385850720138") =
      .ok ⟨0x0010000000000000⟩ := by
  decide +kernel

end Htap.Parser
