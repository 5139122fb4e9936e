import Htap.Parser.Numbers
import Htap.Parser.Recognition
import Htap.Parser.Sentences

/-!
What parsing throws. It stays within `ParseError` unless a literal at a place where
a statement has one is out of the range of its conversion. A LIMIT is the number
written unless that number is negative.
-/

namespace Htap.Properties

open Storage Htap.Parser

/-- The text of the token behind the first `LIMIT`. -/
inductive LimitLiteral : Parser → Bytes → Prop
  | here {p q : Parser} (htype : p.current.type = .limit) (hadvance : p.advance = .ok q) :
      LimitLiteral p q.current.text
  | later {p q : Parser} {text : Bytes} (htype : p.current.type ≠ .limit)
      (hadvance : p.advance = .ok q) (hrest : LimitLiteral q text) : LimitLiteral p text

/-- The literal written behind `LIMIT` in an input. -/
def WritesLimit (input text : Bytes) : Prop :=
  ∃ p, Parser.create { input := input } = .ok p ∧ LimitLiteral p text

/-- Parsing returns a statement whose LIMIT is the number written behind `LIMIT`, or
throws a `ParseError`. -/
def ReturnsOrParseError (input : Bytes) : Prop :=
  (∃ s, parse input = .ok s ∧
    ∀ n, s.limit = some n → ∃ text, WritesLimit input text ∧ (n : Int) = integerValue text) ∨
  ∃ message detail position, parse input = .error (.parseError message detail position)

/-- The input begins as a statement does up to a literal whose conversion throws, or
with a statement whose LIMIT is negative. -/
def Misfit (input : Bytes) : Prop :=
  ∃ ts s, Sentence ts s ∧ (Begins input ts none ∨
    ∃ q text, Begins input ts (some q) ∧ .count text ∈ ts ∧ integerValue text < 0)

theorem LimitLiteral.unique {p : Parser} {text text' : Bytes} (h : LimitLiteral p text)
    (h' : LimitLiteral p text') : text = text' := by
  induction h with
  | here htype hadvance =>
    cases h' with
    | here _ hadvance' =>
      rw [hadvance] at hadvance'
      cases hadvance'
      rfl
    | later htype' => exact absurd htype htype'
  | later htype hadvance _ ih =>
    cases h' with
    | here htype' => exact absurd htype' htype
    | later _ hadvance' hrest' =>
      rw [hadvance] at hadvance'
      cases hadvance'
      exact ih hrest'

/-- The number of a statement's ending is the literal behind the first `LIMIT`. -/
private theorem limitLiteral_of_follows {p q : Parser} {us : List Terminal} {text : Bytes}
    (hplain : Plain us)
    (h : Follows p (us ++ [.word .limit, .count text, .word .semicolon]) (some q)) :
    LimitLiteral p text ∧ ∃ n, stoull text = .ok n := by
  induction us generalizing p with
  | nil =>
    cases h with
    | step htype _ _ hadvance hrest =>
      cases hrest with
      | step hcount hfails _ _ _ =>
        refine ⟨hcount.2 ▸ .here htype hadvance, ?_⟩
        cases hvalue : stoull text with
        | ok n => exact ⟨n, rfl⟩
        | error e => exact absurd ⟨e, hvalue⟩ hfails
  | cons t us ih =>
    rw [plain_cons] at hplain
    have htype := h.type_eq
    cases h with
    | step _ _ _ hadvance hrest =>
      obtain ⟨hlimit, hvalue⟩ := ih hplain.2 hrest
      exact ⟨.later (htype ▸ (plain_type_ne hplain.1).1) hadvance hlimit, hvalue⟩

private theorem count_not_mem {us : List Terminal} {text : Bytes} (hplain : Plain us) :
    .count text ∉ us := fun hmem => nomatch hplain _ hmem

/-- The LIMIT of a statement read from an input is the converted literal behind `LIMIT`. -/
private theorem limit_written {input : Bytes} {ts : List Terminal} {s : Statement} {q : Parser}
    (hs : Sentence ts s) (hrun : Begins input ts (some q)) :
    (s.limit = none ∧ ∀ text, .count text ∉ ts) ∨
      ∃ text n, s.limit = some n ∧ .count text ∈ ts ∧ (∀ text', .count text' ∈ ts → text' = text) ∧
        WritesLimit input text ∧ stoull text = .ok n := by
  obtain ⟨us, vs, rfl, hplain, hending⟩ := hs.shape
  generalize s.limit = limit at hending
  cases hending with
  | plain =>
    left
    refine ⟨rfl, fun text hmem => ?_⟩
    rcases List.mem_append.mp hmem with h | h
    · exact count_not_mem hplain h
    · cases List.mem_singleton.mp h
  | @limit text n hvalue =>
    right
    obtain ⟨p, hp, hrun⟩ := hrun
    obtain ⟨hliteral, m, hm⟩ := limitLiteral_of_follows hplain hrun
    refine ⟨text, n, rfl, ?_, ?_, ⟨p, hp, hliteral⟩, hvalue m hm ▸ hm⟩
    · exact List.mem_append_right _ (List.mem_cons_of_mem _ List.mem_cons_self)
    · intro text' hmem
      rcases List.mem_append.mp hmem with h | h
      · exact (count_not_mem hplain h).elim
      · simpa using h

theorem WritesLimit.unique {input text text' : Bytes} (h : WritesLimit input text)
    (h' : WritesLimit input text') : text = text' := by
  obtain ⟨p, hp, h⟩ := h
  obtain ⟨p', hp', h'⟩ := h'
  rw [hp] at hp'
  cases hp'
  exact h.unique h'

/-- Parsing throws nothing but a `ParseError`, and a returned LIMIT is the number written,
exactly where no literal is out of range and no LIMIT negative. Any bytes are an input; a
literal counts only when the parser comes to it before another error. -/
theorem parse_stays_within_parseError (input : Bytes) :
    ReturnsOrParseError input ↔ ¬Misfit input := by
  constructor
  · rintro h ⟨ts, s, hs, hnone | ⟨q, text, hrun, hmem, hnegative⟩⟩
    · obtain ⟨e, he, hne⟩ := parse_throws.mpr ⟨ts, s, hs, hnone⟩
      rcases h with ⟨s', hs', -⟩ | ⟨message, detail, position, herror⟩
      · rw [he] at hs'
        cases hs'
      · rw [he] at herror
        cases herror
        exact hne message detail position rfl
    · have hparse := parse_eq_ok.mpr ⟨ts, q, hs, hrun⟩
      rcases limit_written hs hrun with ⟨-, hnone⟩ | ⟨text', n, hlimit, -, huniq, hwrites, -⟩
      · exact hnone text hmem
      · rcases h with ⟨s', hs', hexact⟩ | ⟨message, detail, position, herror⟩
        · rw [hparse] at hs'
          cases hs'
          obtain ⟨text'', hwrites', hn⟩ := hexact n hlimit
          rw [hwrites'.unique hwrites, ← huniq text hmem] at hn
          omega
        · rw [hparse] at herror
          cases herror
  · intro hfits
    cases hparse : parse input with
    | ok s =>
      refine Or.inl ⟨s, hparse, fun n hlimit => ?_⟩
      obtain ⟨ts, q, hs, hrun⟩ := parse_eq_ok.mp hparse
      rcases limit_written hs hrun with ⟨hnone, -⟩ | ⟨text, m, hsome, hmem, -, hwrites, hvalue⟩
      · rw [hnone] at hlimit
        cases hlimit
      · rw [hsome] at hlimit
        cases hlimit
        refine ⟨text, hwrites, stoull_nonneg hvalue (Int.not_lt.mp fun hnegative => ?_)⟩
        exact hfits ⟨ts, s, hs, Or.inr ⟨q, text, hrun, hmem, hnegative⟩⟩
    | error e =>
      right
      by_contra hne
      have herror : ∀ message detail position, e ≠ .parseError message detail position := by
        rintro message detail position rfl
        exact hne ⟨message, detail, position, hparse⟩
      obtain ⟨ts, s, hs, hrun⟩ := parse_throws.mp ⟨e, hparse, herror⟩
      exact hfits ⟨ts, s, hs, Or.inl hrun⟩

/-- An integer literal outside INT64 throws what `std::stoll` throws. -/
theorem parse_throws_out_of_range :
    ¬ReturnsOrParseError (ascii "INSERT INTO t (a) VALUES (9223372036854775808);") := by
  have hrun : parse (ascii "INSERT INTO t (a) VALUES (9223372036854775808);") =
      .error (.outOfRange "stoll") := by decide +kernel
  rintro (⟨s, hs, -⟩ | ⟨message, detail, position, herror⟩)
  · rw [hrun] at hs
    cases hs
  · rw [hrun] at herror
    cases herror

example : (parse (ascii "SELECT a FROM t LIMIT -5;")).map Statement.limit =
    .ok (some (2 ^ 64 - 5)) := by decide +kernel

end Htap.Properties
