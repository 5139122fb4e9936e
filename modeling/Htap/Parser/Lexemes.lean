import Htap.Parser.Lexer

/-!
What the tokens of a query look like, apart from how they are read. A lexeme is
the text of one token, and it ends where the next character cannot continue it.
-/

namespace Htap.Parser

open Storage

/-- No first character of a text satisfies `test`. -/
def Stops (test : UInt8 → Bool) (text : Bytes) : Prop := ∀ c ∈ text.head?, test c = false

/-- Some digits. -/
def IsDigits (text : Bytes) : Prop := text ≠ [] ∧ ∀ c ∈ text, isDigit c = true

/-- A minus or nothing. -/
def IsSign (text : Bytes) : Prop := text = [] ∨ text = [45]

/-- Letters, digits and `_`, not starting with a digit. -/
def IsWord (text : Bytes) : Prop :=
  (∃ c ∈ text.head?, isIdentifierStart c = true) ∧ ∀ c ∈ text, isIdentifierPart c = true

instance (test : UInt8 → Bool) (text : Bytes) : Decidable (Stops test text) :=
  decidable_of_iff (text.head?.all fun c => !test c) (by cases text <;> simp [Stops])

instance (text : Bytes) : Decidable (IsDigits text) :=
  decidable_of_iff (text ≠ [] ∧ text.all isDigit) (and_congr Iff.rfl List.all_eq_true)

instance (text : Bytes) : Decidable (IsSign text) :=
  inferInstanceAs (Decidable (text = [] ∨ text = [45]))

instance (text : Bytes) : Decidable (IsWord text) :=
  decidable_of_iff (text.head?.any isIdentifierStart ∧ text.all isIdentifierPart)
    (and_congr (by cases text <;> simp) List.all_eq_true)

/-- Punctuation and operators. -/
def symbols : List (Bytes × TokenType) :=
  [(ascii "(", .lParen), (ascii ")", .rParen), (ascii ",", .comma), (ascii ";", .semicolon),
    (ascii "*", .star), (ascii "=", .equal), (ascii "!=", .notEqual), (ascii "<", .less),
    (ascii "<=", .lessEqual), (ascii ">", .greater), (ascii ">=", .greaterEqual)]

/-- A text between quotes, with every quote in it doubled. -/
def quoted (text : Bytes) : Bytes :=
  39 :: text.flatMap (fun c => if c = 39 then [39, 39] else [c]) ++ [39]

/-- `Lexeme classify input type text rest`: the input is a token and `rest`, which
does not continue it. `classify` is the type of a word. -/
inductive Lexeme (classify : Bytes → TokenType) : Bytes → TokenType → Bytes → Bytes → Prop
  | word {word rest : Bytes} (hword : IsWord word) (hrest : Stops isIdentifierPart rest) :
      Lexeme classify (word ++ rest) (classify word) word rest
  | integer {sign digits rest : Bytes} (hsign : IsSign sign) (hdigits : IsDigits digits)
      (hrest : Stops (fun c => isDigit c || c == 46) rest) :
      Lexeme classify (sign ++ digits ++ rest) .intLiteral (sign ++ digits) rest
  | double {sign whole fraction rest : Bytes} (hsign : IsSign sign) (hwhole : IsDigits whole)
      (hfraction : IsDigits fraction) (hrest : Stops isDigit rest) :
      Lexeme classify (sign ++ whole ++ 46 :: fraction ++ rest) .doubleLiteral
        (sign ++ whole ++ 46 :: fraction) rest
  | string {text rest : Bytes} (hrest : Stops (· == 39) rest) :
      Lexeme classify (quoted text ++ rest) .stringLiteral text rest
  | symbol {text rest : Bytes} {type : TokenType} (htype : (text, type) ∈ symbols)
      (hrest : text = [60] ∨ text = [62] → Stops (· == 61) rest) :
      Lexeme classify (text ++ rest) type text rest

/-! ## Longest runs of characters -/

@[simp] theorem Lexer.currentChar_nil (position : SourcePosition) :
    Lexer.currentChar ⟨[], position⟩ = 0 := rfl

@[simp] theorem Lexer.currentChar_cons (c : UInt8) (rest : Bytes) (position : SourcePosition) :
    Lexer.currentChar ⟨c :: rest, position⟩ = c := rfl

@[simp] theorem Lexer.advance_cons (c : UInt8) (rest : Bytes) (position : SourcePosition) :
    Lexer.advance ⟨c :: rest, position⟩ = ⟨rest, position.after c⟩ := rfl

theorem takeWhile_stops {test : UInt8 → Bool} {text rest : Bytes}
    (htext : ∀ c ∈ text, test c = true) (hrest : Stops test rest) :
    (text ++ rest).takeWhile test = text := by
  have hnone : rest.takeWhile test = [] := by
    cases rest with
    | nil => rfl
    | cons c rest => exact List.takeWhile_cons_of_neg (by simp [hrest c rfl])
  rw [List.takeWhile_append_of_pos htext, hnone, List.append_nil]

theorem dropWhile_stops {test : UInt8 → Bool} {text rest : Bytes}
    (htext : ∀ c ∈ text, test c = true) (hrest : Stops test rest) :
    (text ++ rest).dropWhile test = rest := by
  have hall : rest.dropWhile test = rest := by
    cases rest with
    | nil => rfl
    | cons c rest => exact List.dropWhile_cons_of_neg (by simp [hrest c rfl])
  rw [List.dropWhile_append_of_pos htext, hall]

theorem stops_dropWhile (test : UInt8 → Bool) (text : Bytes) :
    Stops test (text.dropWhile test) := by
  intro c hc
  have h := List.head?_dropWhile_not test text
  rw [Option.mem_def.mp hc] at h
  simpa using h

private theorem of_mem_takeWhile {test : UInt8 → Bool} {text : Bytes} :
    ∀ c ∈ text.takeWhile test, test c = true := fun _ hc => List.mem_takeWhile_imp hc

/-- The digits a text starts with. -/
private theorem isDigits_takeWhile {lexer : Lexer} (h : isDigit lexer.currentChar = true) :
    IsDigits (lexer.input.takeWhile isDigit) := by
  constructor
  · unfold Lexer.currentChar at h
    cases hinput : lexer.input with
    | nil => rw [hinput] at h; exact absurd h (by decide)
    | cons c rest =>
      rw [hinput, List.headD_cons] at h
      rw [List.takeWhile_cons_of_pos h]
      exact List.cons_ne_nil _ _
  · exact of_mem_takeWhile

private theorem exists_cons {text : Bytes} (h : IsDigits text) :
    ∃ c rest, text = c :: rest ∧ isDigit c = true := by
  obtain ⟨c, rest, rfl⟩ := List.exists_cons_of_ne_nil h.1
  exact ⟨c, rest, rfl, h.2 c List.mem_cons_self⟩

/-! ## Reading a lexeme -/

private theorem readFraction_integer {start position : SourcePosition} {text rest : Bytes}
    (hrest : Stops (fun c => isDigit c || c == 46) rest) :
    Lexer.readFraction start text ⟨rest, position⟩ =
      .ok (⟨.intLiteral, start, text⟩, ⟨rest, position⟩) := by
  rw [Lexer.readFraction, if_neg]
  intro h
  cases rest with
  | nil =>
    rw [Lexer.currentChar_nil] at h
    exact absurd h (by decide)
  | cons c rest =>
    have hc := hrest c rfl
    rw [Lexer.currentChar_cons] at h
    rw [h] at hc
    exact absurd hc (by decide)

private theorem readFraction_double (start position : SourcePosition) (text : Bytes)
    {fraction rest : Bytes} (hfraction : IsDigits fraction) (hrest : Stops isDigit rest) :
    ∃ next, Lexer.readFraction start text ⟨46 :: fraction ++ rest, position⟩ =
      .ok (⟨.doubleLiteral, start, text ++ 46 :: fraction⟩, ⟨rest, next⟩) := by
  obtain ⟨c, digits, hcons, hc⟩ := exists_cons hfraction
  refine ⟨(fraction.foldl SourcePosition.after (position.after 46)), ?_⟩
  have hdigit : isDigit (Lexer.currentChar ⟨fraction ++ rest, position.after 46⟩) = true := by
    rw [hcons]
    exact hc
  rw [List.cons_append, Lexer.readFraction, Lexer.currentChar_cons, if_pos rfl]
  simp only [Lexer.advance_cons, hdigit, if_true, Lexer.advanceWhile,
    takeWhile_stops hfraction.2 hrest, dropWhile_stops hfraction.2 hrest]

private theorem readDigits_lexeme {start position : SourcePosition} {sign digits rest : Bytes}
    (hdigits : IsDigits digits) (hrest : Stops isDigit rest) :
    Lexer.readDigits start sign ⟨digits ++ rest, position⟩ =
      Lexer.readFraction start (sign ++ digits)
        ⟨rest, digits.foldl SourcePosition.after position⟩ := by
  obtain ⟨c, tail, hcons, hc⟩ := exists_cons hdigits
  have hdigit : isDigit (Lexer.currentChar ⟨digits ++ rest, position⟩) = true := by
    rw [hcons]
    exact hc
  rw [Lexer.readDigits, if_pos hdigit, Lexer.advanceWhile]
  simp only [takeWhile_stops hdigits.2 hrest, dropWhile_stops hdigits.2 hrest]

/-- A number whose digits are read behind the sign. -/
private theorem readNumber_sign {lexer : Lexer} {sign digits rest : Bytes} (hsign : IsSign sign)
    (hdigits : IsDigits digits) (hinput : lexer.input = sign ++ digits ++ rest) :
    ∃ position, lexer.readNumber =
      Lexer.readDigits lexer.position sign ⟨digits ++ rest, position⟩ := by
  obtain ⟨input, position⟩ := lexer
  subst hinput
  obtain ⟨c, tail, hcons, hc⟩ := exists_cons hdigits
  rcases hsign with rfl | rfl
  · refine ⟨position, ?_⟩
    rw [Lexer.readNumber, if_neg]
    · rfl
    · rw [List.nil_append, hcons, List.cons_append, Lexer.currentChar_cons]
      rintro rfl
      exact absurd hc (by decide)
  · exact ⟨position.after 45, rfl⟩

private theorem readStringBody_other {c : UInt8} (hc : c ≠ 39) (rest : Bytes)
    (position : SourcePosition) :
    Lexer.readStringBody (c :: rest) position =
      (Lexer.readStringBody rest (position.after c)).map fun r => (c :: r.1, r.2) := by
  cases rest with
  | nil => simp only [Lexer.readStringBody, if_neg hc]
  | cons d rest => rw [Lexer.readStringBody, if_neg hc]

private theorem readStringBody_end {rest : Bytes} (hrest : Stops (· == 39) rest)
    (position : SourcePosition) :
    Lexer.readStringBody (39 :: rest) position = some ([], ⟨rest, position.after 39⟩) := by
  cases rest with
  | nil => rfl
  | cons d rest =>
    have hd : d ≠ 39 := by simpa using hrest d rfl
    rw [Lexer.readStringBody, if_pos rfl, if_neg hd]

private theorem readStringBody_quoted {rest : Bytes} (hrest : Stops (· == 39) rest) (text : Bytes)
    (position : SourcePosition) :
    ∃ next, Lexer.readStringBody
        (text.flatMap (fun c => if c = 39 then [39, 39] else [c]) ++ 39 :: rest) position =
      some (text, ⟨rest, next⟩) := by
  induction text generalizing position with
  | nil => exact ⟨position.after 39, readStringBody_end hrest position⟩
  | cons c text ih =>
    by_cases hc : c = 39
    · obtain ⟨next, hnext⟩ := ih ((position.after 39).after 39)
      refine ⟨next, ?_⟩
      rw [List.flatMap_cons, if_pos hc, hc, List.append_assoc, List.cons_append, List.cons_append,
        List.nil_append, Lexer.readStringBody, if_pos rfl, if_pos rfl, hnext, Option.map_some]
    · obtain ⟨next, hnext⟩ := ih (position.after c)
      refine ⟨next, ?_⟩
      rw [List.flatMap_cons, if_neg hc, List.append_assoc, List.cons_append, List.nil_append,
        readStringBody_other hc, hnext, Option.map_some]

theorem readString_lexeme {lexer : Lexer} {text rest : Bytes} (hrest : Stops (· == 39) rest)
    (hinput : lexer.input = quoted text ++ rest) :
    ∃ position, lexer.readString =
      .ok (⟨.stringLiteral, lexer.position, text⟩, ⟨rest, position⟩) := by
  obtain ⟨input, position⟩ := lexer
  subst hinput
  obtain ⟨next, hnext⟩ := readStringBody_quoted hrest text (position.after 39)
  refine ⟨next, ?_⟩
  rw [quoted, List.cons_append, List.cons_append, List.append_assoc, List.cons_append,
    List.nil_append, Lexer.readString, Lexer.currentChar_cons, if_pos rfl, Lexer.advance_cons]
  simp only [hnext]

theorem readNumber_integer {lexer : Lexer} {sign digits rest : Bytes} (hsign : IsSign sign)
    (hdigits : IsDigits digits) (hrest : Stops (fun c => isDigit c || c == 46) rest)
    (hinput : lexer.input = sign ++ digits ++ rest) :
    ∃ position, lexer.readNumber =
      .ok (⟨.intLiteral, lexer.position, sign ++ digits⟩, ⟨rest, position⟩) := by
  obtain ⟨position, hnumber⟩ := readNumber_sign hsign hdigits hinput
  have hstops : Stops isDigit rest := fun c hc => (Bool.or_eq_false_iff.mp (hrest c hc)).1
  refine ⟨digits.foldl SourcePosition.after position, ?_⟩
  rw [hnumber, readDigits_lexeme hdigits hstops, readFraction_integer hrest]

theorem readNumber_double {lexer : Lexer} {sign whole fraction rest : Bytes} (hsign : IsSign sign)
    (hwhole : IsDigits whole) (hfraction : IsDigits fraction) (hrest : Stops isDigit rest)
    (hinput : lexer.input = sign ++ whole ++ 46 :: fraction ++ rest) :
    ∃ position, lexer.readNumber =
      .ok (⟨.doubleLiteral, lexer.position, sign ++ whole ++ 46 :: fraction⟩,
        ⟨rest, position⟩) := by
  rw [List.append_assoc (sign ++ whole)] at hinput
  obtain ⟨position, hnumber⟩ := readNumber_sign hsign hwhole hinput
  have hstops : Stops isDigit (46 :: fraction ++ rest) := by
    intro c hc
    obtain rfl : 46 = c := Option.some.inj hc
    decide
  obtain ⟨next, hnext⟩ := readFraction_double lexer.position
    (whole.foldl SourcePosition.after position) (sign ++ whole) hfraction hrest
  exact ⟨next, by rw [hnumber, readDigits_lexeme hwhole hstops, hnext]⟩

private theorem readToken_cons {lexer : Lexer} {c : UInt8} {rest : Bytes}
    (h : lexer.input = c :: rest) :
    lexer.readToken =
      if isIdentifierStart c then .ok lexer.readIdentifierOrKeyword
      else if isDigit c || (c == 45 && isDigit lexer.peekChar) then lexer.readNumber
      else if c = 39 then lexer.readString
      else lexer.readSymbol c := by
  rw [Lexer.readToken, h]

/-- The character that decides how a token is read, for each kind of it. -/
private theorem isDigit_or_minus {lexer : Lexer} {sign digits rest : Bytes} (hsign : IsSign sign)
    (hdigits : IsDigits digits) (hinput : lexer.input = sign ++ digits ++ rest) :
    ∃ c tail, lexer.input = c :: tail ∧ isIdentifierStart c = false ∧
      (isDigit c || (c == 45 && isDigit lexer.peekChar)) = true := by
  obtain ⟨d, digits, rfl, hd⟩ := exists_cons hdigits
  rcases hsign with rfl | rfl
  · refine ⟨d, digits ++ rest, hinput, ?_, by rw [hd, Bool.true_or]⟩
    rw [isDigit, decide_eq_true_iff] at hd
    rw [isIdentifierStart, isAlpha, Bool.or_eq_false_iff, Bool.or_eq_false_iff]
    refine ⟨⟨decide_eq_false fun h => ?_, decide_eq_false fun h => ?_⟩, beq_eq_false_iff_ne.mpr ?_⟩
    all_goals grind
  · refine ⟨45, d :: digits ++ rest, hinput, by decide, ?_⟩
    have hpeek : lexer.peekChar = d := by rw [Lexer.peekChar, hinput]; rfl
    rw [hpeek, hd]
    rfl

private theorem symbols_eq : symbols =
    [([40], .lParen), ([41], .rParen), ([44], .comma), ([59], .semicolon), ([42], .star),
      ([61], .equal), ([33, 61], .notEqual), ([60], .less), ([60, 61], .lessEqual),
      ([62], .greater), ([62, 61], .greaterEqual)] := by decide

private theorem currentChar_ne {rest : Bytes} (hrest : Stops (· == 61) rest)
    (position : SourcePosition) : Lexer.currentChar ⟨rest, position⟩ ≠ 61 := by
  cases rest with
  | nil =>
    rw [Lexer.currentChar_nil]
    decide
  | cons c rest => simpa using hrest c rfl

private theorem readSymbol_lexeme {lexer : Lexer} {type : TokenType} {text rest : Bytes}
    (htype : (text, type) ∈ symbols) (hrest : text = [60] ∨ text = [62] → Stops (· == 61) rest)
    (hinput : lexer.input = text ++ rest) :
    ∃ position, lexer.readToken = .ok (⟨type, lexer.position, text⟩, ⟨rest, position⟩) := by
  obtain ⟨input, position⟩ := lexer
  subst hinput
  simp only [symbols_eq, List.mem_cons, List.not_mem_nil, or_false, Prod.mk.injEq] at htype
  rcases htype with ⟨rfl, rfl⟩ | ⟨rfl, rfl⟩ | ⟨rfl, rfl⟩ | ⟨rfl, rfl⟩ | ⟨rfl, rfl⟩ | ⟨rfl, rfl⟩ |
    ⟨rfl, rfl⟩ | ⟨rfl, rfl⟩ | ⟨rfl, rfl⟩ | ⟨rfl, rfl⟩ | ⟨rfl, rfl⟩
  case inr.inr.inr.inr.inr.inr.inr.inl =>
    have hne := currentChar_ne (hrest (Or.inl rfl)) (position.after 60)
    refine ⟨position.after 60, ?_⟩
    calc Lexer.readToken ⟨[60] ++ rest, position⟩
        = Lexer.readSymbol 60 ⟨60 :: rest, position⟩ := rfl
      _ = _ := if_neg hne
  case inr.inr.inr.inr.inr.inr.inr.inr.inr.inl =>
    have hne := currentChar_ne (hrest (Or.inr rfl)) (position.after 62)
    refine ⟨position.after 62, ?_⟩
    calc Lexer.readToken ⟨[62] ++ rest, position⟩
        = Lexer.readSymbol 62 ⟨62 :: rest, position⟩ := rfl
      _ = _ := if_neg hne
  all_goals exact ⟨_, rfl⟩

/-- The lexer reads a lexeme. -/
theorem readToken_lexeme {lexer : Lexer} {type : TokenType} {text rest : Bytes}
    (h : Lexeme keywordType lexer.input type text rest) :
    ∃ position, lexer.readToken = .ok (⟨type, lexer.position, text⟩, ⟨rest, position⟩) := by
  generalize hinput : lexer.input = input at h
  cases h with
  | word hword hrest =>
    obtain ⟨⟨c, hc, hstart⟩, hpart⟩ := hword
    obtain ⟨tail, rfl⟩ := List.head?_eq_some_iff.mp hc
    refine ⟨(c :: tail).foldl SourcePosition.after lexer.position, ?_⟩
    rw [readToken_cons hinput, if_pos hstart, Lexer.readIdentifierOrKeyword, Lexer.advanceWhile,
      hinput, takeWhile_stops hpart hrest, dropWhile_stops hpart hrest]
  | integer hsign hdigits hrest =>
    obtain ⟨c, tail, hcons, hword, hnumber⟩ := isDigit_or_minus hsign hdigits hinput
    obtain ⟨position, hread⟩ := readNumber_integer hsign hdigits hrest hinput
    refine ⟨position, ?_⟩
    rw [readToken_cons hcons, if_neg (ne_true_of_eq_false hword), if_pos hnumber, hread]
  | double hsign hwhole hfraction hrest =>
    rw [List.append_assoc (_ ++ _)] at hinput
    obtain ⟨c, tail, hcons, hword, hnumber⟩ := isDigit_or_minus hsign hwhole hinput
    rw [← List.append_assoc (_ ++ _)] at hinput
    obtain ⟨position, hread⟩ := readNumber_double hsign hwhole hfraction hrest hinput
    refine ⟨position, ?_⟩
    rw [readToken_cons hcons, if_neg (ne_true_of_eq_false hword), if_pos hnumber, hread]
  | string hrest =>
    obtain ⟨position, hread⟩ := readString_lexeme hrest hinput
    refine ⟨position, ?_⟩
    rw [Lexer.readToken, hinput]
    exact hread
  | symbol htype hrest => exact readSymbol_lexeme htype hrest hinput

/-! ## What is not a lexeme is not read -/

/-- The input starts with a lexeme, or reading it fails with a `ParseError`. -/
private def Scanned (input : Bytes) (result : Parsed (Token × Lexer)) : Prop :=
  (∃ type text rest, Lexeme keywordType input type text rest) ∨
    ∃ message detail position, result = .error (.parseError message detail position)

private theorem takeWhile_append {test : UInt8 → Bool} (text : Bytes) :
    text.takeWhile test ++ text.dropWhile test = text := List.takeWhile_append_dropWhile

private theorem scanned_fraction (start : SourcePosition) {sign whole : Bytes} (lexer : Lexer)
    (hsign : IsSign sign) (hwhole : IsDigits whole) (hrest : Stops isDigit lexer.input) :
    Scanned (sign ++ whole ++ lexer.input) (lexer.readFraction start (sign ++ whole)) := by
  obtain ⟨input, position⟩ := lexer
  by_cases hpoint : Lexer.currentChar ⟨input, position⟩ = 46
  · cases input with
    | nil => exact absurd hpoint (by rw [Lexer.currentChar_nil]; decide)
    | cons c rest =>
      rw [Lexer.currentChar_cons] at hpoint
      subst hpoint
      by_cases hdigit : isDigit (Lexer.currentChar ⟨rest, position.after 46⟩) = true
      · left
        have hlexeme := @Lexeme.double keywordType _ _ _ _ hsign hwhole
          (isDigits_takeWhile hdigit) (stops_dropWhile isDigit rest)
        rw [List.append_assoc _ (_ :: _), List.cons_append, takeWhile_append] at hlexeme
        exact ⟨_, _, _, hlexeme⟩
      · right
        refine ⟨"ReadNumber called at invalid position", [], start, ?_⟩
        rw [Lexer.readFraction, Lexer.currentChar_cons, if_pos rfl]
        exact if_neg hdigit
  · left
    refine ⟨_, _, _, Lexeme.integer hsign hwhole ?_⟩
    intro c hc
    obtain ⟨tail, rfl⟩ := List.head?_eq_some_iff.mp hc
    rw [Bool.or_eq_false_iff]
    exact ⟨hrest c hc, beq_eq_false_iff_ne.mpr hpoint⟩

private theorem scanned_digits (start : SourcePosition) {sign : Bytes} (lexer : Lexer)
    (hsign : IsSign sign) : Scanned (sign ++ lexer.input) (lexer.readDigits start sign) := by
  unfold Lexer.readDigits
  split
  · rename_i hdigit
    have h := scanned_fraction start (lexer.advanceWhile isDigit) hsign
      (isDigits_takeWhile hdigit) (stops_dropWhile isDigit lexer.input)
    rwa [Lexer.advanceWhile, List.append_assoc, takeWhile_append] at h
  · exact Or.inr ⟨_, _, _, rfl⟩

private theorem scanned_number (lexer : Lexer) : Scanned lexer.input lexer.readNumber := by
  obtain ⟨input, position⟩ := lexer
  unfold Lexer.readNumber
  split
  · rename_i hminus
    cases input with
    | nil => exact absurd hminus (by rw [Lexer.currentChar_nil]; decide)
    | cons c rest =>
      rw [Lexer.currentChar_cons] at hminus
      subst hminus
      exact scanned_digits position ⟨rest, position.after 45⟩ (Or.inr rfl)
  · exact scanned_digits position ⟨input, position⟩ (Or.inl rfl)

/-- A string's contents end at the first quote that is not doubled. -/
private theorem of_readStringBody {input text : Bytes} {position : SourcePosition} {next : Lexer}
    (h : Lexer.readStringBody input position = some (text, next)) :
    ∃ rest, Stops (· == 39) rest ∧ 39 :: input = quoted text ++ rest := by
  fun_induction Lexer.readStringBody input position generalizing text next with
  | case1 => cases h
  | case2 position =>
    cases h
    exact ⟨[], by simp [Stops], rfl⟩
  | case3 position rest ih =>
    obtain ⟨⟨text', next'⟩, hbody, heq⟩ := Option.map_eq_some_iff.mp h
    obtain ⟨rest', hstops, hrest⟩ := ih hbody
    cases heq
    refine ⟨rest', hstops, ?_⟩
    rw [hrest]
    rfl
  | case4 position d rest hd =>
    cases h
    exact ⟨d :: rest, by simpa [Stops] using hd, rfl⟩
  | case5 c rest position hc ih =>
    obtain ⟨⟨text', next'⟩, hbody, heq⟩ := Option.map_eq_some_iff.mp h
    obtain ⟨rest', hstops, hrest⟩ := ih hbody
    cases heq
    refine ⟨rest', hstops, ?_⟩
    rw [quoted, List.cons_append, List.cons_append, List.cons.injEq] at hrest
    rw [hrest.2, quoted, List.flatMap_cons, if_neg hc]
    rfl

private theorem scanned_string {lexer : Lexer} {rest : Bytes} (h : lexer.input = 39 :: rest) :
    Scanned lexer.input lexer.readString := by
  obtain ⟨input, position⟩ := lexer
  subst h
  cases hbody : Lexer.readStringBody rest (position.after 39) with
  | none =>
    right
    refine ⟨"Unterminated string literal", [], position, ?_⟩
    rw [Lexer.readString, Lexer.currentChar_cons, if_pos rfl, Lexer.advance_cons]
    simp only [hbody]
  | some r =>
    obtain ⟨rest', hstops, hinput⟩ := of_readStringBody hbody
    left
    refine ⟨.stringLiteral, r.1, rest', ?_⟩
    rw [hinput]
    exact Lexeme.string hstops

private theorem singleCharacter_mem {c : UInt8} {type : TokenType}
    (h : Lexer.singleCharacter c = some type) :
    ([c], type) ∈ symbols ∧ ¬([c] = [60] ∨ [c] = [62]) := by
  rw [symbols_eq]
  unfold Lexer.singleCharacter at h
  split at h
  all_goals cases h
  all_goals decide

private theorem scanned_of_symbol (text : Bytes) (type : TokenType) {rest : Bytes}
    {result : Parsed (Token × Lexer)} (htype : (text, type) ∈ symbols)
    (hrest : text = [60] ∨ text = [62] → Stops (· == 61) rest) :
    Scanned (text ++ rest) result := Or.inl ⟨type, text, rest, Lexeme.symbol htype hrest⟩

private theorem equal_or_stops (rest : Bytes) :
    (∃ tail, rest = 61 :: tail) ∨ Stops (· == 61) rest := by
  cases rest with
  | nil => exact Or.inr (by simp [Stops])
  | cons c tail =>
    by_cases hc : c = 61
    · exact Or.inl ⟨tail, by rw [hc]⟩
    · exact Or.inr (by simpa [Stops] using hc)

private theorem scanned_symbol {lexer : Lexer} {c : UInt8} {rest : Bytes}
    (h : lexer.input = c :: rest) : Scanned lexer.input (lexer.readSymbol c) := by
  obtain ⟨input, position⟩ := lexer
  subst h
  unfold Lexer.readSymbol
  cases hsingle : Lexer.singleCharacter c with
  | some type =>
    obtain ⟨hmem, hnot⟩ := singleCharacter_mem hsingle
    exact scanned_of_symbol [c] type hmem fun h => absurd h hnot
  | none =>
    dsimp only [Lexer.advance_cons]
    split_ifs with hbang hequal hless hequal hgreater hequal
    · rcases equal_or_stops rest with ⟨tail, rfl⟩ | hstops
      · subst hbang
        exact scanned_of_symbol [33, 61] .notEqual (by decide) fun h => absurd h (by decide)
      · exact absurd hequal (currentChar_ne hstops _)
    · exact Or.inr ⟨_, _, _, rfl⟩
    · rcases equal_or_stops rest with ⟨tail, rfl⟩ | hstops
      · subst hless
        exact scanned_of_symbol [60, 61] .lessEqual (by decide) fun h => absurd h (by decide)
      · exact absurd hequal (currentChar_ne hstops _)
    · rcases equal_or_stops rest with ⟨tail, rfl⟩ | hstops
      · exact absurd rfl hequal
      · subst hless
        exact scanned_of_symbol [60] .less (by decide) fun _ => hstops
    · rcases equal_or_stops rest with ⟨tail, rfl⟩ | hstops
      · subst hgreater
        exact scanned_of_symbol [62, 61] .greaterEqual (by decide) fun h => absurd h (by decide)
      · exact absurd hequal (currentChar_ne hstops _)
    · rcases equal_or_stops rest with ⟨tail, rfl⟩ | hstops
      · exact absurd rfl hequal
      · subst hgreater
        exact scanned_of_symbol [62] .greater (by decide) fun _ => hstops
    · exact Or.inr ⟨_, _, _, rfl⟩

/-- In front of a character, the lexer reads a lexeme or fails with a `ParseError`. -/
private theorem scanned_token {lexer : Lexer} {c : UInt8} {rest : Bytes}
    (h : lexer.input = c :: rest) : Scanned lexer.input lexer.readToken := by
  rw [readToken_cons h]
  split_ifs with hstart hnumber hquote
  · left
    have hword : IsWord (lexer.input.takeWhile isIdentifierPart) := by
      refine ⟨⟨c, ?_, hstart⟩, of_mem_takeWhile⟩
      have hpart : isIdentifierPart c = true := by
        rw [isIdentifierStart, Bool.or_eq_true] at hstart
        rw [isIdentifierPart, Bool.or_right_comm, Bool.or_eq_true, Bool.or_eq_true]
        exact Or.inl hstart
      rw [h, List.takeWhile_cons_of_pos hpart]
      rfl
    have hlexeme := @Lexeme.word keywordType _ _ hword
      (stops_dropWhile isIdentifierPart lexer.input)
    rw [takeWhile_append] at hlexeme
    exact ⟨_, _, _, hlexeme⟩
  · exact scanned_number lexer
  · subst hquote
    exact scanned_string h
  · exact scanned_symbol h

/-- What reading a token comes to: a lexeme, a `ParseError`, or the end of the input. -/
theorem readToken_eq (lexer : Lexer) :
    (lexer.input = [] ∧ lexer.readToken = .ok (⟨.endOfFile, lexer.position, []⟩, lexer)) ∨
      (∃ type text rest position, Lexeme keywordType lexer.input type text rest ∧
        lexer.readToken = .ok (⟨type, lexer.position, text⟩, ⟨rest, position⟩)) ∨
      ∃ message detail position,
        lexer.readToken = .error (.parseError message detail position) := by
  cases hinput : lexer.input with
  | nil => exact Or.inl ⟨rfl, by rw [Lexer.readToken, hinput]⟩
  | cons c rest =>
    have hscanned := scanned_token hinput
    rw [Scanned, hinput] at hscanned
    rcases hscanned with ⟨type, text, rest', hlexeme⟩ | herror
    · right
      left
      rw [← hinput] at hlexeme
      obtain ⟨position, hread⟩ := readToken_lexeme hlexeme
      exact ⟨type, text, rest', position, hinput ▸ hlexeme, hread⟩
    · exact Or.inr (Or.inr herror)

/-- A lexeme uses up input. -/
theorem Lexeme.length_lt {classify : Bytes → TokenType} {input text rest : Bytes}
    {type : TokenType} (h : Lexeme classify input type text rest) : rest.length < input.length := by
  cases h with
  | word hword =>
    obtain ⟨⟨c, hc, -⟩, -⟩ := hword
    obtain ⟨tail, rfl⟩ := List.head?_eq_some_iff.mp hc
    simp
  | integer hsign hdigits =>
    have hpos := List.length_pos_iff.mpr hdigits.1
    simp only [List.length_append]
    omega
  | double hsign hwhole =>
    simp only [List.length_append, List.length_cons]
    omega
  | string =>
    simp only [quoted, List.length_append, List.length_cons]
    omega
  | symbol htype =>
    have hnonempty : ∀ entry ∈ symbols, entry.1 ≠ [] := by decide
    have hpos : 0 < text.length := List.length_pos_iff.mpr (hnonempty _ htype)
    rw [List.length_append]
    omega

/-- The types of the tokens that are not words. -/
def wordlessTypes : List TokenType :=
  [.stringLiteral, .intLiteral, .doubleLiteral] ++ symbols.map (·.2)

/-- Only the type of a word depends on how words are classified. -/
theorem Lexeme.reclassify {classify : Bytes → TokenType} {input text rest : Bytes}
    {type : TokenType} (h : Lexeme classify input type text rest)
    (classify' : Bytes → TokenType) :
    ∃ type', Lexeme classify' input type' text rest ∧
      (type' = type ∧ type ∈ wordlessTypes ∨ type = classify text ∧ type' = classify' text) := by
  cases h with
  | word hword hrest => exact ⟨_, .word hword hrest, Or.inr ⟨rfl, rfl⟩⟩
  | integer hsign hdigits hrest =>
    exact ⟨_, .integer hsign hdigits hrest, Or.inl ⟨rfl, by decide⟩⟩
  | double hsign hwhole hfraction hrest =>
    exact ⟨_, .double hsign hwhole hfraction hrest, Or.inl ⟨rfl, by decide⟩⟩
  | string hrest => exact ⟨_, .string hrest, Or.inl ⟨rfl, by decide⟩⟩
  | symbol htype hrest =>
    exact ⟨_, .symbol htype hrest,
      Or.inl ⟨rfl, List.mem_append_right _ (List.mem_map_of_mem htype)⟩⟩

/-- An input has one lexeme. -/
theorem Lexeme.unique {input text text' rest rest' : Bytes} {type type' : TokenType}
    (h : Lexeme keywordType input type text rest)
    (h' : Lexeme keywordType input type' text' rest') :
    type = type' ∧ text = text' ∧ rest = rest' := by
  obtain ⟨position, hread⟩ := @readToken_lexeme ⟨input, {}⟩ _ _ _ h
  obtain ⟨position', hread'⟩ := @readToken_lexeme ⟨input, {}⟩ _ _ _ h'
  rw [hread] at hread'
  cases hread'
  exact ⟨rfl, rfl, rfl⟩

/-- An integer token is a sign and digits. -/
theorem Lexeme.integer_text {classify : Bytes → TokenType} {input text rest : Bytes}
    (hclassify : ∀ word, classify word ≠ .intLiteral)
    (h : Lexeme classify input .intLiteral text rest) :
    ∃ sign digits, IsSign sign ∧ IsDigits digits ∧ text = sign ++ digits := by
  generalize htype : TokenType.intLiteral = type at h
  cases h with
  | word => exact absurd htype.symm (hclassify text)
  | integer hsign hdigits => exact ⟨_, _, hsign, hdigits, rfl⟩
  | double => cases htype
  | string => cases htype
  | symbol hmem =>
    have htable : ∀ entry ∈ symbols, entry.2 ≠ .intLiteral := by decide
    exact absurd htype.symm (htable _ hmem)

/-- No word has a type that stands for no token or for a token of another shape. -/
theorem keywordType_ne (word : Bytes) :
    keywordType word ≠ .endOfFile ∧ keywordType word ≠ .invalid ∧
      keywordType word ∉ wordlessTypes := by
  have htable : ∀ entry ∈ keywords,
      entry.2 ≠ .endOfFile ∧ entry.2 ≠ .invalid ∧ entry.2 ∉ wordlessTypes := by decide
  rw [keywordType]
  cases hlookup : keywords.lookup (word.map toUpper) with
  | none => exact ⟨by decide, by decide, by decide⟩
  | some type =>
    obtain ⟨before, after, hkeywords, -⟩ := List.lookup_eq_some_iff.mp hlookup
    have hmem : (word.map toUpper, type) ∈ keywords := by rw [hkeywords]; simp
    exact htable _ hmem

theorem Lexeme.type_ne {input text rest : Bytes} {type : TokenType}
    (h : Lexeme keywordType input type text rest) : type ≠ .endOfFile ∧ type ≠ .invalid := by
  cases h with
  | word => exact ⟨(keywordType_ne text).1, (keywordType_ne text).2.1⟩
  | integer => exact ⟨by decide, by decide⟩
  | double => exact ⟨by decide, by decide⟩
  | string => exact ⟨by decide, by decide⟩
  | symbol htype =>
    have htable : ∀ entry ∈ symbols, entry.2 ≠ .endOfFile ∧ entry.2 ≠ .invalid := by decide
    exact htable _ htype

end Htap.Parser
