import Htap.Parser.Recognition
import Htap.Parser.Sentences

/-!
The texts that spell terminals: lexemes with whitespace before them. A parser runs
over terminals where the input spells them.
-/

set_option linter.dupNamespace false

namespace Htap.Parser

open Storage

/-- Whitespace only. -/
def IsBlank (text : Bytes) : Prop := ∀ c ∈ text, isSpace c = true

instance (text : Bytes) : Decidable (IsBlank text) :=
  decidable_of_iff (text.all isSpace) List.all_eq_true

/-- `Spells classify input ts rest`: the input spells `ts` in front of `rest`. -/
inductive Spells (classify : Bytes → TokenType) : Bytes → List Terminal → Bytes → Prop
  | nil (input : Bytes) : Spells classify input [] input
  | cons {blank input text rest rest' : Bytes} {type : TokenType} {t : Terminal}
      {ts : List Terminal} (hblank : IsBlank blank)
      (hlexeme : Lexeme classify input type text rest) (hmatches : t.Matches type text)
      (hrest : Spells classify rest ts rest') : Spells classify (blank ++ input) (t :: ts) rest'

/-! ## Tokens -/

/-- No lexeme starts with whitespace. -/
theorem Lexeme.stops_isSpace {classify : Bytes → TokenType} {input text rest : Bytes}
    {type : TokenType} (h : Lexeme classify input type text rest) : Stops isSpace input := by
  have hdigit : ∀ c, isDigit c = true → isSpace c = false := by
    intro c hc
    rw [isDigit, decide_eq_true_iff] at hc
    simp only [isSpace, Bool.or_eq_false_iff, beq_eq_false_iff_ne]
    refine ⟨⟨⟨?_, ?_⟩, ?_⟩, ?_⟩
    all_goals
      rintro rfl
      exact absurd hc (by decide)
  have hnumber : ∀ {sign digits rest : Bytes}, IsSign sign → IsDigits digits →
      Stops isSpace (sign ++ digits ++ rest) := by
    rintro sign digits rest hsign ⟨hne, hdigits⟩ c hc
    obtain ⟨d, digits, rfl⟩ := List.exists_cons_of_ne_nil hne
    rcases hsign with rfl | rfl
    · obtain rfl : d = c := Option.some.inj hc
      exact hdigit d (hdigits d List.mem_cons_self)
    · obtain rfl : 45 = c := Option.some.inj hc
      decide
  cases h with
  | word hword =>
    obtain ⟨⟨c, hc, hstart⟩, -⟩ := hword
    obtain ⟨tail, rfl⟩ := List.head?_eq_some_iff.mp hc
    intro d hd
    obtain rfl : c = d := Option.some.inj hd
    simp only [isSpace, Bool.or_eq_false_iff, beq_eq_false_iff_ne]
    refine ⟨⟨⟨?_, ?_⟩, ?_⟩, ?_⟩
    all_goals
      rintro rfl
      exact absurd hstart (by decide)
  | integer hsign hdigits => exact hnumber hsign hdigits
  | double hsign hwhole =>
    rw [List.append_assoc (_ ++ _)]
    exact hnumber hsign hwhole
  | string =>
    intro c hc
    obtain rfl : 39 = c := Option.some.inj hc
    decide
  | symbol htype =>
    have htable : ∀ entry ∈ symbols, ∃ c ∈ entry.1.head?, isSpace c = false := by decide
    obtain ⟨d, hd, hspace⟩ := htable _ htype
    obtain ⟨tail, rfl⟩ := List.head?_eq_some_iff.mp hd
    intro c hc
    obtain rfl : d = c := Option.some.inj hc
    exact hspace

private theorem skipWhitespace_eq {blank input : Bytes} {position : SourcePosition}
    (hblank : IsBlank blank) (hinput : Stops isSpace input) :
    ∃ position', Lexer.skipWhitespace ⟨blank ++ input, position⟩ = ⟨input, position'⟩ := by
  refine ⟨(blank.foldl SourcePosition.after position), ?_⟩
  rw [Lexer.skipWhitespace, Lexer.advanceWhile, dropWhile_stops hblank hinput,
    takeWhile_stops hblank hinput]

/-- In front of a lexeme, a parser starts with its token. -/
theorem create_lexeme {blank input text rest : Bytes} {type : TokenType} (hblank : IsBlank blank)
    (h : Lexeme keywordType input type text rest) (position : SourcePosition) :
    ∃ start next, Parser.create ⟨blank ++ input, position⟩ =
      .ok ⟨⟨rest, next⟩, ⟨type, start, text⟩⟩ := by
  obtain ⟨start, hskip⟩ := @skipWhitespace_eq _ _ position hblank h.stops_isSpace
  obtain ⟨next, hread⟩ := @readToken_lexeme ⟨input, start⟩ _ _ _ h
  refine ⟨start, next, ?_⟩
  rw [Parser.create, Lexer.nextToken, hskip, hread]
  rfl

/-- In front of whitespace only, a parser starts at the end. -/
theorem create_blank {input : Bytes} (hblank : IsBlank input) (position : SourcePosition) :
    ∃ p, Parser.create ⟨input, position⟩ = .ok p ∧ p.current.type = .endOfFile := by
  obtain ⟨start, hskip⟩ := @skipWhitespace_eq input [] position hblank
    (fun _ h => nomatch h)
  rw [List.append_nil] at hskip
  refine ⟨⟨⟨[], start⟩, ⟨.endOfFile, start, []⟩⟩, ?_, rfl⟩
  rw [Parser.create, Lexer.nextToken, hskip]
  rfl

/-- A parser starts at the end, or with the token of a lexeme. -/
theorem create_inversion {input : Bytes} {position : SourcePosition} {p : Parser}
    (h : Parser.create ⟨input, position⟩ = .ok p) :
    (IsBlank input ∧ p.current.type = .endOfFile) ∨
      ∃ blank rest, input = blank ++ rest ∧ IsBlank blank ∧
        Lexeme keywordType rest p.current.type p.current.text p.lexer.input := by
  have hinput : input = input.takeWhile isSpace ++ input.dropWhile isSpace :=
    List.takeWhile_append_dropWhile.symm
  have hblank : IsBlank (input.takeWhile isSpace) := fun c hc => List.mem_takeWhile_imp hc
  rw [Parser.create, Lexer.nextToken] at h
  rcases readToken_eq (Lexer.skipWhitespace ⟨input, position⟩) with ⟨hnil, hread⟩ |
    ⟨type, text, rest, next, hlexeme, hread⟩ | ⟨message, detail, found, hread⟩
  · rw [hread] at h
    cases h
    left
    have hdrop : input.dropWhile isSpace = [] := hnil
    rw [hdrop, List.append_nil] at hinput
    exact ⟨hinput ▸ hblank, rfl⟩
  · rw [hread] at h
    cases h
    exact Or.inr ⟨_, _, hinput, hblank, hlexeme⟩
  · rw [hread] at h
    cases h

/-! ## Runs -/

/-- Where the input spells terminals that convert, and a token can be read behind
them, a parser runs over them. -/
theorem follows_of_spells {input rest : Bytes} {ts : List Terminal}
    (h : Spells keywordType input ts rest) (hfits : ∀ t ∈ ts, ¬t.Fails)
    (hbehind : ∀ position, ∃ q, Parser.create ⟨rest, position⟩ = .ok q)
    (position : SourcePosition) :
    ∃ p q, Parser.create ⟨input, position⟩ = .ok p ∧ Follows p ts (some q) := by
  induction h generalizing position with
  | nil input =>
    obtain ⟨q, hq⟩ := hbehind position
    exact ⟨q, q, hq, .done q⟩
  | cons hblank hlexeme hmatches _ ih =>
    obtain ⟨start, next, hcreate⟩ := create_lexeme hblank hlexeme position
    obtain ⟨p, q, hp, hrun⟩ := ih (fun t ht => hfits t (List.mem_cons_of_mem _ ht)) hbehind next
    exact ⟨_, q, hcreate, .step hmatches (hfits _ List.mem_cons_self) hlexeme.type_ne.1 hp hrun⟩

/-- What a parser runs over is spelled by its input, and converts. -/
theorem spells_of_follows {input : Bytes} {position : SourcePosition} {p q : Parser}
    {ts : List Terminal} (hp : Parser.create ⟨input, position⟩ = .ok p)
    (h : Follows p ts (some q)) :
    (∀ t ∈ ts, ¬t.Fails) ∧ ∃ rest next, Spells keywordType input ts rest ∧
      Parser.create ⟨rest, next⟩ = .ok q := by
  generalize hend : some q = r at h
  induction h generalizing input position with
  | done p =>
    cases hend
    exact ⟨fun t ht => (List.not_mem_nil ht).elim, input, position, .nil input, hp⟩
  | throws => cases hend
  | @step p p' t ts r hmatches hfails hne hadvance _ ih =>
    rcases create_inversion hp with ⟨-, htype⟩ | ⟨blank, middle, rfl, hblank, hlexeme⟩
    · exact absurd htype hne
    · obtain ⟨hrest, rest, next, hspells, hq⟩ := ih hadvance hend
      refine ⟨?_, rest, next, .cons hblank hlexeme hmatches hspells, hq⟩
      intro t' ht'
      rcases List.mem_cons.mp ht' with rfl | ht'
      · exact hfails
      · exact hrest t' ht'

/-- Parsing succeeds where the input spells a statement whose literals convert, and
a token can be read behind it. -/
theorem parse_of_spells {input rest : Bytes} {ts : List Terminal} {s : Statement}
    (hs : Sentence ts s) (h : Spells keywordType input ts rest) (hfits : ∀ t ∈ ts, ¬t.Fails)
    (hbehind : ∀ position, ∃ q, Parser.create ⟨rest, position⟩ = .ok q) : parse input = .ok s := by
  obtain ⟨p, q, hp, hrun⟩ := follows_of_spells h hfits hbehind {}
  exact parse_eq_ok.mpr ⟨ts, q, hs, p, hp, hrun⟩

theorem spells_of_parse {input : Bytes} {s : Statement} (h : parse input = .ok s) :
    ∃ ts rest q next, Sentence ts s ∧ Spells keywordType input ts rest ∧ (∀ t ∈ ts, ¬t.Fails) ∧
      Parser.create ⟨rest, next⟩ = .ok q := by
  obtain ⟨ts, q, hs, p, hp, hrun⟩ := parse_eq_ok.mp h
  obtain ⟨hfits, rest, next, hspells, hq⟩ := spells_of_follows hp hrun
  exact ⟨ts, rest, q, next, hs, hspells, hfits, hq⟩

/-- Words may be classified in another way where the terminals they stand for agree. -/
theorem Spells.reclassify {classify classify' : Bytes → TokenType} {input rest : Bytes}
    {ts : List Terminal} (h : Spells classify input ts rest)
    (hsame : ∀ t ∈ ts, ∀ text, t.Matches (classify text) text → classify' text = classify text) :
    Spells classify' input ts rest := by
  induction h with
  | nil input => exact .nil input
  | cons hblank hlexeme hmatches _ ih =>
    have hrest := ih fun t ht => hsame t (List.mem_cons_of_mem _ ht)
    obtain ⟨type', hlexeme', ⟨rfl, -⟩ | ⟨rfl, rfl⟩⟩ := hlexeme.reclassify classify'
    · exact .cons hblank hlexeme' hmatches hrest
    · rw [hsame _ List.mem_cons_self _ hmatches] at hlexeme'
      exact .cons hblank hlexeme' hmatches hrest

/-- Every terminal stands for a lexeme. -/
theorem Spells.lexeme {classify : Bytes → TokenType} {input rest : Bytes} {ts : List Terminal}
    (h : Spells classify input ts rest) {t : Terminal} (ht : t ∈ ts) :
    ∃ input type text rest, Lexeme classify input type text rest ∧ t.Matches type text := by
  induction h with
  | nil => cases ht
  | cons _ hlexeme hmatches _ ih =>
    rcases List.mem_cons.mp ht with rfl | ht
    · exact ⟨_, _, _, _, hlexeme, hmatches⟩
    · exact ih ht

/-! ## Two spellings of one input -/

/-- A list whose only semicolon is its last terminal. -/
def Closed (ts : List Terminal) : Prop :=
  ∃ us t, ts = us ++ [t] ∧ t.type = .semicolon ∧ ∀ u ∈ us, u.type ≠ .semicolon

theorem Sentence.closed {ts : List Terminal} {s : Statement} (h : Sentence ts s) : Closed ts := by
  obtain ⟨us, vs, rfl, hus, hending⟩ := h.shape
  generalize s.limit = limit at hending
  cases hending with
  | plain => exact ⟨us, .word .semicolon, rfl, rfl, fun u hu => (plain_type_ne (hus u hu)).2⟩
  | @limit text =>
    refine ⟨us ++ [.word .limit, .count text], .word .semicolon, by simp, rfl, ?_⟩
    intro u hu
    rcases List.mem_append.mp hu with hu | hu
    · exact (plain_type_ne (hus u hu)).2
    · rcases List.mem_cons.mp hu with rfl | hu
      · exact fun h => nomatch h
      · rw [List.mem_singleton.mp hu]
        exact fun h => nomatch h

private theorem closed_cons {t : Terminal} {ts : List Terminal} (h : Closed (t :: ts)) :
    (t.type = .semicolon ∧ ts = []) ∨ (t.type ≠ .semicolon ∧ Closed ts) := by
  obtain ⟨us, last, heq, hlast, hus⟩ := h
  cases us with
  | nil =>
    rw [List.nil_append, List.cons.injEq] at heq
    obtain ⟨rfl, rfl⟩ := heq
    exact Or.inl ⟨hlast, rfl⟩
  | cons u us =>
    rw [List.cons_append, List.cons.injEq] at heq
    obtain ⟨rfl, rfl⟩ := heq
    exact Or.inr ⟨hus t List.mem_cons_self, us, last, rfl, hlast,
      fun u hu => hus u (List.mem_cons_of_mem _ hu)⟩

/-- Two terminals that stand for one token, which is a word or not. -/
def Stand (classify : Bytes → TokenType) (t t' : Terminal) : Prop :=
  ∃ type type' text, t.Matches type text ∧ t'.Matches type' text ∧
    (type' = type ∧ type ∈ wordlessTypes ∨ type = classify text ∧ type' = keywordType text)

private theorem blank_unique {blank blank' input input' : Bytes} (hblank : IsBlank blank)
    (hblank' : IsBlank blank') (hinput : Stops isSpace input) (hinput' : Stops isSpace input')
    (h : blank ++ input = blank' ++ input') : input = input' := by
  rw [← dropWhile_stops hblank hinput, h, dropWhile_stops hblank' hinput']

/-- One input spells one closed list, up to how words are classified. -/
theorem Spells.unique {classify : Bytes → TokenType} (hclassify : ∀ text,
    classify text ≠ .semicolon) {input rest rest' : Bytes} {ts ts' : List Terminal}
    (h : Spells classify input ts rest) (hts : Closed ts)
    (h' : Spells keywordType input ts' rest') (hts' : Closed ts') :
    List.Forall₂ (Stand classify) ts ts' ∧ rest = rest' := by
  induction h generalizing ts' with
  | nil input =>
    obtain ⟨us, t, hnil, -⟩ := hts
    exact absurd hnil.symm (List.append_ne_nil_of_right_ne_nil us (List.cons_ne_nil _ _))
  | @cons blank input text middle rest type t ts hblank hlexeme hmatches hrest ih =>
    generalize heq : blank ++ input = whole at h'
    cases h' with
    | nil =>
      obtain ⟨us, t, hnil, -⟩ := hts'
      exact absurd hnil.symm (List.append_ne_nil_of_right_ne_nil us (List.cons_ne_nil _ _))
    | @cons blank' input' text' middle' rest' type' t' ts' hblank' hlexeme' hmatches' hrest' =>
      obtain rfl : input = input' := blank_unique hblank hblank' hlexeme.stops_isSpace
        hlexeme'.stops_isSpace heq
      obtain ⟨type₀, hlexeme₀, hclass⟩ := hlexeme.reclassify keywordType
      obtain ⟨rfl, rfl, rfl⟩ := hlexeme₀.unique hlexeme'
      have hstand : Stand classify t t' := ⟨_, _, _, hmatches, hmatches', hclass⟩
      -- the two terminals are semicolons together
      have hsemicolon : t.type = .semicolon ↔ t'.type = .semicolon := by
        rw [← hmatches.type_eq, ← hmatches'.type_eq]
        rcases hclass with ⟨rfl, -⟩ | ⟨rfl, rfl⟩
        · exact Iff.rfl
        · have hword := (keywordType_ne text).2.2
          exact ⟨fun h => absurd h (hclassify _), fun h => absurd (h ▸ by decide) hword⟩
      rcases closed_cons hts with ⟨ht, rfl⟩ | ⟨ht, hts⟩
      · rcases closed_cons hts' with ⟨-, rfl⟩ | ⟨ht', -⟩
        · cases hrest
          cases hrest'
          exact ⟨.cons hstand .nil, rfl⟩
        · exact absurd (hsemicolon.mp ht) ht'
      · rcases closed_cons hts' with ⟨ht', -⟩ | ⟨-, hts'⟩
        · exact absurd (hsemicolon.mpr ht') ht
        · obtain ⟨hstands, hrests⟩ := ih hts hrest' hts'
          exact ⟨.cons hstand hstands, hrests⟩

end Htap.Parser
