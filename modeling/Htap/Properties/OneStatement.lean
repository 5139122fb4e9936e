import Htap.Parser.Numbers
import Htap.Parser.Spelling

/-!
Whether the parser accepts exactly the documented statements. It does not where a
statement uses the undocumented keyword `PRIMARY` as a name or a double that is
out of range, where something follows the semicolon, and where LIMIT is negative
or beyond `int64_t`.
-/

namespace Htap.Properties

open Storage Htap.Parser

/-! ## The documented language -/

/-- The keywords of the query language, in the order of its documentation. -/
def documentedKeywords : List (Bytes × TokenType) :=
  [(ascii "CREATE", .create), (ascii "TABLE", .table), (ascii "INSERT", .insert),
    (ascii "INTO", .into), (ascii "VALUES", .values), (ascii "SELECT", .select),
    (ascii "FROM", .from), (ascii "WHERE", .where), (ascii "KEY", .key), (ascii "NULL", .null),
    (ascii "NOT", .not), (ascii "AND", .and), (ascii "OR", .or), (ascii "IS", .is),
    (ascii "GROUP", .group), (ascii "BY", .by), (ascii "ORDER", .order), (ascii "LIMIT", .limit),
    (ascii "ASC", .asc), (ascii "DESC", .desc), (ascii "COUNT", .count), (ascii "SUM", .sum),
    (ascii "AVG", .avg), (ascii "MIN", .min), (ascii "MAX", .max), (ascii "STRING", .stringType),
    (ascii "INT64", .int64Type), (ascii "DOUBLE", .doubleType)]

/-- A word is a documented keyword in any case, or an identifier. -/
def documentedType (text : Bytes) : TokenType :=
  (documentedKeywords.lookup (text.map toUpper)).getD .identifier

/-- A value of `int64_t`. -/
def InInt64 (n : Int) : Prop := -2 ^ 63 ≤ n ∧ n < 2 ^ 63

instance (n : Int) : Decidable (InInt64 n) := inferInstanceAs (Decidable (_ ∧ _))

/-- Integer literals are within `int64_t`, and LIMIT is not negative. -/
def InRange (ts : List Terminal) : Prop :=
  (∀ text, .literal .intLiteral text ∈ ts → InInt64 (integerValue text)) ∧
    ∀ text, .count text ∈ ts → InInt64 (integerValue text) ∧ 0 ≤ integerValue text

/-- The input is a documented statement that is spelled as `ts`, and whitespace. -/
def DocumentedAs (input : Bytes) (ts : List Terminal) : Prop :=
  InRange ts ∧ (∃ s, Sentence ts s) ∧ ∃ rest, Spells documentedType input ts rest ∧ IsBlank rest

def Documented (input : Bytes) : Prop := ∃ ts, DocumentedAs input ts

/-! ## Where the parser differs -/

/-- The word that the lexer alone takes for a keyword. -/
def IsReserved (text : Bytes) : Prop := text.map toUpper = ascii "PRIMARY"

/-- A documented statement with a name that the lexer takes for a keyword, or a
double literal whose conversion throws. -/
def Underread (input : Bytes) : Prop :=
  ∃ ts, DocumentedAs input ts ∧
    ((∃ type text, .name type text ∈ ts ∧ IsReserved text) ∨
      ∃ text, .literal .doubleLiteral text ∈ ts ∧ (Terminal.literal .doubleLiteral text).Fails)

/-- The text starts with a token of the lexer. -/
def StartsToken (text : Bytes) : Prop :=
  ∃ blank rest type word next, text = blank ++ rest ∧ IsBlank blank ∧
    Lexeme keywordType rest type word next

/-- A statement whose literals convert, with a token behind it or with a LIMIT that is
negative or beyond `int64_t`. -/
def Overread (input : Bytes) : Prop :=
  ∃ ts s rest, Spells keywordType input ts rest ∧ Sentence ts s ∧ (∀ t ∈ ts, ¬t.Fails) ∧
    (StartsToken rest ∨ IsBlank rest ∧
      ∃ text, .count text ∈ ts ∧ ¬(InInt64 (integerValue text) ∧ 0 ≤ integerValue text))

/-! ## The two lists of keywords -/

private theorem keywords_documented : ∀ entry ∈ keywords,
    entry.1 = ascii "PRIMARY" ∨ documentedKeywords.lookup entry.1 = some entry.2 := by
  decide +kernel

private theorem documented_keywords : ∀ entry ∈ documentedKeywords,
    keywords.lookup entry.1 = some entry.2 := by
  decide +kernel

private theorem mem_of_lookup {entries : List (Bytes × TokenType)} {key : Bytes}
    {type : TokenType} (h : entries.lookup key = some type) : (key, type) ∈ entries := by
  obtain ⟨before, after, rfl, -⟩ := List.lookup_eq_some_iff.mp h
  exact List.mem_append_right _ List.mem_cons_self

/-- Both lists classify every word but one alike. -/
theorem documentedType_eq {text : Bytes} (h : ¬IsReserved text) :
    documentedType text = keywordType text := by
  unfold documentedType keywordType
  cases hkeyword : keywords.lookup (text.map toUpper) with
  | some type =>
    rcases keywords_documented _ (mem_of_lookup hkeyword) with hprimary | hlookup
    · exact absurd hprimary h
    · rw [hlookup]
  | none =>
    cases hdocumented : documentedKeywords.lookup (text.map toUpper) with
    | none => rfl
    | some type =>
      have hlookup := documented_keywords _ (mem_of_lookup hdocumented)
      rw [hkeyword] at hlookup
      cases hlookup

theorem keywordType_reserved {text : Bytes} (h : IsReserved text) :
    keywordType text = .primary ∧ documentedType text = .identifier := by
  rw [IsReserved] at h
  rw [keywordType, documentedType, h]
  exact ⟨rfl, rfl⟩

private theorem documentedType_not_wordless (text : Bytes) :
    documentedType text ∉ wordlessTypes := by
  by_cases h : IsReserved text
  · rw [(keywordType_reserved h).2]
    decide
  · rw [documentedType_eq h]
    exact (keywordType_ne text).2.2

private theorem keywordType_not_wordless (text : Bytes) : keywordType text ∉ wordlessTypes :=
  (keywordType_ne text).2.2

/-! ## Literals -/

/-- The digits of an integer token, and the conversions of it. -/
private theorem integer_token {classify : Bytes → TokenType}
    (hclassify : ∀ text, classify text ∉ wordlessTypes) {input text rest : Bytes}
    {ts : List Terminal}
    {t : Terminal} (h : Spells classify input ts rest) (ht : t ∈ ts)
    (hmatches : ∀ type text', t.Matches type text' → type = .intLiteral ∧ text' = text) :
    ∃ sign digits, IsSign sign ∧ IsDigits digits ∧ text = sign ++ digits := by
  obtain ⟨input', type, text', rest', hlexeme, htoken⟩ := h.lexeme ht
  obtain ⟨rfl, rfl⟩ := hmatches type text' htoken
  apply hlexeme.integer_text
  intro word hword
  exact hclassify word (by rw [hword]; decide)

private theorem integer_converts {sign digits : Bytes} (hsign : IsSign sign)
    (hdigits : IsDigits digits) :
    InInt64 (integerValue (sign ++ digits)) ↔
      ¬(Terminal.literal .intLiteral (sign ++ digits)).Fails := by
  have hliteral : Parser.literal .intLiteral (sign ++ digits) =
      some ((stoll (sign ++ digits)).map Expression.intLiteral) := rfl
  rw [stoll_integer hsign hdigits] at hliteral
  unfold InInt64
  constructor
  · rintro hrange ⟨e, he⟩
    rw [hliteral, if_pos hrange] at he
    cases he
  · intro hfits
    by_contra hrange
    rw [if_neg hrange] at hliteral
    exact hfits ⟨_, hliteral⟩

private theorem count_converts {sign digits : Bytes} (hsign : IsSign sign)
    (hdigits : IsDigits digits) (hrange : InInt64 (integerValue (sign ++ digits)))
    (hnonneg : 0 ≤ integerValue (sign ++ digits)) : ¬(Terminal.count (sign ++ digits)).Fails := by
  rintro ⟨e, he⟩
  rw [InInt64, integerValue_integer hsign hdigits] at hrange
  rw [integerValue_integer hsign hdigits] at hnonneg
  rw [stoull_integer hsign hdigits, if_pos (by split_ifs at hrange hnonneg; all_goals omega)] at he
  cases he

/-- The literals of a documented statement convert if its doubles do. -/
private theorem documented_fits {input rest : Bytes} {ts : List Terminal}
    (h : Spells documentedType input ts rest) (hrange : InRange ts)
    (hdoubles : ∀ text, .literal .doubleLiteral text ∈ ts →
      ¬(Terminal.literal .doubleLiteral text).Fails) : ∀ t ∈ ts, ¬t.Fails := by
  intro t ht
  cases t with
  | word => exact id
  | name => exact id
  | literal type text =>
    by_cases hint : type = .intLiteral
    · subst hint
      obtain ⟨sign, digits, hsign, hdigits, rfl⟩ :=
        integer_token documentedType_not_wordless h ht fun _ _ hm => hm
      exact (integer_converts hsign hdigits).mp (hrange.1 _ ht)
    · by_cases hdouble : type = .doubleLiteral
      · subst hdouble
        exact hdoubles text ht
      · rintro ⟨e, he⟩
        unfold Parser.literal at he
        split at he
        · cases he
        · exact hint rfl
        · exact hdouble rfl
        · cases he
        · cases he
  | count text =>
    obtain ⟨sign, digits, hsign, hdigits, rfl⟩ :=
      integer_token documentedType_not_wordless h ht fun _ _ hm => hm
    obtain ⟨hint, hnonneg⟩ := hrange.2 _ ht
    exact count_converts hsign hdigits hint hnonneg

/-- A statement whose literals convert is documented in the code's spelling, if LIMIT
is in range. -/
private theorem inRange_of_fits {input rest : Bytes} {ts : List Terminal}
    (h : Spells keywordType input ts rest) (hfits : ∀ t ∈ ts, ¬t.Fails)
    (hcount : ∀ text, .count text ∈ ts → InInt64 (integerValue text) ∧ 0 ≤ integerValue text) :
    InRange ts := by
  refine ⟨fun text ht => ?_, hcount⟩
  obtain ⟨sign, digits, hsign, hdigits, rfl⟩ :=
    integer_token keywordType_not_wordless h ht fun _ _ hm => hm
  exact (integer_converts hsign hdigits).mpr (hfits _ ht)

/-! ## Both directions -/

/-- Without the reserved word, the code reads the documented spelling. -/
private theorem spells_of_documented {input rest : Bytes} {ts : List Terminal} {s : Statement}
    (hs : Sentence ts s) (h : Spells documentedType input ts rest)
    (hnames : ∀ type text, .name type text ∈ ts → ¬IsReserved text) :
    Spells keywordType input ts rest := by
  apply h.reclassify
  intro t ht text hmatches
  by_cases hreserved : IsReserved text
  · rw [(keywordType_reserved hreserved).2] at hmatches
    obtain ⟨text', rfl⟩ := (hs.terminal_eq ht).2.1 hmatches.type_eq.symm
    obtain ⟨-, rfl⟩ := hmatches
    exact absurd hreserved (hnames _ _ ht)
  · exact (documentedType_eq hreserved).symm

private theorem documented_of_spells {input rest : Bytes} {ts : List Terminal} {s : Statement}
    (hs : Sentence ts s) (h : Spells keywordType input ts rest) :
    Spells documentedType input ts rest := by
  apply h.reclassify
  intro t ht text hmatches
  by_cases hreserved : IsReserved text
  · rw [(keywordType_reserved hreserved).1] at hmatches
    exact absurd hmatches.type_eq.symm (hs.terminal_eq ht).1
  · exact documentedType_eq hreserved

private theorem create_of_startsToken {text : Bytes} (h : StartsToken text)
    (position : SourcePosition) : ∃ q, Parser.create ⟨text, position⟩ = .ok q := by
  obtain ⟨blank, rest, type, word, next, rfl, hblank, hlexeme⟩ := h
  obtain ⟨start, behind, hcreate⟩ := create_lexeme hblank hlexeme position
  exact ⟨_, hcreate⟩

theorem create_of_blank {text : Bytes} (h : IsBlank text) (position : SourcePosition) :
    ∃ q, Parser.create ⟨text, position⟩ = .ok q := by
  obtain ⟨q, hq, -⟩ := create_blank h position
  exact ⟨q, hq⟩

/-- A documented statement without the reserved word and doubles out of range is accepted. -/
private theorem accepted_of_documented {input : Bytes} (h : Documented input)
    (hunder : ¬Underread input) : ∃ s, parse input = .ok s := by
  obtain ⟨ts, hdocumented⟩ := h
  have ⟨hrange, ⟨s, hs⟩, rest, hspells, hblank⟩ := hdocumented
  have hnames : ∀ type text, .name type text ∈ ts →
      ¬IsReserved text := fun type text ht hreserved =>
    hunder ⟨ts, hdocumented, Or.inl ⟨type, text, ht, hreserved⟩⟩
  have hdoubles : ∀ text, .literal .doubleLiteral text ∈ ts →
      ¬(Terminal.literal .doubleLiteral text).Fails := fun text ht hfails =>
    hunder ⟨ts, hdocumented, Or.inr ⟨text, ht, hfails⟩⟩
  exact ⟨s, parse_of_spells hs (spells_of_documented hs hspells hnames)
    (documented_fits hspells hrange hdoubles) (create_of_blank hblank)⟩

/-- What is accepted is documented where nothing follows it and LIMIT is in range. -/
private theorem documented_of_accepted {input : Bytes} {s : Statement} (h : parse input = .ok s)
    (hover : ¬Overread input) : Documented input := by
  obtain ⟨ts, rest, q, next, hs, hspells, hfits, hq⟩ := spells_of_parse h
  have hblank : IsBlank rest := by
    rcases create_inversion hq with ⟨hblank, -⟩ | ⟨blank, tail, heq, hblank, hlexeme⟩
    · exact hblank
    · exact absurd ⟨ts, s, rest, hspells, hs, hfits,
        Or.inl ⟨blank, tail, _, _, _, heq, hblank, hlexeme⟩⟩ hover
  refine ⟨ts, inRange_of_fits hspells hfits fun text ht => ?_, ⟨s, hs⟩, rest,
    documented_of_spells hs hspells, hblank⟩
  by_contra hcount
  exact hover ⟨ts, s, rest, hspells, hs, hfits, Or.inr ⟨hblank, text, ht, hcount⟩⟩

/-- The token of a documented name or double is read by the parser as one too. -/
private theorem stand_of_mem {ts ts' : List Terminal}
    (h : List.Forall₂ (Stand documentedType) ts ts') {t : Terminal} (ht : t ∈ ts) :
    ∃ t' ∈ ts', Stand documentedType t t' := by
  induction h with
  | nil => cases ht
  | cons hhead _ ih =>
    rcases List.mem_cons.mp ht with rfl | ht
    · exact ⟨_, List.mem_cons_self, hhead⟩
    · obtain ⟨t', ht', hstand⟩ := ih ht
      exact ⟨t', List.mem_cons_of_mem _ ht', hstand⟩

private theorem rejected_of_underread {input : Bytes} (h : Underread input) (s : Statement) :
    parse input ≠ .ok s := by
  intro hparse
  obtain ⟨ts, ⟨-, ⟨s', hs'⟩, rest, hspells, -⟩, hdefect⟩ := h
  obtain ⟨ts', rest', q, next, hs, hspells', hfits, -⟩ := spells_of_parse hparse
  have hsemicolon : ∀ text, documentedType text ≠ .semicolon := fun text heq =>
    documentedType_not_wordless text (by rw [heq]; decide)
  have hstands := (hspells.unique hsemicolon hs'.closed hspells' hs.closed).1
  rcases hdefect with ⟨type, text, ht, hreserved⟩ | ⟨text, ht, hfails⟩
  · -- the parser's terminal would be the reserved keyword
    obtain ⟨t', ht', type₁, type₂, text', ⟨rfl, rfl⟩, hmatches', hclass⟩ := stand_of_mem hstands ht
    rcases hclass with ⟨-, hwordless⟩ | ⟨-, rfl⟩
    · rcases hs'.terminal ht with hplain | h | h | ⟨_, h⟩
      · have hname : type₁ ∈ [TokenType.identifier, .key] := of_decide_eq_true hplain
        have hnames : ∀ type ∈ [TokenType.identifier, .key], type ∉ wordlessTypes := by decide
        exact hnames _ hname hwordless
      all_goals cases h
    · rw [(keywordType_reserved hreserved).1] at hmatches'
      exact (hs.terminal_eq ht').1 hmatches'.type_eq.symm
  · obtain ⟨t', ht', type₁, type₂, text', ⟨rfl, rfl⟩, hmatches', hclass⟩ := stand_of_mem hstands ht
    rcases hclass with ⟨rfl, -⟩ | ⟨hword, -⟩
    · obtain ⟨text', rfl⟩ := (hs.terminal_eq ht').2.2 hmatches'.type_eq.symm
      obtain ⟨-, rfl⟩ := hmatches'
      exact hfits _ ht' hfails
    · exact documentedType_not_wordless _ (by rw [← hword]; decide)

/-- The number behind a documented LIMIT is the one the parser reads. -/
private theorem count_of_stands {ts ts' : List Terminal} {s s' : Statement} (hs : Sentence ts s)
    (hs' : Sentence ts' s') (h : List.Forall₂ (Stand documentedType) ts' ts) {text : Bytes}
    (ht : .count text ∈ ts) : .count text ∈ ts' := by
  obtain ⟨us, vs, rfl, hus, hending⟩ := hs.shape
  have hmem : .count text ∈ vs := by
    rcases List.mem_append.mp ht with ht | ht
    · cases hus _ ht
    · exact ht
  have hdrop := List.forall₂_drop_append ts' us vs h
  obtain ⟨us', vs', rfl, hus', hending'⟩ := hs'.shape
  generalize s.limit = limit at hending
  cases hending with
  | plain => cases List.mem_singleton.mp hmem
  | @limit text' n =>
    obtain rfl : text = text' := by simpa using hmem
    rcases hsplit : (us' ++ vs').drop us.length with _ | ⟨a, _ | ⟨b, _ | ⟨c, _ | ⟨d, tail⟩⟩⟩⟩
    all_goals rw [hsplit] at hdrop
    case cons.cons.cons.nil =>
      simp only [List.forall₂_cons, List.forall₂_nil_left_iff, and_true] at hdrop
      obtain ⟨hlimit, hcount, -⟩ := hdrop
      have hts : us' ++ vs' = (us' ++ vs').take us.length ++ [a, b, c] := by
        rw [← hsplit, List.take_append_drop]
      have ha : a.type = .limit := by
        obtain ⟨type, type', word, hmatches, hmatches', hclass⟩ := hlimit
        rw [← hmatches.type_eq]
        obtain rfl : type' = .limit := hmatches'
        rcases hclass with ⟨heq, -⟩ | ⟨rfl, heq⟩
        · exact heq.symm
        · rw [documentedType_eq, ← heq]
          intro hreserved
          rw [(keywordType_reserved hreserved).1] at heq
          cases heq
      generalize s'.limit = limit' at hending'
      cases hending' with
      | plain =>
        have hin : a ∈ us' ++ [.word .semicolon] := by rw [hts]; simp
        rcases List.mem_append.mp hin with hin | hin
        · exact absurd ha (plain_type_ne (hus' a hin)).1
        · rw [List.mem_singleton.mp hin] at ha
          cases ha
      | @limit text' =>
        have hend := (List.append_inj' hts rfl).2
        simp only [List.cons.injEq] at hend
        obtain ⟨-, rfl, -⟩ := hend
        obtain ⟨type, type', word, ⟨-, rfl⟩, ⟨-, rfl⟩, -⟩ := hcount
        simp
    all_goals simp at hdrop

private theorem undocumented_of_overread {input : Bytes} (h : Overread input) :
    ¬Documented input := by
  rintro ⟨ts', hrange, ⟨s', hs'⟩, rest', hspells', hblank'⟩
  obtain ⟨ts, s, rest, hspells, hs, hfits, hdefect⟩ := h
  have hsemicolon : ∀ text, documentedType text ≠ .semicolon := fun text heq =>
    documentedType_not_wordless text (by rw [heq]; decide)
  obtain ⟨hstands, hrest⟩ := hspells'.unique hsemicolon hs'.closed hspells hs.closed
  subst hrest
  rcases hdefect with ⟨blank, tail, type, word, next, rfl, hblank, hlexeme⟩ | ⟨-, text, ht, hcount⟩
  · -- whitespace behind a documented statement starts no token
    obtain ⟨c, tail, rfl⟩ := List.exists_cons_of_ne_nil
      (List.ne_nil_of_length_pos (Nat.zero_lt_of_lt hlexeme.length_lt))
    have hspace := hblank' c (List.mem_append_right _ List.mem_cons_self)
    rw [hlexeme.stops_isSpace c rfl] at hspace
    cases hspace
  · exact hcount (hrange.2 text (count_of_stands hs hs' hstands ht))

/-- The parser accepts exactly the documented statements where none of them uses the
reserved word or a double out of range, and nothing undocumented can be read: a text behind
the first `;` or a negative LIMIT. Any bytes are an input. -/
theorem accepts_one_documented_statement (input : Bytes) :
    ((∃ s, parse input = .ok s) ↔ Documented input) ↔ ¬Underread input ∧ ¬Overread input := by
  constructor
  · intro h
    constructor
    · intro hunder
      obtain ⟨ts, hdocumented, -⟩ := id hunder
      obtain ⟨s, hparse⟩ := h.mpr ⟨ts, hdocumented⟩
      exact rejected_of_underread hunder s hparse
    · intro hover
      obtain ⟨ts, s, rest, hspells, hs, hfits, hdefect⟩ := id hover
      refine undocumented_of_overread hover (h.mp ⟨s, parse_of_spells hs hspells hfits ?_⟩)
      rcases hdefect with hstarts | ⟨hblank, -⟩
      · exact create_of_startsToken hstarts
      · exact create_of_blank hblank
  · rintro ⟨hunder, hover⟩
    constructor
    · rintro ⟨s, hparse⟩
      exact documented_of_accepted hparse hover
    · intro hdocumented
      exact accepted_of_documented hdocumented hunder

/-! ## A token behind the semicolon -/

private theorem spells_word {word rest rest' : Bytes} {t : Terminal} {ts : List Terminal}
    (blank : Bytes) (hblank : IsBlank blank) (hword : IsWord word)
    (hstops : Stops isIdentifierPart rest) (hmatches : t.Matches (keywordType word) word)
    (hrest : Spells keywordType rest ts rest') :
    Spells keywordType (blank ++ (word ++ rest)) (t :: ts) rest' :=
  .cons hblank (.word hword hstops) hmatches hrest

private theorem spells_symbol {text rest rest' : Bytes} {type : TokenType} {ts : List Terminal}
    (blank : Bytes) (hblank : IsBlank blank) (htype : (text, type) ∈ symbols)
    (hstops : Stops (· == 61) rest) (hrest : Spells keywordType rest ts rest') :
    Spells keywordType (blank ++ (text ++ rest)) (.word type :: ts) rest' :=
  .cons hblank (.symbol htype fun _ => hstops) rfl hrest

private theorem spells_trailing :
    Spells keywordType (ascii "SELECT * FROM t; x")
      [.word .select, .word .star, .word .from, .name .identifier (ascii "t"), .word .semicolon]
      (ascii " x") := by
  have hselect : keywordType (ascii "SELECT") = .select := by decide +kernel
  have hfrom : keywordType (ascii "FROM") = .from := by decide +kernel
  have hname : keywordType (ascii "t") = .identifier := by decide +kernel
  have h₅ := @spells_symbol (ascii ";") _ _ .semicolon [] [] (by decide) (by decide +kernel)
    (by decide +kernel) (.nil (ascii " x"))
  have h₄ := @spells_word (ascii "t") _ _ (.name .identifier (ascii "t")) _ [32]
    (by decide) (by decide +kernel) (by decide +kernel) ⟨hname.symm ▸ rfl, rfl⟩ h₅
  have h₃ := @spells_word (ascii "FROM") _ _ (.word .from) _ [32] (by decide) (by decide +kernel)
    (by decide +kernel) hfrom h₄
  have h₂ := @spells_symbol (ascii "*") _ _ .star _ [32] (by decide) (by decide +kernel)
    (by decide +kernel) h₃
  have h₁ := @spells_word (ascii "SELECT") _ _ (.word .select) _ [] (by decide) (by decide +kernel)
    (by decide +kernel) hselect h₂
  have htext : ascii "SELECT * FROM t; x" = [] ++ (ascii "SELECT" ++ ([32] ++ (ascii "*" ++
      ([32] ++ (ascii "FROM" ++ ([32] ++ (ascii "t" ++
        ([] ++ (ascii ";" ++ ascii " x"))))))))) := by
    decide +kernel
  rw [htext]
  exact h₁

/-- A statement with one more word behind its semicolon. -/
theorem accepts_trailing_token :
    ¬((∃ s, parse (ascii "SELECT * FROM t; x") = .ok s) ↔
      Documented (ascii "SELECT * FROM t; x")) := by
  have hrun : parse (ascii "SELECT * FROM t; x") = .ok (.select ⟨ascii "t", [.star], none, [], [],
      none⟩) := by decide +kernel
  have hword : Lexeme keywordType (ascii "x") (keywordType (ascii "x")) (ascii "x") [] := by
    have hspelled := @Lexeme.word keywordType (ascii "x") [] (by decide +kernel) (by decide)
    rwa [List.append_nil] at hspelled
  have hstarts : StartsToken (ascii " x") :=
    ⟨[32], ascii "x", _, ascii "x", [], rfl, by decide, hword⟩
  intro h
  refine undocumented_of_overread ?_ (h.mp ⟨_, hrun⟩)
  refine ⟨_, _, _, spells_trailing, .select (.one .star) .none .none .none .none, ?_,
    Or.inl hstarts⟩
  intro t ht
  simp only [List.mem_cons, List.not_mem_nil, or_false] at ht
  rcases ht with rfl | rfl | rfl | rfl | rfl
  all_goals exact id

end Htap.Properties
