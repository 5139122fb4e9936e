import Htap.Parser.Lexemes
import Htap.Parser.Parser

/-!
The terminals of the query grammar, the runs of a parser over them, and rules for
showing that a function of the parser recognizes a grammar.
-/

set_option linter.dupNamespace false

namespace Htap.Parser

open Storage

/-- A keyword or symbol however it is spelled, a name, a literal, or the number
behind `LIMIT`, which is converted in another way than the other literals. -/
inductive Terminal where
  | word (type : TokenType)
  | name (type : TokenType) (text : Bytes)
  | literal (type : TokenType) (text : Bytes)
  | count (text : Bytes)
  deriving DecidableEq

namespace Terminal

def type : Terminal → TokenType
  | word type | name type _ | literal type _ => type
  | count _ => .intLiteral

/-- A terminal stands for the tokens of its type and, unless it is a word, its text. -/
def Matches : Terminal → TokenType → Bytes → Prop
  | word type, type', _ => type' = type
  | name type text, type', text' => type' = type ∧ text' = text
  | literal type text, type', text' => type' = type ∧ text' = text
  | count text, type', text' => type' = .intLiteral ∧ text' = text

/-- The conversion of a literal throws. -/
def Fails : Terminal → Prop
  | literal type text => ∃ e, Parser.literal type text = some (.error e)
  | count text => ∃ e, stoull text = .error e
  | _ => False

theorem Matches.type_eq {t : Terminal} {type : TokenType} {text : Bytes} (h : t.Matches type text) :
    type = t.type := by
  cases t with
  | word => exact h
  | name => exact h.1
  | literal => exact h.1
  | count => exact h.1

end Terminal

/-! ## Runs over terminals -/

/-- `Follows p ts r`: the tokens from `p` on are `ts` and the parser behind them is
`r`, or they begin as `ts` does up to a literal whose conversion throws. -/
inductive Follows : Parser → List Terminal → Option Parser → Prop
  | done (p : Parser) : Follows p [] (some p)
  | throws {p : Parser} {t : Terminal} {ts : List Terminal}
      (hmatches : t.Matches p.current.type p.current.text) (hfails : t.Fails) :
      Follows p (t :: ts) none
  | step {p q : Parser} {t : Terminal} {ts : List Terminal} {r : Option Parser}
      (hmatches : t.Matches p.current.type p.current.text) (hfails : ¬t.Fails)
      (hend : p.current.type ≠ .endOfFile) (hadvance : p.advance = .ok q)
      (hrest : Follows q ts r) : Follows p (t :: ts) r

namespace Follows

variable {p q : Parser} {t : Terminal} {ts us : List Terminal} {r : Option Parser}

theorem nil_eq (h : Follows p [] r) : r = some p := by
  cases h
  rfl

theorem matches_current (h : Follows p (t :: ts) r) :
    t.Matches p.current.type p.current.text := by
  cases h with
  | throws hmatches => exact hmatches
  | step hmatches => exact hmatches

theorem type_eq (h : Follows p (t :: ts) r) : p.current.type = t.type :=
  h.matches_current.type_eq

theorem word_type {type : TokenType} (h : Follows p (.word type :: ts) r) :
    p.current.type = type := h.type_eq

theorem name_type {type : TokenType} {text : Bytes} (h : Follows p (.name type text :: ts) r) :
    p.current.type = type := h.type_eq

theorem literal_type {type : TokenType} {text : Bytes}
    (h : Follows p (.literal type text :: ts) r) : p.current.type = type := h.type_eq

theorem append (h : Follows p ts (some q)) (hrest : Follows q us r) : Follows p (ts ++ us) r := by
  generalize hend : some q = r' at h
  induction h with
  | done p => cases hend; exact hrest
  | throws => cases hend
  | step hmatches hfails hne hadvance _ ih => exact .step hmatches hfails hne hadvance (ih hend)

theorem append_none (h : Follows p ts none) (us : List Terminal) : Follows p (ts ++ us) none := by
  generalize hend : none = r' at h
  induction h with
  | done p => cases hend
  | throws hmatches hfails => exact .throws hmatches hfails
  | step hmatches hfails hne hadvance _ ih => exact .step hmatches hfails hne hadvance (ih hend)

/-- A run over two lists throws within the first, or runs over both. -/
theorem split (h : Follows p (ts ++ us) r) :
    (r = none ∧ Follows p ts none) ∨ ∃ q, Follows p ts (some q) ∧ Follows q us r := by
  induction ts generalizing p with
  | nil => exact Or.inr ⟨p, .done p, h⟩
  | cons t ts ih =>
    cases h with
    | throws hmatches hfails => exact Or.inl ⟨rfl, .throws hmatches hfails⟩
    | step hmatches hfails hne hadvance hrest =>
      rcases ih hrest with ⟨rfl, hthrows⟩ | ⟨q, hq, hrest⟩
      · exact Or.inl ⟨rfl, .step hmatches hfails hne hadvance hthrows⟩
      · exact Or.inr ⟨q, .step hmatches hfails hne hadvance hq, hrest⟩

end Follows

/-! ## Input left -/

/-- The characters behind the current token, and one for the token unless it is the last. -/
def Parser.size (p : Parser) : Nat :=
  p.lexer.input.length + if p.current.type = .endOfFile then 0 else 1

/-- Reading a token fails with a `ParseError` only. -/
theorem create_eq (lexer : Lexer) :
    (∃ p, Parser.create lexer = .ok p ∧ p.size ≤ lexer.input.length) ∨
      ∃ message detail position,
        Parser.create lexer = .error (.parseError message detail position) := by
  have hspaces : lexer.skipWhitespace.input.length ≤ lexer.input.length :=
    (List.dropWhile_sublist isSpace).length_le
  rcases readToken_eq lexer.skipWhitespace with ⟨hnil, hread⟩ |
    ⟨type, text, rest, position, hlexeme, hread⟩ | ⟨message, detail, position, hread⟩
  · left
    refine ⟨_, by rw [Parser.create, Lexer.nextToken, hread]; rfl, ?_⟩
    rw [Parser.size, hnil]
    exact Nat.zero_le _
  · left
    refine ⟨_, by rw [Parser.create, Lexer.nextToken, hread]; rfl, ?_⟩
    rw [Parser.size, if_neg hlexeme.type_ne.1]
    exact (Nat.succ_le_of_lt hlexeme.length_lt).trans hspaces
  · right
    exact ⟨message, detail, position, by rw [Parser.create, Lexer.nextToken, hread]; rfl⟩

theorem advance_eq (p : Parser) :
    (∃ q, p.advance = .ok q) ∨
      ∃ message detail position, p.advance = .error (.parseError message detail position) := by
  rcases create_eq p.lexer with ⟨q, hq, -⟩ | herror
  · exact Or.inl ⟨q, hq⟩
  · exact Or.inr herror

theorem size_advance {p q : Parser} (h : p.advance = .ok q) (hend : p.current.type ≠ .endOfFile) :
    q.size < p.size := by
  rcases create_eq p.lexer with ⟨q', hq, hsize⟩ | ⟨_, _, _, herror⟩
  · rw [Parser.advance, hq] at h
    cases h
    have hp : p.size = p.lexer.input.length + 1 := by rw [Parser.size, if_neg hend]
    rw [hp]
    exact Nat.lt_succ_of_le hsize
  · rw [Parser.advance, herror] at h
    cases h

theorem Follows.size_le {p q : Parser} {ts : List Terminal} (h : Follows p ts (some q)) :
    q.size + ts.length ≤ p.size := by
  generalize hend : some q = r at h
  induction h with
  | done p =>
    cases hend
    exact le_rfl
  | throws => cases hend
  | step hmatches hfails hne hadvance _ ih =>
    have hlt := size_advance hadvance hne
    have hle := ih hend
    rw [List.length_cons]
    omega

/-! ## Recognition -/

section Recognition

variable {α β σ : Type}

/-- A conversion throws only where the grammar `D` derives a list with its literal. -/
def Throws (p : Parser) (D : List Terminal → α → Prop) : Failure → Prop
  | .parseError _ _ _ => True
  | .outOfFuel => False
  | _ => ∃ ts a, D ts a ∧ Follows p ts none

/-- Every result of `x` at `p` comes from a list of terminals that the grammar `D` derives. -/
def Reads (p : Parser) (D : List Terminal → α → Prop) : Parsed (α × Parser) → Prop
  | .ok (a, q) => ∃ ts, D ts a ∧ Follows p ts (some q)
  | .error e => Throws p D e

/-- What `x` comes to when the run over what it reads comes to `r`. -/
def Outcome (a : α) (x : Parsed (α × Parser)) : Option Parser → Prop
  | some q => x = .ok (a, q)
  | none => ∃ e, x = .error e ∧ ∀ message detail position, e ≠ .parseError message detail position

/-- The token behind a run has none of the types `continuing`. -/
def Ends (continuing : List TokenType) (r : Option Parser) : Prop :=
  ∀ q, r = some q → q.current.type ∉ continuing

/-- At `p`, `x` reads what the grammar `D` derives. A token of a type in `continuing`
could continue what it read. -/
structure Recognizes (continuing : List TokenType) (p : Parser) (D : List Terminal → α → Prop)
    (x : Parsed (α × Parser)) : Prop where
  reads : Reads p D x
  gives {ts : List Terminal} {a : α} {r : Option Parser} (hD : D ts a) (hrun : Follows p ts r)
    (hends : Ends continuing r) : Outcome a x r

/-- Nothing is read. -/
def Done (a : α) (ts : List Terminal) (b : α) : Prop := ts = [] ∧ b = a

/-- A terminal, then what `D` derives. -/
def Shift (t : Terminal) (D : List Terminal → α → Prop) (ts : List Terminal) (a : α) : Prop :=
  ∃ us, ts = t :: us ∧ D us a

/-- What `D` derives, then what `E` derives. -/
def Sequence (D : List Terminal → α → Prop) (E : α → List Terminal → β → Prop)
    (ts : List Terminal) (b : β) : Prop :=
  ∃ us a vs, D us a ∧ E a vs b ∧ ts = us ++ vs

theorem exists_done (a : α) : ∃ ts b, Done a ts b := ⟨[], a, rfl, rfl⟩

theorem exists_shift {D : List Terminal → α → Prop} (t : Terminal) (h : ∃ ts a, D ts a) :
    ∃ ts a, Shift t D ts a := by
  obtain ⟨ts, a, hD⟩ := h
  exact ⟨t :: ts, a, ts, rfl, hD⟩

theorem exists_sequence {D : List Terminal → α → Prop} {E : α → List Terminal → β → Prop}
    (hD : ∃ ts a, D ts a) (hE : ∀ a, ∃ ts b, E a ts b) : ∃ ts b, Sequence D E ts b := by
  obtain ⟨ts, a, hD⟩ := hD
  obtain ⟨us, b, hE⟩ := hE a
  exact ⟨ts ++ us, b, ts, a, us, hD, hE, rfl⟩

/-- What may stand behind `continuing`: lists that start with another type, or that are
empty where no type of `continuing` follows. -/
def Leads (continuing following : List TokenType) : List Terminal → Prop
  | [] => ∀ type ∈ following, type ∈ continuing
  | t :: _ => t.type ∉ following

variable {continuing following : List TokenType} {p : Parser}

theorem Leads.ends {ts : List Terminal} {q : Parser} {r : Option Parser}
    (h : Leads continuing following ts) (hrun : Follows q ts r) (hends : Ends continuing r) :
    Ends following (some q) := by
  rintro _ ⟨rfl⟩ hmem
  cases ts with
  | nil => exact hends q hrun.nil_eq (h _ hmem)
  | cons t ts => exact h (hrun.type_eq ▸ hmem)

theorem Throws.mono {q : Parser} {D : List Terminal → α → Prop} {D' : List Terminal → β → Prop}
    {e : Failure} (h : Throws q D e)
    (hruns : ∀ ts a, D ts a → Follows q ts none → ∃ us b, D' us b ∧ Follows p us none) :
    Throws p D' e := by
  cases e with
  | parseError => trivial
  | outOfFuel => exact h
  | outOfRange =>
    obtain ⟨ts, a, hD, hrun⟩ := h
    exact hruns ts a hD hrun
  | invalidArgument =>
    obtain ⟨ts, a, hD, hrun⟩ := h
    exact hruns ts a hD hrun

theorem Reads.mono {q : Parser} {D D' : List Terminal → α → Prop} {x : Parsed (α × Parser)}
    (h : Reads q D x)
    (hruns : ∀ ts a r, D ts a → Follows q ts r → ∃ us, D' us a ∧ Follows p us r) :
    Reads p D' x := by
  rcases x with e | ⟨a, q'⟩
  · apply Throws.mono h
    intro ts a hD hrun
    obtain ⟨us, hD', hrun'⟩ := hruns ts a none hD hrun
    exact ⟨us, a, hD', hrun'⟩
  · obtain ⟨ts, hD, hrun⟩ := h
    exact hruns ts a (some q') hD hrun

namespace Recognizes

theorem pure (continuing : List TokenType) (a : α) (p : Parser) :
    Recognizes continuing p (Done a) (.ok (a, p)) where
  reads := ⟨[], ⟨rfl, rfl⟩, .done p⟩
  gives := by
    rintro _ _ r ⟨rfl, rfl⟩ hrun hends
    rw [hrun.nil_eq]
    rfl

/-- A parse error where the grammar derives nothing. -/
theorem fail {D : List Terminal → α → Prop} {message : String} {detail : Bytes}
    (h : ∀ ts a r, D ts a → Follows p ts r → Ends continuing r → False) :
    Recognizes continuing p D (p.fail message detail) where
  reads := trivial
  gives hD hrun hends := (h _ _ _ hD hrun hends).elim

theorem congr {D D' : List Terminal → α → Prop} {x : Parsed (α × Parser)}
    (hx : Recognizes continuing p D x) (hreads : ∀ ts a, D ts a → D' ts a)
    (hgives : ∀ ts a r, D' ts a → Follows p ts r → Ends continuing r → D ts a) :
    Recognizes continuing p D' x where
  reads := hx.reads.mono fun ts a _ hD hrun => ⟨ts, hreads ts a hD, hrun⟩
  gives hD hrun hends := hx.gives (hgives _ _ _ hD hrun hends) hrun hends

theorem weaken {D : List Terminal → α → Prop} {x : Parsed (α × Parser)}
    (hx : Recognizes following p D x) (hsub : following ⊆ continuing) :
    Recognizes continuing p D x where
  reads := hx.reads
  gives hD hrun hends := hx.gives hD hrun fun q hq hmem => hends q hq (hsub hmem)

/-- Reading a token that the grammar has here. -/
theorem shift {D : List Terminal → α → Prop} {t : Terminal} {k : Parser → Parsed (α × Parser)}
    (hmatches : t.Matches p.current.type p.current.text) (hfails : ¬t.Fails)
    (hend : p.current.type ≠ .endOfFile)
    (hk : ∀ q, p.advance = .ok q → Recognizes continuing q D (k q)) :
    Recognizes continuing p (Shift t D) (p.advance >>= k) := by
  rcases advance_eq p with ⟨q, hq⟩ | ⟨message, detail, position, herror⟩
  · rw [hq, Parsed.ok_bind]
    have hkq := hk q hq
    constructor
    · apply hkq.reads.mono
      intro ts a r hD hrun
      exact ⟨t :: ts, ⟨ts, rfl, hD⟩, .step hmatches hfails hend hq hrun⟩
    · rintro _ a r ⟨ts, rfl, hD⟩ hrun hends
      cases hrun with
      | throws _ h => exact absurd h hfails
      | step _ _ _ hadvance hrun =>
        rw [hq] at hadvance
        cases hadvance
        exact hkq.gives hD hrun hends
  · rw [herror, Parsed.error_bind]
    constructor
    · trivial
    · rintro _ a r ⟨ts, rfl, hD⟩ hrun hends
      cases hrun with
      | throws _ h => exact absurd h hfails
      | step _ _ _ hadvance _ => rw [herror] at hadvance; cases hadvance

/-- One function after another. -/
theorem bind {D : List Terminal → α → Prop} {E : α → List Terminal → β → Prop}
    {x : Parsed (α × Parser)} {f : α × Parser → Parsed (β × Parser)}
    (hx : Recognizes following p D x)
    (hf : ∀ a q ts, D ts a → Follows p ts (some q) → Recognizes continuing q (E a) (f (a, q)))
    (hsome : ∀ a, ∃ ts b, E a ts b) (hleads : ∀ a ts b, E a ts b → Leads continuing following ts) :
    Recognizes continuing p (Sequence D E) (x >>= f) := by
  constructor
  · have hreads := hx.reads
    rcases x with e | ⟨a, q⟩
    · apply Throws.mono hreads
      intro ts a hD hrun
      obtain ⟨us, b, hE⟩ := hsome a
      exact ⟨ts ++ us, b, ⟨ts, a, us, hD, hE, rfl⟩, hrun.append_none us⟩
    · obtain ⟨ts, hD, hrun⟩ := hreads
      apply (hf a q ts hD hrun).reads.mono
      intro us b r hE hrest
      exact ⟨ts ++ us, ⟨ts, a, us, hD, hE, rfl⟩, hrun.append hrest⟩
  · rintro _ b r ⟨ts, a, us, hD, hE, rfl⟩ hrun hends
    rcases hrun.split with ⟨rfl, hthrows⟩ | ⟨q, hq, hrest⟩
    · obtain ⟨e, hx, he⟩ := hx.gives hD hthrows (fun _ h => nomatch h)
      exact ⟨e, by rw [hx, Parsed.error_bind], he⟩
    · have hxa := hx.gives hD hq ((hleads a us b hE).ends hrest hends)
      rw [hxa, Parsed.ok_bind]
      exact (hf a q ts hD hq).gives hE hrest hends

/-- A keyword or symbol the grammar has here. -/
theorem word {D : List Terminal → α → Prop} {k : Parser → Parsed (α × Parser)}
    (htype : p.current.type ≠ .endOfFile)
    (hk : ∀ q, p.advance = .ok q → Recognizes continuing q D (k q)) :
    Recognizes continuing p (Shift (.word p.current.type) D) (p.advance >>= k) :=
  shift rfl id htype hk

theorem expect {D : List Terminal → α → Prop} {type : TokenType} {message : String}
    {k : Parser → Parsed (α × Parser)} (htype : type ≠ .endOfFile)
    (hk : ∀ q, p.advance = .ok q → q.size < p.size → Recognizes continuing q D (k q)) :
    Recognizes continuing p (Shift (.word type) D) (Parser.expect type message p >>= k) := by
  unfold Parser.expect Parser.isExpectedToken
  by_cases h : p.current.type = type
  · rw [if_pos (beq_iff_eq.mpr h)]
    subst h
    exact word htype fun q hq => hk q hq (size_advance hq htype)
  · rw [if_neg (fun hbeq => h (beq_iff_eq.mp hbeq)), Parser.fail, Parsed.error_bind]
    apply @fail _ _ _ _ message []
    rintro _ _ _ ⟨us, rfl, -⟩ hrun -
    exact h hrun.type_eq

/-- Something behind a keyword, or nothing. -/
theorem optional {D : List Terminal → α → Prop} {type : TokenType} {a : α}
    {k : Parser → Parsed (α × Parser)} (htype : type ≠ .endOfFile) (hmem : type ∈ continuing)
    (hk : ∀ q, p.advance = .ok q → q.size < p.size → Recognizes continuing q D (k q)) :
    Recognizes continuing p (fun ts b => Shift (.word type) D ts b ∨ Done a ts b)
      (if p.isExpectedToken type then p.advance >>= k else .ok (a, p)) := by
  unfold Parser.isExpectedToken
  by_cases h : p.current.type = type
  · rw [if_pos (beq_iff_eq.mpr h)]
    subst h
    refine (word htype fun q hq => hk q hq (size_advance hq htype)).congr ?_ ?_
    · exact fun ts b hD => Or.inl hD
    · rintro ts b r (hD | ⟨rfl, rfl⟩) hrun hends
      · exact hD
      · exact (hends p hrun.nil_eq hmem).elim
  · rw [if_neg (fun hbeq => h (beq_iff_eq.mp hbeq))]
    refine (pure continuing a p).congr ?_ ?_
    · exact fun ts b hD => Or.inr hD
    · rintro ts b r (⟨us, rfl, -⟩ | hD) hrun hends
      · exact (h hrun.type_eq).elim
      · exact hD

end Recognizes

/-! ## Loops -/

/-- `while (separator) { Advance(); item; }`, with the items combined into a state. -/
def foldLoop (separator : TokenType) (combine : σ → α → σ)
    (item : Parser → Parsed (α × Parser)) : Nat → σ → Parser → Parsed (σ × Parser)
  | 0, _, _ => throw .outOfFuel
  | fuel + 1, state, p =>
    if p.isExpectedToken separator then do
      let p ← p.advance
      let (next, p) ← item p
      foldLoop separator combine item fuel (combine state next) p
    else return (state, p)

theorem commaLoop_eq (item : Parser → Parsed (α × Parser)) (fuel : Nat) (items : List α)
    (p : Parser) :
    Parser.commaLoop item fuel items p =
      foldLoop .comma (fun items next => items ++ [next]) item fuel items p := by
  induction fuel generalizing items p with
  | zero => rfl
  | succ fuel ih => simp only [Parser.commaLoop, foldLoop, ih]

theorem operatorLoop_eq (separator : TokenType) (operation : BinaryOperation)
    (operand : Parser → Parsed (Expression × Parser)) (fuel : Nat) (left : Expression)
    (p : Parser) :
    Parser.operatorLoop separator operation operand fuel left p =
      foldLoop separator (.binary operation) operand fuel left p := by
  induction fuel generalizing left p with
  | zero => rfl
  | succ fuel ih => simp only [Parser.operatorLoop, foldLoop, ih]

/-- What a loop reads from a state on. -/
inductive Tail (separator : TokenType) (combine : σ → α → σ) (D : List Terminal → α → Prop) :
    σ → List Terminal → σ → Prop
  | nil (state : σ) : Tail separator combine D state [] state
  | cons {state result : σ} {a : α} {ts us : List Terminal} (hitem : D ts a)
      (htail : Tail separator combine D (combine state a) us result) :
      Tail separator combine D state (.word separator :: (ts ++ us)) result

theorem Tail.leads {separator : TokenType} {combine : σ → α → σ} {D : List Terminal → α → Prop}
    {state result : σ} {ts : List Terminal} (h : Tail separator combine D state ts result)
    (hseparator : separator ∉ following) (hsub : following ⊆ continuing) :
    Leads continuing following ts := by
  cases h with
  | nil => exact fun type hmem => hsub hmem
  | cons => exact hseparator

theorem Tail.snoc {separator : TokenType} {combine : σ → α → σ} {D : List Terminal → α → Prop}
    {state result : σ} {ts us : List Terminal} {a : α}
    (h : Tail separator combine D state ts result) (ha : D us a) :
    Tail separator combine D state (ts ++ .word separator :: us) (combine result a) := by
  induction h with
  | nil state =>
    have htail := Tail.cons ha (@Tail.nil _ _ separator combine D (combine state a))
    rwa [List.append_nil] at htail
  | cons hitem _ ih =>
    have htail := Tail.cons hitem ih
    rwa [← List.append_assoc, ← List.cons_append] at htail

/-- A loop recognizes the items behind its separators. -/
theorem recognizes_foldLoop {separator : TokenType} {combine : σ → α → σ}
    {D : List Terminal → α → Prop} {item : Parser → Parsed (α × Parser)}
    (hend : separator ≠ .endOfFile) (hseparator : separator ∉ following)
    (hmem : separator ∈ continuing) (hsub : following ⊆ continuing) (fuel : Nat) (state : σ)
    (p : Parser) (hfuel : p.size < fuel)
    (hitem : ∀ q, q.size < p.size → Recognizes following q D (item q)) :
    Recognizes continuing p (Tail separator combine D state)
      (foldLoop separator combine item fuel state p) := by
  induction fuel generalizing state p with
  | zero => exact absurd hfuel (Nat.not_lt_zero _)
  | succ fuel ih =>
    rw [foldLoop]
    refine (Recognizes.optional (a := state) (D := Sequence D fun a =>
      Tail separator combine D (combine state a)) hend hmem ?_).congr ?_ ?_
    · intro q hq hlt
      apply Recognizes.bind (hitem q hlt)
      · intro a q' ts hD hrun
        have hle := hrun.size_le
        apply ih
        · omega
        · exact fun q'' hq'' => hitem q'' (by omega)
      · exact fun a => ⟨[], _, .nil _⟩
      · exact fun a ts b htail => htail.leads hseparator hsub
    · rintro ts b (⟨us, rfl, vs, a, ws, hD, htail, rfl⟩ | ⟨rfl, rfl⟩)
      · exact .cons hD htail
      · exact .nil _
    · rintro ts b r htail hrun hends
      cases htail with
      | nil => exact Or.inr ⟨rfl, rfl⟩
      | cons hD htail => exact Or.inl ⟨_, rfl, _, _, _, hD, htail, rfl⟩

end Recognition

end Htap.Parser
