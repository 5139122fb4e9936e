import Htap.Parser.Grammar

/-!
Every function of the parser recognizes its part of the grammar, and the number
of rounds `parse` gives it suffices.
-/

set_option linter.dupNamespace false

namespace Htap.Parser

open Storage

namespace Recognizes

variable {p : Parser} {continuing : List TokenType}

/-! ## Names and literals -/

private theorem expectText {test : Parser → Bool} (allowed : TokenType → Prop) {message : String}
    (htest : ∀ p, test p = true ↔ allowed p.current.type) (hend : ¬allowed .endOfFile) :
    Recognizes continuing p
      (fun ts name => ∃ type, allowed type ∧ ts = [.name type name])
      (Parser.expectText test message p) := by
  unfold Parser.expectText
  by_cases h : test p = true
  · have hallowed := (htest p).mp h
    rw [if_pos h]
    have hend' : p.current.type ≠ .endOfFile := fun he => hend (he ▸ hallowed)
    refine (shift (D := Done p.current.text) (t := .name p.current.type p.current.text)
      ⟨rfl, rfl⟩ id hend' fun q hq => pure continuing p.current.text q).congr ?_ ?_
    · rintro _ _ ⟨_, rfl, rfl, rfl⟩
      exact ⟨_, hallowed, rfl⟩
    · rintro _ name r ⟨type, -, rfl⟩ hrun -
      obtain ⟨rfl, rfl⟩ := hrun.matches_current
      exact ⟨[], rfl, rfl, rfl⟩
  · rw [if_neg h]
    apply fail
    rintro _ name r ⟨type, hallowed, rfl⟩ hrun -
    have htype : p.current.type = type := hrun.type_eq
    exact h ((htest p).mpr (htype ▸ hallowed))

/-- The name of a table. -/
def TableName (ts : List Terminal) (name : Bytes) : Prop := ts = [.name .identifier name]

theorem expectTableName (continuing : List TokenType) {message : String} :
    Recognizes continuing p TableName (Parser.expectTableName message p) := by
  refine (expectText (· = .identifier) (fun p => beq_iff_eq) (by decide)).congr ?_ ?_
  · rintro ts name ⟨_, rfl, rfl⟩
    rfl
  · rintro ts name r rfl - -
    exact ⟨_, rfl, rfl⟩

private theorem isColumnNameToken_iff (p : Parser) :
    p.isColumnNameToken = true ↔ IsColumnName p.current.type := by
  rw [Parser.isColumnNameToken, Bool.or_eq_true]
  exact or_congr beq_iff_eq beq_iff_eq

theorem expectColumnName (continuing : List TokenType) {message : String} :
    Recognizes continuing p ColumnName (Parser.expectColumnName message p) := by
  refine (expectText IsColumnName isColumnNameToken_iff (by unfold IsColumnName; decide)).congr
    ?_ ?_
  · rintro ts name ⟨type, htype, rfl⟩
    exact .intro htype
  · rintro _ name r ⟨htype⟩ - -
    exact ⟨_, htype, rfl⟩

/-- The conversions of a literal throw their own errors only. -/
private theorem literal_error {type : TokenType} {text : Bytes} {e : Failure}
    (h : Parser.literal type text = some (.error e)) :
    ∃ what, e = .outOfRange what ∨ e = .invalidArgument what := by
  unfold Parser.literal at h
  split at h
  · cases h
  · have hstoll : stoll text = .error e := by
      cases hvalue : stoll text with
      | ok value => rw [hvalue] at h; cases h
      | error e' => rw [hvalue] at h; cases h; rfl
    unfold stoll at hstoll
    split_ifs at hstoll
    · cases hstoll
      exact ⟨_, Or.inr rfl⟩
    · cases hstoll
      exact ⟨_, Or.inl rfl⟩
  · have hstod : stod text = .error e := by
      cases hvalue : stod text with
      | ok value => rw [hvalue] at h; cases h
      | error e' => rw [hvalue] at h; cases h; rfl
    unfold stod at hstod
    split_ifs at hstod
    · cases hstod
      exact ⟨_, Or.inr rfl⟩
    · cases hstod
      exact ⟨_, Or.inl rfl⟩
  · cases h
  · cases h

/-- A conversion that throws on the literal the grammar has here. -/
private theorem throws_of {α : Type} {D : List Terminal → α → Prop} {t : Terminal} {e : Failure}
    {x : Parsed (α × Parser)} (hmatches : t.Matches p.current.type p.current.text)
    (hfails : t.Fails) (he : ∃ what, e = .outOfRange what ∨ e = .invalidArgument what)
    (hx : x = .error e) (hD : ∃ a, D [t] a) (hall : ∀ ts a r, D ts a → Follows p ts r → ts = [t]) :
    Recognizes continuing p D x := by
  subst hx
  obtain ⟨a, ha⟩ := hD
  have hrun : Follows p [t] none := .throws hmatches hfails
  obtain ⟨what, rfl | rfl⟩ := he
  all_goals
    refine ⟨⟨[t], a, ha, hrun⟩, ?_⟩
    intro ts b r hD hrun _
    obtain rfl := hall ts b r hD hrun
    cases hrun with
    | throws => exact ⟨_, rfl, fun _ _ _ h => nomatch h⟩
    | step _ h => exact absurd hfails h

theorem parseLiteralExpression (continuing : List TokenType) :
    Recognizes continuing p Literal (Parser.parseLiteralExpression p) := by
  have hmatch : ∀ ts e r, Literal ts e → Follows p ts r →
      ts = [.literal p.current.type p.current.text] := by
    rintro _ e r ⟨h⟩ hrun
    obtain ⟨rfl, rfl⟩ := hrun.matches_current
    rfl
  unfold Parser.parseLiteralExpression
  rcases hvalue : Parser.literal p.current.type p.current.text with _ | e | value
  · apply fail
    rintro ts e r ⟨value, hliteral, -⟩ hrun -
    obtain ⟨rfl, rfl⟩ := hrun.matches_current
    rw [hvalue] at hliteral
    cases hliteral
  · refine throws_of (t := .literal p.current.type p.current.text) (e := e) ⟨rfl, rfl⟩ ⟨e, hvalue⟩
      (literal_error hvalue) rfl ⟨.nullLiteral, ⟨_, hvalue, fun _ h => nomatch h⟩⟩ hmatch
  · have hend : p.current.type ≠ .endOfFile := by
      intro hend
      rw [hend] at hvalue
      cases hvalue
    have hfails : ¬(Terminal.literal p.current.type p.current.text).Fails := by
      rintro ⟨e, he⟩
      rw [hvalue] at he
      cases he
    refine (shift (D := Done value) (t := .literal p.current.type p.current.text) ⟨rfl, rfl⟩ hfails
      hend fun q hq => pure continuing value q).congr ?_ ?_
    · rintro _ _ ⟨_, rfl, rfl, rfl⟩
      exact ⟨_, hvalue, fun _ h => by cases h; rfl⟩
    · intro ts e r hliteral hrun hends
      obtain rfl := hmatch ts e r hliteral hrun
      obtain ⟨_, hsome, hdenotes⟩ := hliteral
      rw [hvalue] at hsome
      cases hsome
      exact ⟨[], rfl, rfl, (hdenotes value rfl).symm⟩

/-! ## Expressions -/

/-- An atomic expression without parentheses. -/
private inductive Operand : List Terminal → Expression → Prop
  | column {type : TokenType} {name : Bytes} (htype : IsColumnName type) :
      Operand [.name type name] (.column name)
  | literal {type : TokenType} {text : Bytes} {e : Expression} (h : Denotes type text e) :
      Operand [.literal type text] e

private theorem literal_isSome {type : TokenType} {text : Bytes} {e : Expression}
    (h : Denotes type text e) : (Parser.literal type text).isSome = true := by
  obtain ⟨value, hvalue, -⟩ := h
  rw [hvalue]
  rfl

/-- No literal is a name. -/
private theorem not_columnName {type : TokenType} {text : Bytes} {e : Expression}
    (h : Denotes type text e) : ¬IsColumnName type := by
  obtain ⟨value, hvalue, -⟩ := h
  rintro (rfl | rfl)
  all_goals cases hvalue

private theorem parseOperand : Recognizes continuing p Operand (Parser.parseOperand p) := by
  unfold Parser.parseOperand
  by_cases hname : p.isColumnNameToken = true
  · have hcolumn := (isColumnNameToken_iff p).mp hname
    have hend : p.current.type ≠ .endOfFile := by
      intro hend
      rw [hend] at hcolumn
      rcases hcolumn with h | h
      all_goals cases h
    rw [if_pos hname]
    refine (shift (D := Done (Expression.column p.current.text))
      (t := .name p.current.type p.current.text)
      ⟨rfl, rfl⟩ id hend fun q hq => pure continuing _ q).congr ?_ ?_
    · rintro _ _ ⟨_, rfl, rfl, rfl⟩
      exact .column hcolumn
    · intro ts e r hoperand hrun hends
      cases hoperand with
      | column =>
        obtain ⟨rfl, rfl⟩ := hrun.matches_current
        exact ⟨[], rfl, rfl, rfl⟩
      | literal h =>
        obtain ⟨rfl, rfl⟩ := hrun.matches_current
        exact absurd hcolumn (not_columnName h)
  · rw [if_neg hname]
    by_cases hliteral : (Parser.literal p.current.type p.current.text).isSome = true
    · rw [if_pos hliteral]
      refine (parseLiteralExpression continuing).congr ?_ ?_
      · rintro _ e ⟨h⟩
        exact .literal h
      · intro ts e r hoperand hrun hends
        cases hoperand with
        | column htype => exact absurd ((isColumnNameToken_iff p).mpr (hrun.type_eq ▸ htype)) hname
        | literal h => exact .intro h
    · rw [if_neg hliteral]
      apply fail
      intro ts e r hoperand hrun hends
      cases hoperand with
      | column htype => exact absurd ((isColumnNameToken_iff p).mpr (hrun.type_eq ▸ htype)) hname
      | literal h =>
        obtain ⟨rfl, rfl⟩ := hrun.matches_current
        exact hliteral (literal_isSome h)

/-- What may stand behind the first operand of a predicate. -/
private inductive PredicateTail (left : Expression) : List Terminal → Expression → Prop
  | none : PredicateTail left [] left
  | isNull : PredicateTail left [.word .is, .word .null] (.isNull left false)
  | isNotNull : PredicateTail left [.word .is, .word .not, .word .null] (.isNull left true)
  | comparison {type : TokenType} {operation : BinaryOperation} {ts : List Terminal}
      {right : Expression} (hoperation : (type, operation) ∈ comparisons)
      (hright : Derives .atomic ts right) :
      PredicateTail left (.word type :: ts) (.binary operation left right)

private theorem comparisonOperation_iff {type : TokenType} {operation : BinaryOperation} :
    Parser.comparisonOperation type = some operation ↔ (type, operation) ∈ comparisons := by
  constructor
  · intro h
    unfold Parser.comparisonOperation at h
    split at h
    all_goals cases h
    all_goals decide
  · have htable : ∀ entry ∈ comparisons, Parser.comparisonOperation entry.1 = some entry.2 := by
      decide
    exact htable _

/-- The types of tokens that could continue a predicate. -/
def predicateContinuing : List TokenType := .is :: comparisons.map (·.1)

private theorem mem_continuing {type : TokenType} {operation : BinaryOperation}
    (h : (type, operation) ∈ comparisons) : type ∈ predicateContinuing :=
  List.mem_cons_of_mem _ (List.mem_map_of_mem h)

private theorem parseIsNull (left : Expression) :
    Recognizes continuing p (fun ts e => ts = [.word .null] ∧ e = .isNull left false ∨
      ts = [.word .not, .word .null] ∧ e = .isNull left true) (Parser.parseIsNull left p) := by
  have hnull : ∀ (q : Parser) (isNot : Bool), Recognizes continuing q
      (Shift (.word .null) (Done (.isNull left isNot)))
      (Parser.expect .null "Expected NULL after IS or IS NOT" q >>= fun q =>
        Except.ok (Expression.isNull left isNot, q)) :=
    fun q isNot => expect (by decide) fun q' _ _ => pure continuing _ q'
  unfold Parser.parseIsNull Parser.isExpectedToken
  by_cases h : p.current.type = .not
  · rw [if_pos (beq_iff_eq.mpr h)]
    refine (word (by rw [h]; decide) fun q _ => hnull q true).congr ?_ ?_
    · rintro _ _ ⟨_, rfl, _, rfl, rfl, rfl⟩
      rw [h]
      exact Or.inr ⟨rfl, rfl⟩
    · rintro _ _ r (⟨rfl, rfl⟩ | ⟨rfl, rfl⟩) hrun -
      · exact absurd (h.symm.trans hrun.type_eq) (by decide)
      · rw [h]
        exact ⟨_, rfl, _, rfl, rfl, rfl⟩
  · rw [if_neg (fun hbeq => h (beq_iff_eq.mp hbeq))]
    refine (hnull p false).congr ?_ ?_
    · rintro _ _ ⟨_, rfl, rfl, rfl⟩
      exact Or.inl ⟨rfl, rfl⟩
    · rintro _ _ r (⟨rfl, rfl⟩ | ⟨rfl, rfl⟩) hrun -
      · exact ⟨_, rfl, rfl, rfl⟩
      · exact absurd hrun.type_eq h

private theorem parsePredicateTail {operand : Parser → Parsed (Expression × Parser)}
    (left : Expression) (hoperand : ∀ q, q.size < p.size →
      Recognizes [] q (Derives .atomic) (operand q)) :
    Recognizes predicateContinuing p (PredicateTail left)
      (Parser.parsePredicateTail operand left p) := by
  unfold Parser.parsePredicateTail Parser.isExpectedToken
  by_cases h : p.current.type = .is
  · rw [if_pos (beq_iff_eq.mpr h)]
    refine (word (by rw [h]; decide) fun q _ => parseIsNull left).congr ?_ ?_
    · rintro _ _ ⟨_, rfl, ⟨rfl, rfl⟩ | ⟨rfl, rfl⟩⟩
      · rw [h]
        exact .isNull
      · rw [h]
        exact .isNotNull
    · intro ts e r htail hrun hends
      rw [h]
      cases htail with
      | none => exact absurd (by rw [h]; decide) (hends p hrun.nil_eq)
      | isNull => exact ⟨_, rfl, Or.inl ⟨rfl, rfl⟩⟩
      | isNotNull => exact ⟨_, rfl, Or.inr ⟨rfl, rfl⟩⟩
      | comparison hoperation =>
        rw [← hrun.word_type, ← comparisonOperation_iff, h] at hoperation
        cases hoperation
  · rw [if_neg (fun hbeq => h (beq_iff_eq.mp hbeq))]
    rcases hcomparison : Parser.comparisonOperation p.current.type with _ | operation
    · refine (pure predicateContinuing left p).congr ?_ ?_
      · rintro _ _ ⟨rfl, rfl⟩
        exact .none
      · intro ts e r htail hrun hends
        cases htail with
        | none => exact ⟨rfl, rfl⟩
        | isNull => exact absurd hrun.type_eq h
        | isNotNull => exact absurd hrun.type_eq h
        | comparison hoperation =>
          rw [← hrun.word_type, ← comparisonOperation_iff, hcomparison] at hoperation
          cases hoperation
    · have hmem := comparisonOperation_iff.mp hcomparison
      have hend : p.current.type ≠ .endOfFile := by
        intro hend
        rw [hend] at hcomparison
        cases hcomparison
      refine (word hend fun q hq => bind (D := Derives .atomic)
        (E := fun right => Done (Expression.binary operation left right))
        (hoperand q (size_advance hq hend)) (fun right q' _ _ _ => pure _ _ q')
        (fun right => ⟨[], _, rfl, rfl⟩) ?_).congr ?_ ?_
      · rintro right ts e ⟨rfl, -⟩ type hmem
        cases hmem
      · rintro _ _ ⟨_, rfl, us, right, vs, hright, ⟨rfl, rfl⟩, rfl⟩
        rw [List.append_nil]
        exact .comparison hmem hright
      · intro ts e r htail hrun hends
        cases htail with
        | none => exact absurd (mem_continuing hmem) (hends p hrun.nil_eq)
        | isNull => exact absurd hrun.type_eq h
        | isNotNull => exact absurd hrun.type_eq h
        | comparison hoperation hright =>
          rw [← hrun.word_type, ← comparisonOperation_iff, hcomparison] at hoperation
          cases hoperation
          exact ⟨_, by rw [hrun.word_type], _, _, _, hright, ⟨rfl, rfl⟩, by rw [List.append_nil]⟩

def andContinuing : List TokenType := .and :: predicateContinuing

def orContinuing : List TokenType := .or :: andContinuing

/-- The functions for expressions recognize their levels with this many rounds. -/
private structure Levels (fuel : Nat) : Prop where
  or (p : Parser) (hfuel : 6 * p.size + 5 ≤ fuel) :
    Recognizes orContinuing p (Derives .or) (Parser.parseOrExpression fuel p)
  and (p : Parser) (hfuel : 6 * p.size + 4 ≤ fuel) :
    Recognizes andContinuing p (Derives .and) (Parser.parseAndExpression fuel p)
  not (p : Parser) (hfuel : 6 * p.size + 3 ≤ fuel) :
    Recognizes predicateContinuing p (Derives .not) (Parser.parseNotExpression fuel p)
  predicate (p : Parser) (hfuel : 6 * p.size + 2 ≤ fuel) :
    Recognizes predicateContinuing p (Derives .predicate) (Parser.parsePredicateExpression fuel p)
  atomic (p : Parser) (hfuel : 6 * p.size + 1 ≤ fuel) :
    Recognizes [] p (Derives .atomic) (Parser.parseAtomicExpression fuel p)

/-- A left-recursive rule derives what an operand and a loop over its operator read. -/
private theorem leftRecursive {separator : TokenType} {operation : BinaryOperation}
    {D E : List Terminal → Expression → Prop}
    (hE : ∀ ts e, E ts e ↔ D ts e ∨ ∃ us left vs right, E us left ∧ D vs right ∧
      ts = us ++ .word separator :: vs ∧ e = .binary operation left right)
    (ts : List Terminal) (e : Expression) :
    E ts e ↔ Sequence D (fun left => Tail separator (.binary operation) D left) ts e := by
  constructor
  · intro h
    induction hlength : ts.length using Nat.strong_induction_on generalizing ts e with
    | _ n ih =>
      rcases (hE ts e).mp h with hD | ⟨us, left, vs, right, hleft, hright, rfl, rfl⟩
      · exact ⟨ts, e, [], hD, .nil e, (List.append_nil ts).symm⟩
      · obtain ⟨xs, first, ys, hfirst, htail, rfl⟩ :=
          ih us.length (by rw [← hlength, List.length_append, List.length_cons]; omega) us left
            hleft rfl
        exact ⟨xs, first, _, hfirst, htail.snoc hright, List.append_assoc _ _ _⟩
  · rintro ⟨us, left, vs, hD, htail, rfl⟩
    have hleft : E us left := (hE us left).mpr (Or.inl hD)
    clear hD
    induction htail generalizing us with
    | nil state => rwa [List.append_nil]
    | cons hitem _ ih =>
      rw [← List.cons_append, ← List.append_assoc]
      exact ih _ ((hE _ _).mpr (Or.inr ⟨us, _, _, _, hleft, hitem, rfl, rfl⟩))

/-- An operand, and a loop over its operator. -/
private theorem operators {fuel : Nat} {separator : TokenType} {operation : BinaryOperation}
    {tighter : List TokenType} {D E : List Terminal → Expression → Prop}
    {operand : Parser → Parsed (Expression × Parser)}
    (hend : separator ≠ .endOfFile) (hseparator : separator ∉ tighter) (hfuel : p.size < fuel)
    (hoperand : ∀ q, q.size ≤ p.size → Recognizes tighter q D (operand q))
    (hE : ∀ ts e, E ts e ↔ D ts e ∨ ∃ us left vs right, E us left ∧ D vs right ∧
      ts = us ++ .word separator :: vs ∧ e = .binary operation left right) :
    Recognizes (separator :: tighter) p E (operand p >>= fun r =>
      Parser.operatorLoop separator operation operand fuel r.1 r.2) := by
  have hsub : tighter ⊆ separator :: tighter := List.subset_cons_self _ _
  refine (bind (hoperand p le_rfl) (E := fun left => Tail separator (.binary operation) D left)
    ?_ (fun left => ⟨[], left, .nil left⟩) (fun left ts e h => h.leads hseparator hsub)).congr ?_ ?_
  · intro left q ts _ hrun
    have hle := hrun.size_le
    rw [operatorLoop_eq]
    apply recognizes_foldLoop hend hseparator List.mem_cons_self hsub
    · omega
    · exact fun q' hq' => hoperand q' (by omega)
  · exact fun ts e h => (leftRecursive hE ts e).mpr h
  · exact fun ts e r h _ _ => (leftRecursive hE ts e).mp h

/-- An atomic expression starts with a parenthesis, a name or a literal. -/
private theorem atomic_first {ts : List Terminal} {e : Expression} (h : Derives .atomic ts e) :
    ∃ t us, ts = t :: us ∧ t.type ≠ .not := by
  cases h with
  | column htype =>
    refine ⟨_, _, rfl, ?_⟩
    rcases htype with rfl | rfl
    all_goals exact fun h => nomatch h
  | literal h =>
    refine ⟨_, _, rfl, ?_⟩
    rintro rfl
    obtain ⟨_, h, -⟩ := h
    cases h
  | parentheses h => exact ⟨_, _, rfl, fun h => nomatch h⟩

private theorem predicate_first {ts : List Terminal} {e : Expression}
    (h : Derives .predicate ts e) : ∃ t us, ts = t :: us ∧ t.type ≠ .not := by
  cases h with
  | predicateOperand h => exact atomic_first h
  | comparison h =>
    obtain ⟨t, us, rfl, ht⟩ := atomic_first h
    exact ⟨t, _, rfl, ht⟩
  | isNull h =>
    obtain ⟨t, us, rfl, ht⟩ := atomic_first h
    exact ⟨t, _, rfl, ht⟩
  | isNotNull h =>
    obtain ⟨t, us, rfl, ht⟩ := atomic_first h
    exact ⟨t, _, rfl, ht⟩

private theorem levels (fuel : Nat) : Levels fuel := by
  induction fuel with
  | zero => exact ⟨by omega, by omega, by omega, by omega, by omega⟩
  | succ fuel ih =>
    constructor
    case or =>
      intro p hfuel
      rw [Parser.parseOrExpression]
      apply operators (by decide) (by decide) (by omega) fun q hq => ih.and q (by omega)
      intro ts e
      constructor
      · intro h
        cases h with
        | orOperand h => exact Or.inl h
        | or hleft hright => exact Or.inr ⟨_, _, _, _, hleft, hright, rfl, rfl⟩
      · rintro (h | ⟨us, left, vs, right, hleft, hright, rfl, rfl⟩)
        · exact .orOperand h
        · exact .or hleft hright
    case and =>
      intro p hfuel
      rw [Parser.parseAndExpression]
      apply operators (by decide) (by decide) (by omega) fun q hq => ih.not q (by omega)
      intro ts e
      constructor
      · intro h
        cases h with
        | andOperand h => exact Or.inl h
        | and hleft hright => exact Or.inr ⟨_, _, _, _, hleft, hright, rfl, rfl⟩
      · rintro (h | ⟨us, left, vs, right, hleft, hright, rfl, rfl⟩)
        · exact .andOperand h
        · exact .and hleft hright
    case not =>
      intro p hfuel
      rw [Parser.parseNotExpression, Parser.isExpectedToken]
      by_cases h : p.current.type = .not
      · rw [if_pos (beq_iff_eq.mpr h)]
        have hend : p.current.type ≠ .endOfFile := by rw [h]; decide
        refine (word hend fun q hq => bind (D := Derives .not)
          (E := fun e => Done (Expression.unary .not e)) (ih.not q ?_)
          (fun e q' _ _ _ => pure _ _ q') (fun e => ⟨[], _, rfl, rfl⟩) ?_).congr ?_ ?_
        · have hlt := size_advance hq hend
          omega
        · rintro e ts e' ⟨rfl, -⟩ type hmem
          exact hmem
        · rintro _ _ ⟨_, rfl, us, e, vs, he, ⟨rfl, rfl⟩, rfl⟩
          rw [h, List.append_nil]
          exact .not he
        · intro ts e r hD hrun hends
          cases hD with
          | notOperand hD =>
            obtain ⟨t, us, rfl, ht⟩ := predicate_first hD
            exact absurd (hrun.type_eq.symm.trans h) ht
          | not hD =>
            rw [h]
            exact ⟨_, rfl, _, _, _, hD, ⟨rfl, rfl⟩, (List.append_nil _).symm⟩
      · rw [if_neg (fun hbeq => h (beq_iff_eq.mp hbeq))]
        refine (ih.predicate p (by omega)).congr (fun ts e hD => .notOperand hD) ?_
        intro ts e r hD hrun hends
        cases hD with
        | notOperand hD => exact hD
        | not hD => exact absurd hrun.word_type h
    case predicate =>
      intro p hfuel
      rw [Parser.parsePredicateExpression]
      refine (bind (ih.atomic p (by omega)) (E := PredicateTail) ?_ (fun e => ⟨[], e, .none⟩)
        ?_).congr ?_ ?_
      · intro left q ts _ hrun
        have hle := hrun.size_le
        apply parsePredicateTail left
        exact fun q' hq' => ih.atomic q' (by omega)
      · intro left ts e htail
        cases htail with
        | none => exact fun type hmem => nomatch hmem
        | isNull => exact List.not_mem_nil
        | isNotNull => exact List.not_mem_nil
        | comparison => exact List.not_mem_nil
      · rintro _ e ⟨us, left, vs, hleft, htail, rfl⟩
        cases htail with
        | none =>
          rw [List.append_nil]
          exact .predicateOperand hleft
        | isNull => exact .isNull hleft
        | isNotNull => exact .isNotNull hleft
        | comparison hoperation hright => exact .comparison hleft hoperation hright
      · intro ts e r hD hrun hends
        cases hD with
        | predicateOperand h => exact ⟨_, _, _, h, .none, (List.append_nil _).symm⟩
        | comparison hleft hoperation hright =>
          exact ⟨_, _, _, hleft, .comparison hoperation hright, rfl⟩
        | isNull h => exact ⟨_, _, _, h, .isNull, rfl⟩
        | isNotNull h => exact ⟨_, _, _, h, .isNotNull, rfl⟩
    case atomic =>
      intro p hfuel
      rw [Parser.parseAtomicExpression, Parser.isExpectedToken]
      by_cases h : p.current.type = .lParen
      · rw [if_pos (beq_iff_eq.mpr h)]
        have hend : p.current.type ≠ .endOfFile := by rw [h]; decide
        refine (word hend fun q hq => bind (ih.or q ?_)
          (E := fun e => Shift (.word .rParen) (Done e))
          (fun e q' _ _ _ => expect (by decide) fun q'' _ _ => pure _ e q'')
          (fun e => ⟨_, e, _, rfl, rfl, rfl⟩) ?_).congr ?_ ?_
        · have hlt := size_advance hq hend
          omega
        · rintro e ts e' ⟨us, rfl, -⟩
          exact (by decide : TokenType.rParen ∉ orContinuing)
        · rintro _ _ ⟨_, rfl, us, e, vs, he, ⟨_, rfl, rfl, rfl⟩, rfl⟩
          rw [h]
          exact .parentheses he
        · intro ts e r hD hrun hends
          rw [h]
          cases hD with
          | column htype =>
            rw [← hrun.name_type, h] at htype
            rcases htype with h | h
            all_goals cases h
          | literal hD =>
            obtain ⟨value, hvalue, -⟩ := hD
            rw [← hrun.literal_type, h] at hvalue
            cases hvalue
          | parentheses he => exact ⟨_, rfl, _, _, _, he, ⟨_, rfl, rfl, rfl⟩, rfl⟩
      · rw [if_neg (fun hbeq => h (beq_iff_eq.mp hbeq))]
        refine parseOperand.congr ?_ ?_
        · intro ts e hoperand
          cases hoperand with
          | column htype => exact .column htype
          | literal h => exact .literal h
        · intro ts e r hD hrun hends
          cases hD with
          | column htype => exact .column htype
          | literal h => exact .literal h
          | parentheses hD => exact absurd hrun.word_type h

theorem parseOrExpression {fuel : Nat} (hfuel : 6 * p.size + 5 ≤ fuel) :
    Recognizes orContinuing p (Derives .or) (Parser.parseOrExpression fuel p) :=
  (levels fuel).or p hfuel

/-! ## Lists -/

variable {α : Type}

private theorem tail_iff {D : List Terminal → α → Prop} {items result : List α}
    {ts : List Terminal} :
    Tail .comma (fun items next => items ++ [next]) D items ts result ↔
      (ts = [] ∧ result = items) ∨
      ∃ us rest, ts = .word .comma :: us ∧ Separated D us rest ∧ result = items ++ rest := by
  constructor
  · intro h
    induction h with
    | nil items => exact Or.inl ⟨rfl, rfl⟩
    | cons ha _ ih =>
      right
      rcases ih with ⟨rfl, rfl⟩ | ⟨us, rest, rfl, hrest, rfl⟩
      · exact ⟨_, _, rfl, by rw [List.append_nil]; exact .one ha, rfl⟩
      · exact ⟨_, _, rfl, .cons ha hrest, List.append_assoc _ _ _⟩
  · rintro (⟨rfl, rfl⟩ | ⟨us, rest, rfl, hrest, rfl⟩)
    · exact .nil _
    · induction hrest generalizing items with
      | @one ts a ha =>
        have htail : Tail .comma (fun items next => items ++ [next]) D items
            (.word .comma :: (ts ++ [])) (items ++ [a]) := .cons ha (.nil _)
        rwa [List.append_nil] at htail
      | @cons ts us a rest ha _ ih =>
        have htail : Tail .comma (fun items next => items ++ [next]) D items
            (.word .comma :: (ts ++ .word .comma :: us)) (items ++ [a] ++ rest) := .cons ha ih
        rwa [List.append_assoc] at htail

private theorem separated_iff {D : List Terminal → α → Prop} {ts : List Terminal}
    {items : List α} :
    Separated D ts items ↔
      Sequence D (fun a => Tail .comma (fun items next => items ++ [next]) D [a]) ts items := by
  constructor
  · intro h
    cases h with
    | one ha => exact ⟨_, _, [], ha, .nil _, (List.append_nil _).symm⟩
    | cons ha hrest => exact ⟨_, _, _, ha, tail_iff.mpr (Or.inr ⟨_, _, rfl, hrest, rfl⟩), rfl⟩
  · rintro ⟨us, a, vs, ha, htail, rfl⟩
    rcases tail_iff.mp htail with ⟨rfl, rfl⟩ | ⟨ws, rest, rfl, hrest, rfl⟩
    · rw [List.append_nil]
      exact .one ha
    · exact .cons ha hrest

/-- Items between commas, none of which a comma could continue. -/
theorem commaList {D : List Terminal → α → Prop} {first item : Parser → Parsed (α × Parser)}
    {following : List TokenType} {fuel : Nat} (hcomma : .comma ∉ following)
    (hfuel : p.size < fuel) (hfirst : Recognizes following p D (first p))
    (hitem : ∀ q, q.size ≤ p.size → Recognizes following q D (item q)) :
    Recognizes (.comma :: following) p (Separated D) (Parser.commaList first item fuel p) := by
  have hsub : following ⊆ .comma :: following := List.subset_cons_self _ _
  refine (bind hfirst (E := fun a => Tail .comma (fun items next => items ++ [next]) D [a])
    ?_ (fun a => ⟨[], [a], .nil _⟩) (fun a ts items h => h.leads hcomma hsub)).congr ?_ ?_
  · intro a q ts _ hrun
    have hle := hrun.size_le
    dsimp only
    rw [commaLoop_eq]
    apply recognizes_foldLoop (by decide) hcomma List.mem_cons_self hsub
    · omega
    · exact fun q' hq' => hitem q' (by omega)
  · exact fun ts items h => separated_iff.mpr h
  · exact fun ts items r h _ _ => separated_iff.mp h

/-- A choice on the type of a token that may stand behind what was read. -/
private theorem ends_not_mem {r : Option Parser} {type : TokenType} (hrun : Follows p [] r)
    (hends : Ends continuing r) (htype : p.current.type = type) (hmem : type ∈ continuing) :
    False := hends p hrun.nil_eq (htype ▸ hmem)

/-! ## CREATE TABLE -/

private theorem dataType_iff {type : TokenType} {dataType : DataType} :
    Parser.dataType type = some dataType ↔ (type, dataType) ∈ columnTypes := by
  constructor
  · intro h
    unfold Parser.dataType at h
    split at h
    all_goals cases h
    all_goals decide
  · have htable : ∀ entry ∈ columnTypes, Parser.dataType entry.1 = some entry.2 := by decide
    exact htable _

/-- The types of tokens that may stand behind a column's type. -/
def columnContinuing : List TokenType := [.key, .null, .not]

private theorem parseColumnModifier (column : ColumnDefinition) :
    Recognizes columnContinuing p (Modifier column) (Parser.parseColumnModifier column p) := by
  unfold Parser.parseColumnModifier
  split
  · rename_i h
    have hend : p.current.type ≠ .endOfFile := by rw [h]; decide
    refine (word hend fun q _ => pure _ { column with isKey := true } q).congr ?_ ?_
    · rintro _ _ ⟨_, rfl, rfl, rfl⟩
      rw [h]
      exact .key
    · intro ts c r hD hrun hends
      cases hD with
      | none => exact (ends_not_mem hrun hends h (by decide)).elim
      | key => exact ⟨_, by rw [h], rfl, rfl⟩
      | null => exact nomatch h.symm.trans hrun.word_type
      | notNull => exact nomatch h.symm.trans hrun.word_type
  · rename_i h
    have hend : p.current.type ≠ .endOfFile := by rw [h]; decide
    refine (word hend fun q _ => pure _ { column with nullable := true } q).congr ?_ ?_
    · rintro _ _ ⟨_, rfl, rfl, rfl⟩
      rw [h]
      exact .null
    · intro ts c r hD hrun hends
      cases hD with
      | none => exact (ends_not_mem hrun hends h (by decide)).elim
      | key => exact nomatch h.symm.trans hrun.word_type
      | null => exact ⟨_, by rw [h], rfl, rfl⟩
      | notNull => exact nomatch h.symm.trans hrun.word_type
  · rename_i h
    have hend : p.current.type ≠ .endOfFile := by rw [h]; decide
    refine (word hend fun q _ => expect (by decide)
      fun q' _ _ => pure _ { column with nullable := false } q').congr ?_ ?_
    · rintro _ _ ⟨_, rfl, _, rfl, rfl, rfl⟩
      rw [h]
      exact .notNull
    · intro ts c r hD hrun hends
      cases hD with
      | none => exact (ends_not_mem hrun hends h (by decide)).elim
      | key => exact nomatch h.symm.trans hrun.word_type
      | null => exact nomatch h.symm.trans hrun.word_type
      | notNull => exact ⟨_, by rw [h], _, rfl, rfl, rfl⟩
  · rename_i hkey hnull hnot
    refine (pure _ column p).congr ?_ ?_
    · rintro _ _ ⟨rfl, rfl⟩
      exact .none
    · intro ts c r hD hrun hends
      cases hD with
      | none => exact ⟨rfl, rfl⟩
      | key => exact (hkey hrun.word_type).elim
      | null => exact (hnull hrun.word_type).elim
      | notNull => exact (hnot hrun.word_type).elim

/-- The type of a column and its modifier. -/
private def ColumnType (name : Bytes) (ts : List Terminal) (column : ColumnDefinition) : Prop :=
  ∃ word dataType us, (word, dataType) ∈ columnTypes ∧ ts = .word word :: us ∧
    Modifier { name := name, type := dataType } us column

private theorem parseColumnType (name : Bytes) :
    Recognizes columnContinuing p (ColumnType name) (Parser.parseColumnType name p) := by
  unfold Parser.parseColumnType
  rcases htype : Parser.dataType p.current.type with _ | dataType
  · apply fail
    rintro _ c r ⟨word, dataType, us, hword, rfl, -⟩ hrun -
    rw [← hrun.word_type, ← dataType_iff, htype] at hword
    cases hword
  · have hend : p.current.type ≠ .endOfFile := by
      intro hend
      rw [hend] at htype
      cases htype
    refine (word hend fun q _ =>
      parseColumnModifier { name := name, type := dataType }).congr ?_ ?_
    · rintro _ c ⟨us, rfl, hmodifier⟩
      exact ⟨_, _, us, dataType_iff.mp htype, rfl, hmodifier⟩
    · rintro _ c r ⟨word, dataType', us, hword, rfl, hmodifier⟩ hrun -
      rw [← hrun.word_type, ← dataType_iff, htype] at hword
      cases hword
      exact ⟨us, by rw [hrun.word_type], hmodifier⟩

private theorem columnTypes_some (name : Bytes) : ∃ ts column, ColumnType name ts column :=
  ⟨_, _, _, _, [], List.mem_cons_self, rfl, .none⟩

theorem parseColumnDefinition :
    Recognizes columnContinuing p Column (Parser.parseColumnDefinition p) := by
  refine (bind (expectColumnName []) (E := ColumnType)
    (fun name q _ _ _ => parseColumnType name) columnTypes_some ?_).congr ?_ ?_
  · rintro name _ c ⟨word, dataType, us, -, rfl, -⟩
    exact List.not_mem_nil
  · rintro _ c ⟨_, name, _, ⟨htype⟩, ⟨word, dataType, us, hword, rfl, hmodifier⟩, rfl⟩
    exact .intro htype hword hmodifier
  · rintro _ c r ⟨htype, hword, hmodifier⟩ - -
    exact ⟨_, _, _, .intro htype, ⟨_, _, _, hword, rfl, hmodifier⟩, rfl⟩

/-- A grammar that ends in a word leads out of every list in which that word is not. -/
private theorem leads_shift {type : TokenType} {following : List TokenType}
    {D : List Terminal → α → Prop} {ts : List Terminal} {a : α} (h : Shift (.word type) D ts a)
    (hmem : type ∉ following) : Leads continuing following ts := by
  obtain ⟨us, rfl, -⟩ := h
  exact hmem

/-- The name of a table, then what `D` derives. -/
private def Named (D : Bytes → List Terminal → α → Prop) (ts : List Terminal) (a : α) : Prop :=
  ∃ name us, ts = .name .identifier name :: us ∧ D name us a

private theorem table {D : Bytes → List Terminal → α → Prop} {message : String}
    {k : Bytes × Parser → Parsed (α × Parser)} (hsome : ∀ name, ∃ us a, D name us a)
    (hk : ∀ name q, q.size < p.size → Recognizes continuing q (D name) (k (name, q))) :
    Recognizes continuing p (Named D) (Parser.expectTableName message p >>= k) := by
  refine (bind (expectTableName []) (E := D) ?_ hsome ?_).congr ?_ ?_
  · rintro name q _ rfl hrun
    exact hk name q (Nat.lt_of_succ_le hrun.size_le)
  · intro name ts a _
    cases ts with
    | nil => exact fun _ h => nomatch h
    | cons t ts => exact List.not_mem_nil
  · rintro _ a ⟨_, name, us, rfl, hD, rfl⟩
    exact ⟨name, us, rfl, hD⟩
  · rintro _ a r ⟨name, us, rfl, hD⟩ - -
    exact ⟨_, name, us, rfl, hD, rfl⟩

private theorem exists_separated {D : List Terminal → α → Prop} (h : ∃ ts a, D ts a) :
    ∃ ts items, Separated D ts items := by
  obtain ⟨ts, a, ha⟩ := h
  exact ⟨ts, [a], .one ha⟩

private theorem exists_columns : ∃ ts columns, Separated Column ts columns :=
  exists_separated ⟨[.name .identifier [], .word .stringType], _,
    .intro (Or.inl rfl) List.mem_cons_self .none⟩

theorem parseCreateTableStatement {fuel : Nat} (hfuel : p.size < fuel) :
    Recognizes continuing p (fun ts s => Sentence ts (.createTable s))
      (Parser.parseCreateTableStatement fuel p) := by
  have h : Recognizes continuing p
      (Shift (.word .create) <| Shift (.word .table) <| Named fun name =>
        Shift (.word .lParen) <| Sequence (Separated Column) fun columns =>
        Shift (.word .rParen) <| Shift (.word .semicolon) <| Done ⟨name, columns⟩)
      (Parser.parseCreateTableStatement fuel p) := by
    apply expect (by decide)
    intro p₁ _ h₁
    apply expect (by decide)
    intro p₂ _ h₂
    apply table
    · exact fun name => exists_shift _ (exists_sequence exists_columns
        fun columns => exists_shift _ (exists_shift _ (exists_done _)))
    intro name p₃ h₃
    apply expect (by decide)
    intro p₄ _ h₄
    apply bind (commaList (by decide) (by omega) parseColumnDefinition
      fun _ _ => parseColumnDefinition)
    · intro columns p₅ _ _ _
      apply expect (by decide)
      intro p₆ _ _
      apply expect (by decide)
      intro p₇ _ _
      exact pure _ _ p₇
    · exact fun columns => exists_shift _ (exists_shift _ (exists_done _))
    · exact fun columns ts s h => leads_shift h (by decide)
  apply h.congr
  · rintro _ s ⟨_, rfl, _, rfl, name, _, rfl, _, rfl, ts, columns, _, hcolumns,
      ⟨_, rfl, _, rfl, rfl, rfl⟩, rfl⟩
    exact .createTable hcolumns
  · intro ts s r hs _ _
    cases hs with
    | createTable hcolumns =>
      exact ⟨_, rfl, _, rfl, _, _, rfl, _, rfl, _, _, _, hcolumns, ⟨_, rfl, _, rfl, rfl, rfl⟩, rfl⟩

/-! ## INSERT -/

private theorem exists_columnNames : ∃ ts names, Separated ColumnName ts names :=
  exists_separated ⟨_, [], .intro (Or.inl rfl)⟩

private theorem exists_literals : ∃ ts values, Separated Literal ts values :=
  exists_separated ⟨[.literal .null []], .nullLiteral, .intro ⟨_, rfl, fun _ h => by cases h; rfl⟩⟩

theorem parseInsertStatement {fuel : Nat} (hfuel : p.size < fuel) :
    Recognizes continuing p (fun ts s => Sentence ts (.insert s))
      (Parser.parseInsertStatement fuel p) := by
  have h : Recognizes continuing p
      (Shift (.word .insert) <| Shift (.word .into) <| Named fun name =>
        Shift (.word .lParen) <| Sequence (Separated ColumnName) fun columns =>
        Shift (.word .rParen) <| Shift (.word .values) <| Shift (.word .lParen) <|
        Sequence (Separated Literal) fun values =>
        Shift (.word .rParen) <| Shift (.word .semicolon) <| Done ⟨name, columns, values⟩)
      (Parser.parseInsertStatement fuel p) := by
    apply expect (by decide)
    intro p₁ _ h₁
    apply expect (by decide)
    intro p₂ _ h₂
    apply table
    · exact fun name => exists_shift _ (exists_sequence exists_columnNames fun columns =>
        exists_shift _ (exists_shift _ (exists_shift _ (exists_sequence exists_literals
          fun values => exists_shift _ (exists_shift _ (exists_done _))))))
    intro name p₃ h₃
    apply expect (by decide)
    intro p₄ _ h₄
    apply bind (commaList (by decide) (by omega) (expectColumnName [])
      fun _ _ => expectColumnName [])
    · intro columns p₅ ts _ hrun
      have h₅ := hrun.size_le
      apply expect (by decide)
      intro p₆ _ h₆
      apply expect (by decide)
      intro p₇ _ h₇
      apply expect (by decide)
      intro p₈ _ h₈
      apply bind (commaList (by decide) (by omega) (parseLiteralExpression [])
        fun _ _ => parseLiteralExpression [])
      · intro values p₉ _ _ _
        apply expect (by decide)
        intro p₁₀ _ _
        apply expect (by decide)
        intro p₁₁ _ _
        exact pure _ _ p₁₁
      · exact fun values => exists_shift _ (exists_shift _ (exists_done _))
      · exact fun values ts s h => leads_shift h (by decide)
    · exact fun columns => exists_shift _ (exists_shift _ (exists_shift _ (exists_sequence
        exists_literals fun values => exists_shift _ (exists_shift _ (exists_done _)))))
    · exact fun columns ts s h => leads_shift h (by decide)
  apply h.congr
  · rintro _ s ⟨_, rfl, _, rfl, name, _, rfl, _, rfl, ts, columns, _, hcolumns,
      ⟨_, rfl, _, rfl, _, rfl, us, values, _, hvalues, ⟨_, rfl, _, rfl, rfl, rfl⟩, rfl⟩, rfl⟩
    have hsentence := @Sentence.insert name _ _ _ _ hcolumns hvalues
    simp only [List.append_assoc, List.cons_append, List.nil_append] at hsentence
    exact hsentence
  · intro ts s r hs _ _
    cases hs with
    | insert hcolumns hvalues =>
      simp only [List.append_assoc, List.cons_append, List.nil_append]
      exact ⟨_, rfl, _, rfl, _, _, rfl, _, rfl, _, _, _, hcolumns,
        ⟨_, rfl, _, rfl, _, rfl, _, _, _, hvalues, ⟨_, rfl, _, rfl, rfl, rfl⟩, rfl⟩, rfl⟩

/-! ## SELECT -/

/-- The types of tokens that start an expression. -/
private def expressionStart : List TokenType :=
  [.not, .lParen, .identifier, .key, .stringLiteral, .intLiteral, .doubleLiteral, .null]

private theorem derives_first {level : Level} {ts : List Terminal} {e : Expression}
    (h : Derives level ts e) : ∃ t us, ts = t :: us ∧ t.type ∈ expressionStart := by
  have happend : ∀ {us : List Terminal} (vs : List Terminal),
      (∃ t ws, us = t :: ws ∧ t.type ∈ expressionStart) →
      ∃ t ws, us ++ vs = t :: ws ∧ t.type ∈ expressionStart := by
    rintro _ vs ⟨t, ws, rfl, ht⟩
    exact ⟨t, ws ++ vs, rfl, ht⟩
  induction h with
  | orOperand _ ih => exact ih
  | or _ _ ih => exact happend _ ih
  | andOperand _ ih => exact ih
  | and _ _ ih => exact happend _ ih
  | notOperand _ ih => exact ih
  | not => exact ⟨_, _, rfl, List.mem_cons_self⟩
  | predicateOperand _ ih => exact ih
  | comparison _ _ _ ih => exact happend _ ih
  | isNull _ ih => exact happend _ ih
  | isNotNull _ ih => exact happend _ ih
  | column htype =>
    refine ⟨_, _, rfl, ?_⟩
    rcases htype with rfl | rfl
    all_goals
      rw [Terminal.type]
      decide
  | @literal type text _ h =>
    refine ⟨_, _, rfl, ?_⟩
    obtain ⟨value, hvalue, -⟩ := h
    unfold Parser.literal at hvalue
    rw [Terminal.type]
    split at hvalue
    any_goals decide
    cases hvalue
  | parentheses => exact ⟨_, _, rfl, List.mem_cons_of_mem _ List.mem_cons_self⟩

private theorem aggregateKind_iff {type : TokenType} {kind : AggregateKind} :
    Parser.aggregateKind type = some kind ↔ (type, kind) ∈ aggregates := by
  constructor
  · intro h
    unfold Parser.aggregateKind at h
    split at h
    all_goals cases h
    all_goals decide
  · have htable : ∀ entry ∈ aggregates, Parser.aggregateKind entry.1 = some entry.2 := by decide
    exact htable _

private theorem aggregateKind_eq_none {type : TokenType} (h : type ∈ expressionStart) :
    Parser.aggregateKind type = none := by
  have htable : ∀ type ∈ expressionStart, Parser.aggregateKind type = none := by decide
  exact htable type h

theorem parseSelectItem {fuel : Nat} (hfuel : 6 * p.size + 5 ≤ fuel) :
    Recognizes orContinuing p Item (Parser.parseSelectItem fuel p) := by
  unfold Parser.parseSelectItem Parser.isExpectedToken
  by_cases h : p.current.type = .star
  · rw [if_pos (beq_iff_eq.mpr h)]
    refine (word (by rw [h]; decide) fun q _ => pure _ SelectItem.star q).congr ?_ ?_
    · rintro _ _ ⟨_, rfl, rfl, rfl⟩
      rw [h]
      exact .star
    · intro ts item r hD hrun hends
      cases hD with
      | star => exact ⟨_, by rw [h], rfl, rfl⟩
      | expression hD =>
        obtain ⟨t, us, rfl, ht⟩ := derives_first hD
        rw [← hrun.type_eq, h] at ht
        exact absurd ht (by decide)
      | aggregate hkind =>
        rw [← hrun.word_type, ← aggregateKind_iff, h] at hkind
        cases hkind
  · rw [if_neg (fun hbeq => h (beq_iff_eq.mp hbeq))]
    unfold Parser.parseSelectExpression
    rcases hkind : Parser.aggregateKind p.current.type with _ | kind
    · refine (bind (parseOrExpression hfuel) (E := fun e => Done (SelectItem.expression e))
        (fun e q _ _ _ => pure _ _ q) (fun e => exists_done _) ?_).congr ?_ ?_
      · rintro e _ _ ⟨rfl, rfl⟩
        exact fun type hmem => hmem
      · rintro _ _ ⟨ts, e, _, he, ⟨rfl, rfl⟩, rfl⟩
        rw [List.append_nil]
        exact .expression he
      · intro ts item r hD hrun hends
        cases hD with
        | star => exact absurd hrun.word_type h
        | expression he => exact ⟨_, _, _, he, ⟨rfl, rfl⟩, (List.append_nil _).symm⟩
        | aggregate hmem =>
          rw [← hrun.word_type, ← aggregateKind_iff, hkind] at hmem
          cases hmem
    · have hend : p.current.type ≠ .endOfFile := by
        intro hend
        rw [hend] at hkind
        cases hkind
      have hitem : Recognizes orContinuing p
          (Shift (.word p.current.type) <| Shift (.word .lParen) <|
            Sequence (Derives .or) fun e => Shift (.word .rParen) <| Done (.aggregate kind e))
          (p.advance >>= fun q => Parser.expect .lParen "Expected '(' after aggregate function" q
            >>= fun q => Parser.parseOrExpression fuel q >>= fun r =>
            Parser.expect .rParen "Expected ')' after aggregate argument" r.2 >>= fun q =>
            Except.ok (SelectItem.aggregate kind r.1, q)) := by
        apply word hend
        intro p₁ h₁
        have h₁ := size_advance h₁ hend
        apply expect (by decide)
        intro p₂ _ h₂
        apply bind (parseOrExpression (by omega))
        · intro e p₃ _ _ _
          apply expect (by decide)
          exact fun p₄ _ _ => pure _ _ p₄
        · exact fun e => exists_shift _ (exists_done _)
        · exact fun e ts item h => leads_shift h (by decide)
      apply hitem.congr
      · rintro _ _ ⟨_, rfl, _, rfl, ts, e, _, he, ⟨_, rfl, rfl, rfl⟩, rfl⟩
        exact .aggregate (aggregateKind_iff.mp hkind) he
      · intro ts item r hD hrun hends
        cases hD with
        | star => exact absurd hrun.word_type h
        | expression he =>
          obtain ⟨t, us, rfl, ht⟩ := derives_first he
          rw [← hrun.type_eq] at ht
          rw [aggregateKind_eq_none ht] at hkind
          cases hkind
        | aggregate hmem he =>
          rw [← hrun.word_type, ← aggregateKind_iff, hkind] at hmem
          cases hmem
          exact ⟨_, by rw [hrun.word_type], _, rfl, _, _, _, he, ⟨_, rfl, rfl, rfl⟩, rfl⟩

/-- The types of tokens that may stand behind an expression to order by. -/
private def orderContinuing : List TokenType := .asc :: .desc :: orContinuing

private theorem parseDirection (e : Expression) :
    Recognizes orderContinuing p (Direction e) (Parser.parseDirection e p) := by
  unfold Parser.parseDirection
  split
  · rename_i h
    refine (word (by rw [h]; decide) fun q _ => pure _ (⟨e, .asc⟩ : OrderByItem) q).congr ?_ ?_
    · rintro _ _ ⟨_, rfl, rfl, rfl⟩
      rw [h]
      exact .asc
    · intro ts item r hD hrun hends
      cases hD with
      | none => exact (ends_not_mem hrun hends h (by decide)).elim
      | asc => exact ⟨_, by rw [h], rfl, rfl⟩
      | desc => exact nomatch h.symm.trans hrun.word_type
  · rename_i h
    refine (word (by rw [h]; decide) fun q _ => pure _ (⟨e, .desc⟩ : OrderByItem) q).congr ?_ ?_
    · rintro _ _ ⟨_, rfl, rfl, rfl⟩
      rw [h]
      exact .desc
    · intro ts item r hD hrun hends
      cases hD with
      | none => exact (ends_not_mem hrun hends h (by decide)).elim
      | asc => exact nomatch h.symm.trans hrun.word_type
      | desc => exact ⟨_, by rw [h], rfl, rfl⟩
  · rename_i hasc hdesc
    refine (pure _ ({ expression := e } : OrderByItem) p).congr ?_ ?_
    · rintro _ _ ⟨rfl, rfl⟩
      exact .none
    · intro ts item r hD hrun hends
      cases hD with
      | none => exact ⟨rfl, rfl⟩
      | asc => exact (hasc hrun.word_type).elim
      | desc => exact (hdesc hrun.word_type).elim

theorem parseOrderByItem {fuel : Nat} (hfuel : 6 * p.size + 5 ≤ fuel) :
    Recognizes orderContinuing p OrderItem (Parser.parseOrderByItem fuel p) := by
  refine (bind (parseOrExpression hfuel) (E := Direction) (fun e q _ _ _ => parseDirection e)
    (fun e => ⟨[], _, .none⟩) ?_).congr ?_ ?_
  · intro e ts item h
    cases h with
    | none => exact fun type hmem => List.mem_cons_of_mem _ (List.mem_cons_of_mem _ hmem)
    | asc => exact (by decide : TokenType.asc ∉ orContinuing)
    | desc => exact (by decide : TokenType.desc ∉ orContinuing)
  · rintro _ item ⟨ts, e, us, he, hdirection, rfl⟩
    exact .intro he hdirection
  · rintro _ item r ⟨he, hdirection⟩ - -
    exact ⟨_, _, _, he, hdirection, rfl⟩

/-- An optional clause is empty, or starts with its keyword. -/
private def Clause (keyword : TokenType) (D : List Terminal → α → Prop) : Prop :=
  ∀ ts a, D ts a → ts = [] ∨ ∃ us, ts = .word keyword :: us

private theorem leads_sequence {β : Type} {keyword : TokenType} {following : List TokenType}
    {D : List Terminal → α → Prop} {E : α → List Terminal → β → Prop} {ts : List Terminal} {b : β}
    (h : Sequence D E ts b) (hD : Clause keyword D) (hmem : keyword ∉ following)
    (hE : ∀ a us b, E a us b → Leads continuing following us) : Leads continuing following ts := by
  obtain ⟨us, a, vs, ha, hb, rfl⟩ := h
  rcases hD us a ha with rfl | ⟨us, rfl⟩
  · exact hE a vs b hb
  · exact hmem

private theorem clause_by (keyword : TokenType) (D : List Terminal → α → Prop) :
    Clause keyword (ByClause keyword D) := by
  intro ts items h
  cases h with
  | none => exact Or.inl rfl
  | some => exact Or.inr ⟨_, rfl⟩

private theorem clause_limit : Clause .limit Limit := by
  intro ts limit h
  cases h with
  | none => exact Or.inl rfl
  | some => exact Or.inr ⟨_, rfl⟩

theorem parseWhere {fuel : Nat} (hfuel : 6 * p.size + 5 ≤ fuel) :
    Recognizes (.where :: orContinuing) p Where (Parser.parseWhere fuel p) := by
  refine (optional (D := Sequence (Derives .or) fun e => Done (some e)) (a := none) (by decide)
    List.mem_cons_self fun q _ hq => bind (parseOrExpression (by omega))
      (fun e q' _ _ _ => pure _ (some e) q') (fun e => exists_done _) ?_).congr ?_ ?_
  · rintro e _ _ ⟨rfl, rfl⟩
    exact fun type hmem => List.mem_cons_of_mem _ hmem
  · rintro _ _ (⟨_, rfl, ts, e, _, he, ⟨rfl, rfl⟩, rfl⟩ | ⟨rfl, rfl⟩)
    · rw [List.append_nil]
      exact .some he
    · exact .none
  · intro ts condition r hD _ _
    cases hD with
    | none => exact Or.inr ⟨rfl, rfl⟩
    | some he => exact Or.inl ⟨_, rfl, _, _, _, he, ⟨rfl, rfl⟩, (List.append_nil _).symm⟩

theorem parseByClause {keyword : TokenType} {message : String} {following : List TokenType}
    {D : List Terminal → α → Prop} {item : Parser → Parsed (α × Parser)} {fuel : Nat}
    (hend : keyword ≠ .endOfFile) (hcomma : .comma ∉ following) (hfuel : p.size < fuel)
    (hitem : ∀ q, q.size ≤ p.size → Recognizes following q D (item q)) :
    Recognizes (keyword :: .comma :: following) p (ByClause keyword D)
      (Parser.parseByClause keyword message item fuel p) := by
  have hlist : ∀ q, q.size < p.size → Recognizes (keyword :: .comma :: following) q
      (Shift (.word .by) (Separated D))
      (Parser.expect .by message q >>= fun q => Parser.commaList item item fuel q) := by
    intro q hq
    apply expect (by decide)
    intro q' _ hq'
    apply (commaList hcomma (by omega) (hitem q' (by omega))
      fun q'' hq'' => hitem q'' (by omega)).weaken
    exact List.subset_cons_self _ _
  refine (optional (a := []) hend List.mem_cons_self fun q _ hq => hlist q hq).congr ?_ ?_
  · rintro _ _ (⟨_, rfl, ts, rfl, hitems⟩ | ⟨rfl, rfl⟩)
    · exact .some hitems
    · exact .none
  · intro ts items r hD _ _
    cases hD with
    | none => exact Or.inr ⟨rfl, rfl⟩
    | some hitems => exact Or.inl ⟨_, rfl, _, rfl, hitems⟩

private theorem stoull_error {text : Bytes} {e : Failure} (h : stoull text = .error e) :
    ∃ what, e = .outOfRange what ∨ e = .invalidArgument what := by
  unfold stoull at h
  split_ifs at h
  · cases h
    exact ⟨_, Or.inr rfl⟩
  · cases h
    exact ⟨_, Or.inl rfl⟩

/-- The number behind `LIMIT`. -/
private inductive Count : List Terminal → Option Nat → Prop
  | intro {text : Bytes} {n : Nat} (h : ∀ m, stoull text = .ok m → m = n) :
      Count [.count text] (some n)

private theorem parseCount :
    Recognizes continuing p Count (if p.isExpectedToken .intLiteral then
      stoull p.current.text >>= fun limit => p.advance >>= fun q => Except.ok (some limit, q)
      else p.fail "Expected integer literal after LIMIT" []) := by
  unfold Parser.isExpectedToken
  by_cases h : p.current.type = .intLiteral
  · rw [if_pos (beq_iff_eq.mpr h)]
    have hmatches : (Terminal.count p.current.text).Matches p.current.type p.current.text :=
      ⟨h, rfl⟩
    have hmatch : ∀ ts limit r, Count ts limit → Follows p ts r → ts = [.count p.current.text] := by
      rintro _ _ r ⟨-⟩ hrun
      obtain ⟨-, rfl⟩ := hrun.matches_current
      rfl
    rcases hvalue : stoull p.current.text with e | limit
    · refine throws_of (e := e) hmatches ⟨e, hvalue⟩ (stoull_error hvalue) rfl
        ⟨some 0, .intro fun m hm => ?_⟩ hmatch
      rw [hvalue] at hm
      cases hm
    · have hfails : ¬(Terminal.count p.current.text).Fails := by
        rintro ⟨e, he⟩
        rw [hvalue] at he
        cases he
      refine (shift (D := Done (some limit)) hmatches hfails (by rw [h]; decide)
        fun q _ => pure continuing _ q).congr ?_ ?_
      · rintro _ _ ⟨_, rfl, rfl, rfl⟩
        refine .intro fun m hm => ?_
        rw [hvalue] at hm
        cases hm
        rfl
      · intro ts result r hcount hrun hends
        obtain rfl := hmatch ts result r hcount hrun
        cases hcount with
        | intro hcount => exact ⟨[], rfl, rfl, by rw [hcount limit hvalue]⟩
  · rw [if_neg (fun hbeq => h (beq_iff_eq.mp hbeq))]
    apply fail
    rintro _ _ r ⟨-⟩ hrun -
    exact h hrun.type_eq

theorem parseLimit : Recognizes [.limit] p Limit (Parser.parseLimit p) := by
  refine (optional (D := Count) (a := none) (by decide) List.mem_cons_self
    fun q _ _ => parseCount).congr ?_ ?_
  · rintro _ _ (⟨_, rfl, hcount⟩ | ⟨rfl, rfl⟩)
    · cases hcount with
      | intro h => exact .some h
    · exact .none
  · intro ts limit r hD _ _
    cases hD with
    | none => exact Or.inr ⟨rfl, rfl⟩
    | some h => exact Or.inl ⟨_, rfl, .intro h⟩

private theorem expectSelectEnd {D : List Terminal → α → Prop} {k : Parser → Parsed (α × Parser)}
    (hk : ∀ q, Recognizes continuing q D (k q)) :
    Recognizes continuing p (Shift (.word .semicolon) D) (Parser.expectSelectEnd p >>= k) := by
  unfold Parser.expectSelectEnd Parser.isExpectedToken
  by_cases h : p.current.type = .semicolon
  · rw [if_pos (beq_iff_eq.mpr h)]
    have hword := word (D := D) (k := k) (by rw [h]; decide) fun q _ => hk q
    rwa [h] at hword
  · rw [if_neg (fun hbeq => h (beq_iff_eq.mp hbeq)), Parser.fail, Parsed.error_bind]
    apply @fail _ _ _ _ "Expected ';' after SELECT statement, got token: " p.current.text
    rintro _ _ _ ⟨us, rfl, -⟩ hrun -
    exact h hrun.type_eq

/-- What stands behind the table name of a SELECT. -/
private def SelectTail (name : Bytes) (items : List SelectItem) :
    List Terminal → SelectStatement → Prop :=
  Sequence Where fun condition => Sequence (ByClause .group (Derives .or)) fun groupBy =>
    Sequence (ByClause .order OrderItem) fun orderBy => Sequence Limit fun limit =>
    Shift (.word .semicolon) (Done ⟨name, items, condition, groupBy, orderBy, limit⟩)

private theorem exists_selectTail (name : Bytes) (items : List SelectItem) :
    ∃ ts s, SelectTail name items ts s :=
  exists_sequence ⟨_, _, .none⟩ fun _ => exists_sequence ⟨_, _, .none⟩ fun _ =>
    exists_sequence ⟨_, _, .none⟩ fun _ => exists_sequence ⟨_, _, .none⟩ fun _ =>
    exists_shift _ (exists_done _)

private theorem leads_limit {name : Bytes} {items : List SelectItem}
    {condition : Option Expression} {groupBy : List Expression} {orderBy : List OrderByItem}
    {following : List TokenType} {ts : List Terminal} {s : SelectStatement}
    (h : Sequence Limit (fun limit => Shift (.word .semicolon)
      (Done ⟨name, items, condition, groupBy, orderBy, limit⟩)) ts s)
    (hlimit : .limit ∉ following) (hsemicolon : .semicolon ∉ following) :
    Leads continuing following ts :=
  leads_sequence h clause_limit hlimit fun _ _ _ h => leads_shift h hsemicolon

private theorem leads_order {name : Bytes} {items : List SelectItem}
    {condition : Option Expression} {groupBy : List Expression}
    {following : List TokenType} {ts : List Terminal} {s : SelectStatement}
    (h : Sequence (ByClause .order OrderItem) (fun orderBy => Sequence Limit fun limit =>
      Shift (.word .semicolon) (Done ⟨name, items, condition, groupBy, orderBy, limit⟩)) ts s)
    (horder : .order ∉ following) (hlimit : .limit ∉ following)
    (hsemicolon : .semicolon ∉ following) : Leads continuing following ts :=
  leads_sequence h (clause_by _ _) horder fun _ _ _ h => leads_limit h hlimit hsemicolon

private theorem parseSelectTail {fuel : Nat} (name : Bytes) (items : List SelectItem)
    (hfuel : 6 * p.size + 5 ≤ fuel) :
    Recognizes continuing p (SelectTail name items)
      (Parser.parseWhere fuel p >>= fun r =>
        Parser.parseByClause .group "Expected BY after GROUP" (Parser.parseOrExpression fuel) fuel
          r.2 >>= fun g =>
        Parser.parseByClause .order "Expected BY after ORDER" (Parser.parseOrderByItem fuel) fuel
          g.2 >>= fun o =>
        Parser.parseLimit o.2 >>= fun l =>
        Parser.expectSelectEnd l.2 >>= fun q =>
        Except.ok (⟨name, items, r.1, g.1, o.1, l.1⟩, q)) := by
  apply bind (parseWhere hfuel)
  · intro condition p₁ _ _ h₁
    have h₁ := h₁.size_le
    apply bind (parseByClause (by decide) (by decide) (by omega)
      fun q hq => parseOrExpression (by omega))
    · intro groupBy p₂ _ _ h₂
      have h₂ := h₂.size_le
      apply bind (parseByClause (by decide) (by decide) (by omega)
        fun q hq => parseOrderByItem (by omega))
      · intro orderBy p₃ _ _ _
        apply bind parseLimit
        · intro limit p₄ _ _ _
          apply expectSelectEnd
          exact fun p₅ => pure _ _ p₅
        · exact fun _ => exists_shift _ (exists_done _)
        · exact fun _ _ _ h => leads_shift h (by decide)
      · exact fun _ => exists_sequence ⟨_, _, .none⟩ fun _ => exists_shift _ (exists_done _)
      · exact fun _ _ _ h => leads_limit h (by decide) (by decide)
    · exact fun _ => exists_sequence ⟨_, _, .none⟩ fun _ => exists_sequence ⟨_, _, .none⟩
        fun _ => exists_shift _ (exists_done _)
    · exact fun _ _ _ h => leads_order h (by decide) (by decide) (by decide)
  · exact fun _ => exists_sequence ⟨_, _, .none⟩ fun _ => exists_sequence ⟨_, _, .none⟩
      fun _ => exists_sequence ⟨_, _, .none⟩ fun _ => exists_shift _ (exists_done _)
  · exact fun _ _ _ h => leads_sequence h (clause_by _ _) (by decide)
      fun _ _ _ h => leads_order h (by decide) (by decide) (by decide)

theorem parseSelectStatement {fuel : Nat} (hfuel : 6 * p.size + 5 ≤ fuel) :
    Recognizes continuing p (fun ts s => Sentence ts (.select s))
      (Parser.parseSelectStatement fuel p) := by
  have h : Recognizes continuing p
      (Shift (.word .select) <| Sequence (Separated Item) fun items => Shift (.word .from) <|
        Named fun name => SelectTail name items)
      (Parser.parseSelectStatement fuel p) := by
    apply expect (by decide)
    intro p₁ _ h₁
    apply bind (commaList (by decide) (by omega) (parseSelectItem (by omega))
      fun q hq => parseSelectItem (by omega))
    · intro items p₂ _ _ h₂
      have h₂ := h₂.size_le
      apply expect (by decide)
      intro p₃ _ h₃
      apply table
      · exact fun name => exists_selectTail name items
      · intro name p₄ h₄
        exact parseSelectTail name items (by omega)
    · intro items
      obtain ⟨ts, s, h⟩ := exists_selectTail [] items
      exact exists_shift _ ⟨_, s, [], ts, rfl, h⟩
    · exact fun items ts s h => leads_shift h (by decide)
  apply h.congr
  · rintro _ s ⟨_, rfl, ts, items, _, hitems, ⟨_, rfl, name, _, rfl, us, condition, _, hwhere,
      ⟨vs, groupBy, _, hgroup, ⟨ws, orderBy, _, horder, ⟨xs, limit, _, hlimit, ⟨_, rfl, rfl, rfl⟩,
      rfl⟩, rfl⟩, rfl⟩, rfl⟩, rfl⟩
    have hsentence := @Sentence.select name _ _ _ _ _ _ _ _ _ _ hitems hwhere hgroup horder hlimit
    simp only [List.append_assoc, List.cons_append, List.nil_append] at hsentence
    exact hsentence
  · intro ts s r hs _ _
    cases hs with
    | select hitems hwhere hgroup horder hlimit =>
      simp only [List.append_assoc, List.cons_append, List.nil_append]
      exact ⟨_, rfl, _, _, _, hitems, ⟨_, rfl, _, _, rfl, _, _, _, hwhere, ⟨_, _, _, hgroup,
        ⟨_, _, _, horder, ⟨_, _, _, hlimit, ⟨_, rfl, rfl, rfl⟩, rfl⟩, rfl⟩, rfl⟩, rfl⟩, rfl⟩

/-! ## Statements -/

private theorem map {β : Type} {D : List Terminal → α → Prop} {x : Parsed (α × Parser)}
    (f : α → β) (hx : Recognizes continuing p D x) :
    Recognizes continuing p (fun ts b => ∃ a, D ts a ∧ b = f a)
      (x >>= fun r => Except.ok (f r.1, r.2)) := by
  refine (bind hx (E := fun a => Done (f a)) (fun a q _ _ _ => pure _ _ q)
    (fun a => exists_done _) ?_).congr ?_ ?_
  · rintro a _ _ ⟨rfl, rfl⟩
    exact fun type hmem => hmem
  · rintro _ _ ⟨ts, a, _, ha, ⟨rfl, rfl⟩, rfl⟩
    rw [List.append_nil]
    exact ⟨a, ha, rfl⟩
  · rintro ts _ r ⟨a, ha, rfl⟩ - -
    exact ⟨ts, a, [], ha, ⟨rfl, rfl⟩, (List.append_nil _).symm⟩

theorem parseStatement {fuel : Nat} (hfuel : 6 * p.size + 5 ≤ fuel) :
    Recognizes continuing p Sentence (Parser.parseStatement fuel p) := by
  have hsize : p.size < fuel := by omega
  unfold Parser.parseStatement
  split
  · rename_i h
    refine (map Statement.createTable (parseCreateTableStatement hsize)).congr ?_ ?_
    · rintro ts _ ⟨s, hs, rfl⟩
      exact hs
    · intro ts s r hs hrun _
      cases hs with
      | createTable hcolumns => exact ⟨_, .createTable hcolumns, rfl⟩
      | insert => exact nomatch h.symm.trans hrun.word_type
      | select => exact nomatch h.symm.trans hrun.word_type
  · rename_i h
    refine (map Statement.insert (parseInsertStatement hsize)).congr ?_ ?_
    · rintro ts _ ⟨s, hs, rfl⟩
      exact hs
    · intro ts s r hs hrun _
      cases hs with
      | createTable => exact nomatch h.symm.trans hrun.word_type
      | insert hcolumns hvalues => exact ⟨_, .insert hcolumns hvalues, rfl⟩
      | select => exact nomatch h.symm.trans hrun.word_type
  · rename_i h
    refine (map Statement.select (parseSelectStatement hfuel)).congr ?_ ?_
    · rintro ts _ ⟨s, hs, rfl⟩
      exact hs
    · intro ts s r hs hrun _
      cases hs with
      | createTable => exact nomatch h.symm.trans hrun.word_type
      | insert => exact nomatch h.symm.trans hrun.word_type
      | select hitems hwhere hgroup horder hlimit =>
        exact ⟨_, .select hitems hwhere hgroup horder hlimit, rfl⟩
  · rename_i hcreate hinsert hselect
    apply fail
    intro ts s r hs hrun _
    cases hs with
    | createTable => exact hcreate hrun.word_type
    | insert => exact hinsert hrun.word_type
    | select => exact hselect hrun.word_type

end Recognizes

/-! ## Inputs -/

/-- The tokens of an input are `ts` and the parser behind them is `r`, or they begin
as `ts` does up to a literal whose conversion throws. -/
def Begins (input : Bytes) (ts : List Terminal) (r : Option Parser) : Prop :=
  ∃ p, Parser.create { input := input } = .ok p ∧ Follows p ts r

private theorem recognizes_parse {input : Bytes} {p : Parser}
    (h : Parser.create { input := input } = .ok p) :
    Recognizes [] p Sentence (p.parseStatement (parseFuel input)) := by
  apply Recognizes.parseStatement
  rcases create_eq { input := input } with ⟨q, hq, hsize⟩ | ⟨_, _, _, herror⟩
  · rw [h] at hq
    cases hq
    dsimp only at hsize
    rw [parseFuel]
    omega
  · rw [h] at herror
    cases herror

private theorem parse_eq {input : Bytes} {p : Parser}
    (h : Parser.create { input := input } = .ok p) :
    parse input = (p.parseStatement (parseFuel input)).map (·.1) := by
  rw [parse, h, Parsed.ok_bind]
  cases p.parseStatement (parseFuel input) with
  | ok r => rfl
  | error e => rfl

/-- The parser returns a statement exactly where the input begins with one that the
grammar derives, and all whose literals convert. -/
theorem parse_eq_ok {input : Bytes} {s : Statement} :
    parse input = .ok s ↔ ∃ ts q, Sentence ts s ∧ Begins input ts (some q) := by
  constructor
  · intro h
    rcases create_eq { input := input } with ⟨p, hp, -⟩ | ⟨message, detail, position, herror⟩
    · rw [parse_eq hp] at h
      have hreads := (recognizes_parse hp).reads
      rcases hx : p.parseStatement (parseFuel input) with e | ⟨s', q⟩
      · rw [hx] at h
        cases h
      · rw [hx] at h hreads
        cases h
        obtain ⟨ts, hs, hrun⟩ := hreads
        exact ⟨ts, q, hs, p, hp, hrun⟩
    · rw [parse, herror] at h
      cases h
  · rintro ⟨ts, q, hs, p, hp, hrun⟩
    have hgives := (recognizes_parse hp).gives hs hrun (fun _ _ => List.not_mem_nil)
    rw [parse_eq hp, hgives]
    rfl

/-- The parser throws something else than a `ParseError` exactly where the input
begins as a statement does, up to a literal whose conversion throws. -/
theorem parse_throws {input : Bytes} :
    (∃ e, parse input = .error e ∧
      ∀ message detail position, e ≠ .parseError message detail position) ↔
      ∃ ts s, Sentence ts s ∧ Begins input ts none := by
  constructor
  · rintro ⟨e, h, he⟩
    rcases create_eq { input := input } with ⟨p, hp, -⟩ | ⟨message, detail, position, herror⟩
    · rw [parse_eq hp] at h
      have hreads := (recognizes_parse hp).reads
      rcases hx : p.parseStatement (parseFuel input) with e' | ⟨s, q⟩
      · rw [hx] at h hreads
        cases h
        cases e with
        | parseError message detail position => exact absurd rfl (he message detail position)
        | outOfFuel => exact hreads.elim
        | outOfRange =>
          obtain ⟨ts, s, hs, hrun⟩ := hreads
          exact ⟨ts, s, hs, p, hp, hrun⟩
        | invalidArgument =>
          obtain ⟨ts, s, hs, hrun⟩ := hreads
          exact ⟨ts, s, hs, p, hp, hrun⟩
      · rw [hx] at h
        cases h
    · rw [parse, herror] at h
      cases h
      exact absurd rfl (he message detail position)
  · rintro ⟨ts, s, hs, p, hp, hrun⟩
    obtain ⟨e, hx, he⟩ := (recognizes_parse hp).gives hs hrun (fun _ h => nomatch h)
    refine ⟨e, ?_, he⟩
    rw [parse_eq hp, hx]
    rfl

end Htap.Parser
