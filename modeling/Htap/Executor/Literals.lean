import Htap.Executor.Skipping
import Htap.Executor.Statements
import Htap.Parser.Recognition

/-!
A text holds no NaN: number tokens are digits, and `stod` throws where they are out of range.
So the literals of a statement that was parsed are numbers, and with them the cells of an
INSERT and the bounds that blocks are skipped by.
-/

namespace Htap.Parser

open Storage

variable {ts : List Terminal} {e : Expression} {statement : Statement} {text : Bytes}

/-! ## Texts -/

theorem isNaN_stod {value : Binary64} (h : stod text = .ok value) : value.isNaN = false := by
  unfold stod at h
  split_ifs at h
  cases h
  have hle : doubleMagnitude text ≤ Binary64.infinityMagnitude := Binary64.roundUnits_le _ _
  have hmagnitude := @Binary64.magnitude_ofMagnitude (splitSign text).1 (doubleMagnitude text)
    (hle.trans_lt (by decide))
  rw [Binary64.isNaN, hmagnitude]
  exact decide_eq_false (not_lt.mpr hle)

/-- No literal is NaN. -/
def Expression.Numbers : Expression → Prop
  | .doubleLiteral value => value.isNaN = false
  | .nullLiteral | .intLiteral _ | .stringLiteral _ | .column _ => True
  | .unary _ e | .isNull e _ => e.Numbers
  | .binary _ left right => left.Numbers ∧ right.Numbers

/-- No literal that is stored or compared is NaN. -/
def Statement.Numbers : Statement → Prop
  | .createTable _ => True
  | .insert statement => ∀ e ∈ statement.values, e.Numbers
  | .select statement => ∀ e ∈ statement.whereExpression, e.Numbers

/-- Every literal among the terminals converts. -/
def Converts (ts : List Terminal) : Prop := ∀ t ∈ ts, ¬t.Fails

@[simp] theorem converts_append {us : List Terminal} :
    Converts (ts ++ us) ↔ Converts ts ∧ Converts us := List.forall_mem_append

@[simp] theorem converts_cons {t : Terminal} : Converts (t :: ts) ↔ ¬t.Fails ∧ Converts ts :=
  List.forall_mem_cons

theorem Follows.converts {p q : Parser} (h : Follows p ts (some q)) : Converts ts := by
  generalize hend : some q = r at h
  induction h with
  | done p =>
    intro t ht
    cases ht
  | throws => cases hend
  | step _ hconverts _ _ _ ih => exact converts_cons.mpr ⟨hconverts, ih hend⟩

private theorem Denotes.numbers {type : TokenType} (h : Denotes type text e)
    (hconverts : ¬(Terminal.literal type text).Fails) : e.Numbers := by
  obtain ⟨value, hvalue, hdenotes⟩ := h
  cases value with
  | error x => exact absurd ⟨x, hvalue⟩ hconverts
  | ok e' =>
    obtain rfl := hdenotes e' rfl
    unfold Parser.literal at hvalue
    split at hvalue
    · cases hvalue
      trivial
    · cases hint : stoll text with
      | error x =>
        rw [hint] at hvalue
        cases hvalue
      | ok v =>
        rw [hint] at hvalue
        cases hvalue
        trivial
    · cases hdouble : stod text with
      | error x =>
        rw [hdouble] at hvalue
        cases hvalue
      | ok v =>
        rw [hdouble] at hvalue
        cases hvalue
        exact isNaN_stod hdouble
    · cases hvalue
      trivial
    · cases hvalue

theorem Derives.numbers {level : Level} (h : Derives level ts e) (hts : Converts ts) :
    e.Numbers := by
  induction h with
  | orOperand _ ih | andOperand _ ih | notOperand _ ih | predicateOperand _ ih => exact ih hts
  | or _ _ ihl ihr | and _ _ ihl ihr =>
    simp only [converts_append, converts_cons] at hts
    exact ⟨ihl hts.1, ihr hts.2.2⟩
  | comparison _ _ _ ihl ihr =>
    simp only [converts_append, converts_cons] at hts
    exact ⟨ihl hts.1, ihr hts.2.2⟩
  | not _ ih => exact ih (converts_cons.mp hts).2
  | isNull _ ih | isNotNull _ ih => exact ih (converts_append.mp hts).1
  | column _ => trivial
  | literal h => exact h.numbers (converts_cons.mp hts).1
  | parentheses _ ih =>
    simp only [converts_append, converts_cons] at hts
    exact ih hts.2.1

private theorem numbers_values {values : List Expression} (h : Separated Literal ts values)
    (hts : Converts ts) : ∀ e ∈ values, e.Numbers := by
  have hone : ∀ {us : List Terminal} {e : Expression}, Literal us e → Converts us → e.Numbers := by
    rintro us e ⟨hdenotes⟩ hus
    exact hdenotes.numbers (converts_cons.mp hus).1
  induction h with
  | one ha =>
    intro e he
    obtain rfl := List.mem_singleton.mp he
    exact hone ha hts
  | cons ha _ ih =>
    simp only [converts_append, converts_cons] at hts
    exact List.forall_mem_cons.mpr ⟨hone ha hts.1, ih hts.2.2⟩

private theorem Sentence.numbers (h : Sentence ts statement) (hts : Converts ts) :
    statement.Numbers := by
  cases h with
  | createTable _ => trivial
  | insert _ hvalues =>
    simp only [converts_append] at hts
    exact numbers_values hvalues hts.1.2
  | select _ hwhere _ _ _ =>
    simp only [converts_append] at hts
    cases hwhere with
    | none =>
      intro e he
      cases he
    | some hderives =>
      intro e he
      cases he
      exact hderives.numbers (converts_cons.mp hts.1.1.1.1.2).2

/-- What was parsed holds no NaN. -/
theorem numbers_parse {input : Bytes} (h : parse input = .ok statement) : statement.Numbers := by
  obtain ⟨ts, q, hs, p, -, hrun⟩ := parse_eq_ok.mp h
  exact hs.numbers hrun.converts

end Htap.Parser

namespace Htap.Executor

open Storage Htap.Parser SSTable Read Cursor

variable {schema : Schema} {e : Expression} {b : BoundExpression}

/-! ## SELECT -/

/-- No literal of the bound expression is NaN. -/
def BoundExpression.Numbers : BoundExpression → Prop
  | .literal value _ => ∀ d, value = some (.double d) → d.isNaN = false
  | .column _ _ => True
  | .unary _ e | .isNull e _ => e.Numbers
  | .binary _ left right => left.Numbers ∧ right.Numbers

theorem numbers_bindExpression (h : bindExpression schema e = .ok b) (he : e.Numbers) :
    b.Numbers := by
  induction e generalizing b with
  | nullLiteral | intLiteral _ | stringLiteral _ =>
    cases h
    intro d hd
    cases hd
  | doubleLiteral v =>
    cases h
    intro d hd
    cases hd
    exact he
  | column name =>
    unfold bindExpression at h
    split at h
    · cases h
    · obtain ⟨column, -, h⟩ := Result.bind_eq_ok.mp h
      cases h
      trivial
  | unary operation e ih | isNull e isNot ih =>
    obtain ⟨b', hb', h⟩ := Result.bind_eq_ok.mp h
    cases h
    have hnumbers : b'.Numbers := ih hb' he
    exact hnumbers
  | binary operation l r ihl ihr =>
    obtain ⟨bl, hl, h⟩ := Result.bind_eq_ok.mp h
    obtain ⟨br, hr, h⟩ := Result.bind_eq_ok.mp h
    cases h
    exact ⟨ihl hl he.1, ihr hr he.2⟩

private theorem numbers_columnComparison {operation : BinaryOperation} {i : Nat}
    {value : NullableValue} {columnOnLeft : Bool} (hb : b.Numbers)
    (h : columnComparison b = some (operation, i, value, columnOnLeft)) :
    ∀ d, value = some (.double d) → d.isNaN = false := by
  unfold columnComparison at h
  split at h
  · cases h
    exact hb.2
  · cases h
    exact hb.1
  · cases h

/-- The bounds of the filter are numbers. -/
theorem ordered_buildDataSkippingFilter {statement : BoundSelectStatement}
    (h : ∀ b ∈ statement.whereExpression, b.Numbers) :
    (buildDataSkippingFilter statement).Ordered := by
  intro predicate hpredicate
  obtain ⟨c, hc, hskips⟩ := List.mem_filterMap.mp hpredicate
  have hnumbers : c.Numbers := by
    apply forall_conjuncts _ h c hc
    intro left right hboth
    exact hboth
  obtain ⟨⟨operation, i, value, columnOnLeft⟩, hcomparison, hskips⟩ :=
    Option.bind_eq_some_iff.mp hskips
  obtain ⟨op, -, hskips⟩ := Option.bind_eq_some_iff.mp hskips
  obtain ⟨literal, hliteral, hskips⟩ := Option.bind_eq_some_iff.mp hskips
  obtain ⟨column, -, hskips⟩ := Option.bind_eq_some_iff.mp hskips
  have hvalue := numbers_columnComparison hnumbers hcomparison
  split_ifs at hskips
  all_goals
    cases hskips
    unfold numericLiteral at hliteral
    split at hliteral
    · cases hliteral
      exact Binary64.isNaN_ofInt64 _
    · cases hliteral
      exact hvalue _ rfl
    · cases hliteral

theorem ordered_bindSelectOver {source : SelectStatement} {bound : BoundSelectStatement}
    (h : bindSelectOver schema source = .ok bound)
    (hsource : ∀ e ∈ source.whereExpression, e.Numbers) :
    (buildDataSkippingFilter bound).Ordered := by
  obtain ⟨items, -, h⟩ := Result.bind_eq_ok.mp h
  obtain ⟨whereExpression, hwhere, h⟩ := Result.bind_eq_ok.mp h
  obtain ⟨groupBy, -, h⟩ := Result.bind_eq_ok.mp h
  obtain ⟨orderBy, -, h⟩ := Result.bind_eq_ok.mp h
  obtain ⟨_, -, h⟩ := Result.bind_eq_ok.mp h
  obtain ⟨_, -, h⟩ := Result.bind_eq_ok.mp h
  cases h
  apply ordered_buildDataSkippingFilter
  intro b hb
  dsimp only at hb
  cases hs : source.whereExpression with
  | none =>
    rw [hs] at hwhere
    cases hwhere
    cases hb
  | some e =>
    rw [hs] at hwhere
    obtain ⟨b', hb', hwhere⟩ := Result.bind_eq_ok.mp hwhere
    cases hwhere
    cases hb
    exact numbers_bindExpression hb' (hsource e hs)

/-! ## INSERT -/

private theorem noNaN_assignColumn {row row' : InsertRow} {entry : Bytes × Expression}
    (h : assignColumn schema row entry = .ok row') (hentry : entry.2.Numbers)
    (hrow : NoNaN row.rowValues) : NoNaN row'.rowValues := by
  obtain ⟨i, value, -, -, hvalue, rfl⟩ := assignColumn_eq_ok.mp h
  intro d hd
  rcases List.mem_or_eq_of_mem_set hd with hold | rfl
  · exact hrow d hold
  · generalize entry.2 = e at hvalue hentry
    cases e with
    | doubleLiteral v =>
      cases hvalue
      exact hentry
    | nullLiteral | intLiteral _ | stringLiteral _ => cases hvalue
    | column _ | unary _ _ | binary _ _ _ | isNull _ _ => cases hvalue

private theorem noNaN_foldlM {entries : List (Bytes × Expression)} {row row' : InsertRow}
    (h : entries.foldlM (assignColumn schema) row = .ok row')
    (hentries : ∀ entry ∈ entries, entry.2.Numbers) (hrow : NoNaN row.rowValues) :
    NoNaN row'.rowValues := by
  induction entries generalizing row with
  | nil =>
    cases h
    exact hrow
  | cons entry entries ih =>
    rw [List.foldlM_cons] at h
    obtain ⟨next, hnext, hrest⟩ := Result.bind_eq_ok.mp h
    obtain ⟨hfirst, hothers⟩ := List.forall_mem_cons.mp hentries
    exact ih hrest hothers (noNaN_assignColumn hnext hfirst hrow)

/-- The row of an INSERT holds the literals of the statement. -/
theorem noNaN_bindInsertOver {statement : InsertStatement} {bound : BoundInsertStatement}
    (h : bindInsertOver schema statement = .ok bound)
    (hvalues : ∀ e ∈ statement.values, e.Numbers) :
    NoNaN bound.rowValues := by
  unfold bindInsertOver at h
  split at h
  · cases h
  · obtain ⟨row, hrow, h⟩ := Result.bind_eq_ok.mp h
    obtain ⟨_, -, h⟩ := Result.bind_eq_ok.mp h
    cases h
    apply noNaN_foldlM hrow
    · intro entry hentry
      exact hvalues entry.2 (List.of_mem_zip hentry).2
    · intro d hd
      cases List.eq_of_mem_replicate hd

end Htap.Executor
