import Htap.Parser.Grammar

/-!
Where the words of a statement stand: a semicolon at its end only, `LIMIT` and its
number right before it, and no word that is no part of the grammar.
-/

namespace Htap.Parser

open Storage

/-- The terminals that may stand before `LIMIT` and the semicolon. -/
def Terminal.plain : Terminal → Bool
  | word type => decide (type ∉ [.endOfFile, .invalid, .identifier, .stringLiteral, .intLiteral,
      .doubleLiteral, .primary, .limit, .semicolon])
  | name type _ => decide (type ∈ [.identifier, .key])
  | literal type _ => decide (type ∈ [.stringLiteral, .intLiteral, .doubleLiteral, .null])
  | count _ => false

/-- No plain terminal is LIMIT or a semicolon. -/
theorem plain_type_ne {t : Terminal} (h : t.plain = true) :
    t.type ≠ .limit ∧ t.type ≠ .semicolon := by
  cases t with
  | count text => cases h
  | word type | name type text | literal type text =>
    constructor
    all_goals
      rintro rfl
      cases h

/-- All terminals of a list are plain. -/
def Plain (ts : List Terminal) : Prop := ∀ t ∈ ts, t.plain = true

theorem plain_nil : Plain [] := fun _ h => nomatch h

theorem plain_cons {t : Terminal} {ts : List Terminal} :
    Plain (t :: ts) ↔ t.plain = true ∧ Plain ts := List.forall_mem_cons

theorem plain_append {ts us : List Terminal} : Plain (ts ++ us) ↔ Plain ts ∧ Plain us :=
  List.forall_mem_append

private theorem plain_name {type : TokenType} {name : Bytes} (h : IsColumnName type) :
    (Terminal.name type name).plain = true := by
  rcases h with rfl | rfl
  all_goals rfl

private theorem plain_literal {type : TokenType} {text : Bytes} {e : Expression}
    (h : Denotes type text e) : (Terminal.literal type text).plain = true := by
  obtain ⟨value, hvalue, -⟩ := h
  unfold Parser.literal at hvalue
  split at hvalue
  any_goals rfl
  cases hvalue

private theorem plain_comparison {type : TokenType} {operation : BinaryOperation}
    (h : (type, operation) ∈ comparisons) : (Terminal.word type).plain = true := by
  have htable : ∀ entry ∈ comparisons, (Terminal.word entry.1).plain = true := by decide
  exact htable _ h

private theorem plain_columnType {type : TokenType} {dataType : DataType}
    (h : (type, dataType) ∈ columnTypes) : (Terminal.word type).plain = true := by
  have htable : ∀ entry ∈ columnTypes, (Terminal.word entry.1).plain = true := by decide
  exact htable _ h

private theorem plain_aggregate {type : TokenType} {kind : AggregateKind}
    (h : (type, kind) ∈ aggregates) : (Terminal.word type).plain = true := by
  have htable : ∀ entry ∈ aggregates, (Terminal.word entry.1).plain = true := by decide
  exact htable _ h

theorem Derives.plain {level : Level} {ts : List Terminal} {e : Expression}
    (h : Derives level ts e) : Plain ts := by
  induction h with
  | orOperand _ ih => exact ih
  | or _ _ ihleft ihright => exact plain_append.mpr ⟨ihleft, plain_cons.mpr ⟨rfl, ihright⟩⟩
  | andOperand _ ih => exact ih
  | and _ _ ihleft ihright => exact plain_append.mpr ⟨ihleft, plain_cons.mpr ⟨rfl, ihright⟩⟩
  | notOperand _ ih => exact ih
  | not _ ih => exact plain_cons.mpr ⟨rfl, ih⟩
  | predicateOperand _ ih => exact ih
  | comparison _ hoperation _ ihleft ihright =>
    exact plain_append.mpr ⟨ihleft, plain_cons.mpr ⟨plain_comparison hoperation, ihright⟩⟩
  | isNull _ ih => exact plain_append.mpr ⟨ih, by simp [Plain, Terminal.plain]⟩
  | isNotNull _ ih => exact plain_append.mpr ⟨ih, by simp [Plain, Terminal.plain]⟩
  | column htype => exact plain_cons.mpr ⟨plain_name htype, plain_nil⟩
  | literal h => exact plain_cons.mpr ⟨plain_literal h, plain_nil⟩
  | parentheses _ ih =>
    exact plain_cons.mpr ⟨rfl, plain_append.mpr ⟨ih, plain_cons.mpr ⟨rfl, plain_nil⟩⟩⟩

private theorem plain_separated {α : Type} {D : List Terminal → α → Prop} {ts : List Terminal}
    {items : List α} (hD : ∀ ts a, D ts a → Plain ts) (h : Separated D ts items) : Plain ts := by
  induction h with
  | one ha => exact hD _ _ ha
  | cons ha _ ih => exact plain_append.mpr ⟨hD _ _ ha, plain_cons.mpr ⟨rfl, ih⟩⟩

private theorem plain_column {ts : List Terminal} {column : ColumnDefinition}
    (h : Column ts column) :
    Plain ts := by
  cases h with
  | intro hname hword hmodifier =>
    refine plain_cons.mpr ⟨plain_name hname, plain_cons.mpr ⟨plain_columnType hword, ?_⟩⟩
    cases hmodifier
    all_goals simp [Plain, Terminal.plain]

private theorem plain_item {ts : List Terminal} {item : SelectItem} (h : Item ts item) :
    Plain ts := by
  cases h with
  | star => exact plain_cons.mpr ⟨rfl, plain_nil⟩
  | expression h => exact h.plain
  | aggregate hkind h =>
    exact plain_cons.mpr ⟨plain_aggregate hkind, plain_cons.mpr ⟨rfl,
      plain_append.mpr ⟨h.plain, plain_cons.mpr ⟨rfl, plain_nil⟩⟩⟩⟩

private theorem plain_orderItem {ts : List Terminal} {item : OrderByItem} (h : OrderItem ts item) :
    Plain ts := by
  cases h with
  | intro h hdirection =>
    refine plain_append.mpr ⟨h.plain, ?_⟩
    cases hdirection
    all_goals simp [Plain, Terminal.plain]

private theorem plain_where {ts : List Terminal} {condition : Option Expression}
    (h : Where ts condition) : Plain ts := by
  cases h with
  | none => exact plain_nil
  | some h => exact plain_cons.mpr ⟨rfl, h.plain⟩

private theorem plain_by {α : Type} {keyword : TokenType} {D : List Terminal → α → Prop}
    {ts : List Terminal} {items : List α} (hkeyword : (Terminal.word keyword).plain = true)
    (hD : ∀ ts a, D ts a → Plain ts) (h : ByClause keyword D ts items) : Plain ts := by
  cases h with
  | none => exact plain_nil
  | some h => exact plain_cons.mpr ⟨hkeyword, plain_cons.mpr ⟨rfl, plain_separated hD h⟩⟩

/-- The LIMIT of a statement. -/
def Statement.limit : Statement → Option Nat
  | .select s => s.limit
  | _ => none

/-- The end of a statement: its LIMIT, if there is one, and a semicolon. -/
inductive Ending : List Terminal → Option Nat → Prop
  | plain : Ending [.word .semicolon] none
  | limit {text : Bytes} {n : Nat} (h : ∀ m, stoull text = .ok m → m = n) :
      Ending [.word .limit, .count text, .word .semicolon] (some n)

/-- A statement is a plain list and an ending. -/
theorem Sentence.shape {ts : List Terminal} {s : Statement} (h : Sentence ts s) :
    ∃ us vs, ts = us ++ vs ∧ Plain us ∧ Ending vs s.limit := by
  cases h with
  | @createTable name ts columns hcolumns =>
    refine ⟨[Terminal.word .create, Terminal.word .table, Terminal.name .identifier name,
      Terminal.word .lParen] ++ ts ++
      [Terminal.word .rParen], [Terminal.word .semicolon], by simp, ?_, .plain⟩
    have hplain := plain_separated (fun _ _ => plain_column) hcolumns
    refine plain_append.mpr ⟨plain_append.mpr ⟨?_, hplain⟩, ?_⟩
    all_goals simp [Plain, Terminal.plain]
  | @insert name ts us columns values hcolumns hvalues =>
    refine ⟨[Terminal.word .insert, Terminal.word .into, Terminal.name .identifier name,
      Terminal.word .lParen] ++ ts ++
      [Terminal.word .rParen, Terminal.word .values, Terminal.word .lParen]
        ++ us ++ [Terminal.word .rParen],
      [Terminal.word .semicolon], by simp, ?_, .plain⟩
    have hplain := plain_separated (fun _ _ h => by
      cases h with
      | intro htype => exact plain_cons.mpr ⟨plain_name htype, plain_nil⟩) hcolumns
    have hplain' := plain_separated (fun _ _ h => by
      cases h with
      | intro h => exact plain_cons.mpr ⟨plain_literal h, plain_nil⟩) hvalues
    refine plain_append.mpr ⟨plain_append.mpr ⟨plain_append.mpr ⟨plain_append.mpr
      ⟨?_, hplain⟩, ?_⟩, hplain'⟩, ?_⟩
    all_goals simp [Plain, Terminal.plain]
  | @select name ts us vs ws xs items condition groupBy orderBy limit hitems hwhere hgroup horder
      hlimit =>
    refine ⟨[Terminal.word .select] ++ ts
      ++ [Terminal.word .from, Terminal.name .identifier name] ++ us ++ vs ++ ws,
      xs ++ [Terminal.word .semicolon], by simp, ?_, ?_⟩
    · have hplain := plain_separated (fun _ _ => plain_item) hitems
      refine plain_append.mpr ⟨plain_append.mpr ⟨plain_append.mpr ⟨plain_append.mpr
        ⟨plain_append.mpr ⟨?_, hplain⟩, ?_⟩, plain_where hwhere⟩,
        plain_by rfl (fun _ _ h => h.plain) hgroup⟩,
        plain_by rfl (fun _ _ => plain_orderItem) horder⟩
      all_goals simp [Plain, Terminal.plain]
    · cases hlimit with
      | none => exact .plain
      | some h => exact .limit h

/-- What a terminal of a statement can be. -/
theorem Sentence.terminal {ts : List Terminal} {s : Statement} (h : Sentence ts s) {t : Terminal}
    (ht : t ∈ ts) : t.plain = true ∨ t = .word .limit ∨ t = .word .semicolon ∨
      ∃ text, t = .count text := by
  obtain ⟨us, vs, rfl, hus, hending⟩ := h.shape
  rcases List.mem_append.mp ht with ht | ht
  · exact Or.inl (hus t ht)
  · generalize s.limit = limit at hending
    cases hending with
    | plain => exact Or.inr (Or.inr (Or.inl (List.mem_singleton.mp ht)))
    | @limit text =>
      simp only [List.mem_cons, List.not_mem_nil, or_false] at ht
      rcases ht with rfl | rfl | rfl
      · exact Or.inr (Or.inl rfl)
      · exact Or.inr (Or.inr (Or.inr ⟨text, rfl⟩))
      · exact Or.inr (Or.inr (Or.inl rfl))

/-- Identifiers are names, and doubles are literals. -/
theorem Sentence.terminal_eq {ts : List Terminal} {s : Statement} (h : Sentence ts s)
    {t : Terminal} (ht : t ∈ ts) : t.type ≠ .primary ∧
      (t.type = .identifier → ∃ text, t = .name .identifier text) ∧
      (t.type = .doubleLiteral → ∃ text, t = .literal .doubleLiteral text) := by
  rcases h.terminal ht with hplain | rfl | rfl | ⟨text, rfl⟩
  · cases t with
    | word type =>
      refine ⟨?_, ?_, ?_⟩
      all_goals
        rintro rfl
        cases hplain
    | name type text =>
      refine ⟨?_, ?_, ?_⟩
      · rintro rfl
        cases hplain
      · rintro rfl
        exact ⟨text, rfl⟩
      · rintro rfl
        cases hplain
    | literal type text =>
      refine ⟨?_, ?_, ?_⟩
      · rintro rfl
        cases hplain
      · rintro rfl
        cases hplain
      · rintro rfl
        exact ⟨text, rfl⟩
    | count text => cases hplain
  all_goals exact ⟨(fun h => nomatch h), (fun h => nomatch h), (fun h => nomatch h)⟩

end Htap.Parser
