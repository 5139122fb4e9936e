import Htap.Parser.Printing
import Htap.Properties.OneStatement

/-!
Parsing a printed statement gives back its tree. Identifiers must be no keywords of
the lexer, which knows one more than the documentation lists, and doubles must be
convertible.
-/

namespace Htap.Properties

open Storage Htap.Parser

/-! ## Expressions -/

/-- What a tighter level derives, a looser one does. -/
theorem derives_loosen {required actual : Level} {ts : List Terminal} {e : Expression}
    (hrank : required.rank ≤ actual.rank) (h : Derives actual ts e) : Derives required ts e := by
  have hpredicate : Derives .atomic ts e → Derives .predicate ts e := .predicateOperand
  have hnot : Derives .predicate ts e → Derives .not ts e := .notOperand
  have hand : Derives .not ts e → Derives .and ts e := .andOperand
  have hor : Derives .and ts e → Derives .or ts e := .orOperand
  cases required with
  | or =>
    cases actual with
    | or => exact h
    | and => exact hor h
    | not => exact hor (hand h)
    | predicate => exact hor (hand (hnot h))
    | atomic => exact hor (hand (hnot (hpredicate h)))
  | and =>
    cases actual with
    | or => exact absurd hrank (by decide)
    | and => exact h
    | not => exact hand h
    | predicate => exact hand (hnot h)
    | atomic => exact hand (hnot (hpredicate h))
  | not =>
    cases actual with
    | or | and => exact absurd hrank (by decide)
    | not => exact h
    | predicate => exact hnot h
    | atomic => exact hnot (hpredicate h)
  | predicate =>
    cases actual with
    | or | and | not => exact absurd hrank (by decide)
    | predicate => exact h
    | atomic => exact hpredicate h
  | atomic =>
    cases actual with
    | or | and | not | predicate => exact absurd hrank (by decide)
    | atomic => exact h

/-- Tokens that are printed for a tree of the grammar `D`. -/
def Prints {α : Type} (D : List Terminal → α → Prop) (texts : List Bytes) (a : α) : Prop :=
  ∃ ts, List.Forall₂ Writes texts ts ∧ D ts a

private theorem writes_lParen : Writes (ascii "(") (.word .lParen) :=
  writes_symbol (by simp [symbols])

private theorem writes_rParen : Writes (ascii ")") (.word .rParen) :=
  writes_symbol (by simp [symbols])

private theorem prints_enclose (required : Level) {actual : Level} {texts : List Bytes}
    {e : Expression}
    (h : Prints (Derives actual) texts e) :
    Prints (Derives required) (enclose required actual texts) e := by
  obtain ⟨ts, htexts, he⟩ := h
  unfold enclose
  split_ifs with hrank
  · exact ⟨ts, htexts, derives_loosen hrank he⟩
  · have hor : Derives .or ts e := derives_loosen (Nat.zero_le _) he
    refine ⟨.word .lParen :: (ts ++ [.word .rParen]), ?_, ?_⟩
    · exact .cons writes_lParen (List.rel_append htexts (.cons writes_rParen .nil))
    · exact derives_loosen (by cases required <;> decide) (.parentheses hor)

/-- Every keyword is a word of its type. -/
private theorem keywords_words : ∀ entry ∈ keywords,
    IsWord entry.1 ∧ keywordType entry.1 = entry.2 := by decide +kernel

/-- Keywords as they are printed. -/
private theorem writes_keyword {word : Bytes} {type : TokenType} (h : (word, type) ∈ keywords) :
    Writes word (.word type) :=
  writes_word (keywords_words _ h).1 id (keywords_words _ h).2

private theorem operation_writes (operation : BinaryOperation) :
    (operation = .or ∧ Writes (spellOperation operation) (.word .or)) ∨
    (operation = .and ∧ Writes (spellOperation operation) (.word .and)) ∨
    (operationLevels operation = (.predicate, .atomic, .atomic) ∧
      ∃ type, (type, operation) ∈ comparisons ∧ Writes (spellOperation operation)
        (.word type)) := by
  cases operation with
  | or => exact Or.inl ⟨rfl, writes_keyword (by simp [keywords, spellOperation])⟩
  | and => exact Or.inr (Or.inl ⟨rfl, writes_keyword (by simp [keywords, spellOperation])⟩)
  | equal =>
    exact Or.inr (Or.inr ⟨rfl, .equal, by decide,
      writes_symbol (by simp [symbols, spellOperation])⟩)
  | notEqual =>
    exact Or.inr (Or.inr ⟨rfl, .notEqual, by decide,
      writes_symbol (by simp [symbols, spellOperation])⟩)
  | less =>
    exact Or.inr (Or.inr ⟨rfl, .less, by decide,
      writes_symbol (by simp [symbols, spellOperation])⟩)
  | lessEqual =>
    exact Or.inr (Or.inr ⟨rfl, .lessEqual, by decide,
      writes_symbol (by simp [symbols, spellOperation])⟩)
  | greater =>
    exact Or.inr (Or.inr ⟨rfl, .greater, by decide,
      writes_symbol (by simp [symbols, spellOperation])⟩)
  | greaterEqual =>
    exact Or.inr (Or.inr ⟨rfl, .greaterEqual, by decide,
      writes_symbol (by simp [symbols, spellOperation])⟩)

/-- A printed literal is one token. -/
theorem prints_literal {e : SpelledExpression} (hliteral : e.isLiteral = true)
    (h : e.Writable keywordType IsConvertible) : Prints Literal e.print e.tree := by
  cases e with
  | nullLiteral =>
    have hnull := keywords_words (ascii "NULL", .null) (by simp [keywords])
    refine ⟨[.literal .null (ascii "NULL")], .cons (writes_word hnull.1 ?_ ⟨hnull.2, rfl⟩) .nil,
      .intro ⟨_, rfl, fun _ h => by cases h; rfl⟩⟩
    rintro ⟨e, he⟩
    cases he
  | intLiteral value =>
    have hvalue : Parser.literal .intLiteral (spellInteger value) =
      some (.ok (.intLiteral value)) := by
      have hliteral : Parser.literal .intLiteral (spellInteger value) =
          some ((stoll (spellInteger value)).map Expression.intLiteral) := rfl
      rw [hliteral, stoll_spellInteger]
      rfl
    refine ⟨[.literal .intLiteral (spellInteger value)], .cons ?_ .nil,
      .intro ⟨_, hvalue, fun _ h => by cases h; rfl⟩⟩
    have hfails : ¬(Terminal.literal .intLiteral (spellInteger value)).Fails := by
      rintro ⟨e, he⟩
      rw [hvalue] at he
      cases he
    obtain ⟨sign, digits, hsign, hdigits, hspell, -⟩ := spellInteger_eq value
    have hwrites := @writes_integer sign digits (.literal .intLiteral (sign ++ digits)) hsign
      hdigits
      (hspell ▸ hfails) ⟨rfl, rfl⟩
    rw [← hspell] at hwrites
    exact hwrites
  | doubleLiteral spelling =>
    obtain ⟨⟨sign, whole, fraction, hsign, hwhole, hfraction, hspelling⟩, value, hvalue⟩ := h
    have hliteral : Parser.literal .doubleLiteral spelling =
        some ((stod spelling).map Expression.doubleLiteral) := rfl
    rw [hvalue] at hliteral
    refine ⟨[.literal .doubleLiteral spelling], .cons ⟨?_, ?_⟩ .nil, .intro ⟨_, hliteral, ?_⟩⟩
    · rintro ⟨e, he⟩
      rw [hliteral] at he
      cases he
    · intro rest hrest
      subst hspelling
      exact ⟨_, _, .double hsign hwhole hfraction (hrest.stops (by decide)), rfl, rfl⟩
    · intro e he
      cases he
      rw [SpelledExpression.tree, spelledDouble, hvalue]
  | stringLiteral value =>
    refine ⟨[.literal .stringLiteral value], .cons ⟨?_, ?_⟩ .nil,
      .intro ⟨_, rfl, fun _ h => by cases h; rfl⟩⟩
    · rintro ⟨e, he⟩
      cases he
    · exact fun rest hrest => ⟨_, _, .string (hrest.stops (by decide)), rfl, rfl⟩
  | unary => cases hliteral
  | binary => cases hliteral
  | column => cases hliteral
  | isNull => cases hliteral

private theorem writes_name {name : Bytes} {type : TokenType} (hword : IsWord name)
    (htype : keywordType name = type) : Writes name (.name type name) :=
  writes_word hword id ⟨htype, rfl⟩

private theorem derives_of_literal {ts : List Terminal} {e : Expression} (h : Literal ts e) :
    Derives .atomic ts e := by
  cases h with
  | intro h => exact .literal h

/-- The tokens of an expression derive its tree at its level. -/
theorem prints_expression {e : SpelledExpression} (h : e.Writable keywordType IsConvertible) :
    Prints (Derives e.level) e.print e.tree := by
  have hliteral : ∀ {e : SpelledExpression}, e.isLiteral = true →
      e.Writable keywordType IsConvertible → Prints (Derives .atomic) e.print e.tree := by
    intro e hliteral h
    obtain ⟨ts, htexts, hts⟩ := prints_literal hliteral h
    exact ⟨ts, htexts, derives_of_literal hts⟩
  induction e with
  | nullLiteral => exact hliteral rfl h
  | intLiteral value => exact hliteral rfl h
  | doubleLiteral spelling => exact hliteral rfl h
  | stringLiteral value => exact hliteral rfl h
  | unary operation e ih =>
    obtain ⟨ts, htexts, he⟩ := prints_enclose .not (ih h)
    exact ⟨_, .cons (writes_keyword (by simp [keywords])) htexts, .not he⟩
  | binary operation left right ihleft ihright =>
    obtain ⟨ts, hleft, hl⟩ := prints_enclose (operationLevels operation).2.1 (ihleft h.1)
    obtain ⟨us, hright, hr⟩ := prints_enclose (operationLevels operation).2.2 (ihright h.2)
    rcases operation_writes operation with ⟨rfl, hwrites⟩ | ⟨rfl, hwrites⟩ |
      ⟨hlevels, type, hmem, hwrites⟩
    · exact ⟨_, List.rel_append hleft (.cons hwrites hright), .or hl hr⟩
    · exact ⟨_, List.rel_append hleft (.cons hwrites hright), .and hl hr⟩
    · refine ⟨_, List.rel_append hleft (.cons hwrites hright), ?_⟩
      rw [hlevels] at hl hr
      rw [SpelledExpression.level, hlevels]
      exact .comparison hl hmem hr
  | column name =>
    obtain ⟨hword, hcolumn⟩ := h
    exact ⟨_, .cons (writes_name hword rfl) .nil, .column hcolumn⟩
  | isNull e isNot ih =>
    obtain ⟨ts, htexts, he⟩ := prints_enclose .atomic (ih h)
    have his : Writes (ascii "IS") (.word .is) :=
      writes_keyword (by simp [keywords])
    have hnot : Writes (ascii "NOT") (.word .not) :=
      writes_keyword (by simp [keywords])
    have hnull : Writes (ascii "NULL") (.word .null) :=
      writes_keyword (by simp [keywords])
    cases isNot with
    | false =>
      exact ⟨_, List.rel_append htexts (.cons his (.cons hnull .nil)), .isNull he⟩
    | true =>
      exact ⟨_, List.rel_append htexts (.cons his (.cons hnot (.cons hnull .nil))), .isNotNull he⟩

/-- Printed where any expression may stand. -/
private theorem prints_or {e : SpelledExpression} (h : e.Writable keywordType IsConvertible) :
    Prints (Derives .or) e.print e.tree := by
  obtain ⟨ts, htexts, he⟩ := prints_expression h
  exact ⟨ts, htexts, derives_loosen (Nat.zero_le _) he⟩

/-! ## Statements -/

private theorem prints_list {α β : Type} {D : List Terminal → β → Prop} {print : α → List Bytes}
    {tree : α → β} {items : List α} (hne : items ≠ [])
    (h : ∀ a ∈ items, Prints D (print a) (tree a)) :
    Prints (Separated D) (printList (items.map print)) (items.map tree) := by
  induction items with
  | nil => exact absurd rfl hne
  | cons a rest ih =>
    obtain ⟨ts, htexts, ha⟩ := h a List.mem_cons_self
    cases rest with
    | nil => exact ⟨ts, htexts, .one ha⟩
    | cons b rest =>
      obtain ⟨us, hrest, hb⟩ := ih (List.cons_ne_nil _ _) fun c hc =>
        h c (List.mem_cons_of_mem _ hc)
      have hcomma : Writes (ascii ",") (.word .comma) := writes_symbol (by simp [symbols])
      exact ⟨_, List.rel_append htexts (.cons hcomma hrest), .cons ha hb⟩

private theorem prints_column {column : ColumnDefinition}
    (h : IsColumn keywordType column.name)
    (hmodifier : ¬(column.isKey = true ∧ column.nullable = true)) :
    Prints Column (printColumn column) column := by
  obtain ⟨name, type, nullable, isKey⟩ := column
  obtain ⟨hword, hcolumn⟩ := h
  have hname := writes_name hword rfl
  have htype : ∃ word, (word, type) ∈ columnTypes ∧ Writes (spellType type) (.word word) := by
    cases type with
    | string => exact ⟨.stringType, by decide, writes_keyword (by simp [keywords, spellType])⟩
    | int64 => exact ⟨.int64Type, by decide, writes_keyword (by simp [keywords, spellType])⟩
    | double => exact ⟨.doubleType, by decide, writes_keyword (by simp [keywords, spellType])⟩
  obtain ⟨word, hmem, htype⟩ := htype
  cases isKey with
  | true =>
    cases nullable with
    | true => exact absurd ⟨rfl, rfl⟩ hmodifier
    | false =>
      exact ⟨_, .cons hname (.cons htype (.cons
        (writes_keyword (by simp [keywords])) .nil)),
        .intro hcolumn hmem .key⟩
  | false =>
    cases nullable with
    | true =>
      exact ⟨_, .cons hname (.cons htype (.cons
        (writes_keyword (by simp [keywords])) .nil)),
        .intro hcolumn hmem .null⟩
    | false => exact ⟨_, .cons hname (.cons htype .nil), .intro hcolumn hmem .none⟩

private theorem prints_item {item : SpelledItem} (h : item.Writable keywordType IsConvertible) :
    Prints Item item.print item.tree := by
  cases item with
  | star => exact ⟨_, .cons (writes_symbol (by simp [symbols])) .nil, .star⟩
  | expression e =>
    obtain ⟨ts, htexts, he⟩ := prints_or h
    exact ⟨ts, htexts, .expression he⟩
  | aggregate kind e =>
    obtain ⟨ts, htexts, he⟩ := prints_or h
    have hkind : ∃ type, (type, kind) ∈ aggregates ∧ Writes (spellAggregate kind) (.word type) := by
      cases kind with
      | count => exact ⟨.count, by decide, writes_keyword (by simp [keywords, spellAggregate])⟩
      | sum => exact ⟨.sum, by decide, writes_keyword (by simp [keywords, spellAggregate])⟩
      | avg => exact ⟨.avg, by decide, writes_keyword (by simp [keywords, spellAggregate])⟩
      | min => exact ⟨.min, by decide, writes_keyword (by simp [keywords, spellAggregate])⟩
      | max => exact ⟨.max, by decide, writes_keyword (by simp [keywords, spellAggregate])⟩
    obtain ⟨type, hmem, hkind⟩ := hkind
    exact ⟨_, .cons hkind (.cons writes_lParen (List.rel_append htexts (.cons writes_rParen .nil))),
      .aggregate hmem he⟩

private theorem prints_order {item : SpelledOrder}
    (h : item.expression.Writable keywordType IsConvertible) :
    Prints OrderItem item.print item.tree := by
  obtain ⟨e, direction⟩ := item
  obtain ⟨ts, htexts, he⟩ := prints_or h
  cases direction with
  | asc =>
    have hasc : Writes (ascii "ASC") (.word .asc) :=
      writes_keyword (by simp [keywords])
    exact ⟨_, List.rel_append htexts (.cons hasc .nil), .intro he .asc⟩
  | desc =>
    have hdesc : Writes (ascii "DESC") (.word .desc) :=
      writes_keyword (by simp [keywords])
    exact ⟨_, List.rel_append htexts (.cons hdesc .nil), .intro he .desc⟩

private theorem prints_where {condition : Option SpelledExpression}
    (h : ∀ e ∈ condition, e.Writable keywordType IsConvertible) :
    Prints Where (printWhere condition) (condition.map SpelledExpression.tree) := by
  cases condition with
  | none => exact ⟨[], .nil, .none⟩
  | some e =>
    obtain ⟨ts, htexts, he⟩ := prints_or (h e rfl)
    exact ⟨_, .cons (writes_keyword (by simp [keywords])) htexts, .some he⟩

private theorem prints_by {α β : Type} {D : List Terminal → β → Prop} {print : α → List Bytes}
    {tree : α → β} {items : List α} {word : Bytes} {keyword : TokenType}
    (hkeyword : Writes word (.word keyword)) (h : ∀ a ∈ items, Prints D (print a) (tree a)) :
    Prints (ByClause keyword D) (printBy word (items.map print)) (items.map tree) := by
  unfold printBy
  split_ifs with hnil
  · rw [List.map_eq_nil_iff.mp hnil]
    exact ⟨[], .nil, .none⟩
  · obtain ⟨ts, htexts, hitems⟩ := prints_list (fun h => hnil (List.map_eq_nil_iff.mpr h)) h
    exact ⟨_, .cons hkeyword (.cons (writes_keyword (by simp [keywords])) htexts),
      .some hitems⟩

private theorem prints_limit {limit : Option Nat} (h : ∀ n ∈ limit, n < 2 ^ 64) :
    Prints Limit (printLimit limit) limit := by
  cases limit with
  | none => exact ⟨[], .nil, .none⟩
  | some n =>
    have hvalue := stoull_decimal (h n rfl)
    have hfails : ¬(Terminal.count (decimal n)).Fails := by
      rintro ⟨e, he⟩
      rw [hvalue] at he
      cases he
    have hcount : Writes (decimal n) (.count (decimal n)) :=
      @writes_integer [] (decimal n) (.count (decimal n)) (Or.inl rfl) (isDigits_decimal n) hfails
        ⟨rfl, rfl⟩
    refine ⟨_, .cons (writes_keyword (by simp [keywords])) (.cons hcount .nil),
      .some fun m hm => ?_⟩
    rw [hvalue] at hm
    cases hm
    rfl

/-- The tokens of a statement derive its tree. -/
theorem prints_statement {s : SpelledStatement} (h : s.Writable keywordType IsConvertible) :
    Prints Sentence s.print s.tree := by
  have hrParen := writes_rParen
  have hlParen := writes_lParen
  have hsemicolon : Writes (ascii ";") (.word .semicolon) := writes_symbol (by simp [symbols])
  cases s with
  | createTable name columns =>
    obtain ⟨⟨hword, hname⟩, hne, hcolumns⟩ := h
    have hcreate : Writes (ascii "CREATE") (.word .create) :=
      writes_keyword (by simp [keywords])
    have htable : Writes (ascii "TABLE") (.word .table) :=
      writes_keyword (by simp [keywords])
    obtain ⟨ts, htexts, hts⟩ := @prints_list _ _ Column printColumn id columns hne
      fun c hc => prints_column (hcolumns c hc).1 (hcolumns c hc).2
    rw [List.map_id] at hts
    refine ⟨_, List.rel_append (List.rel_append ?_ htexts) ?_, .createTable hts⟩
    · exact .cons hcreate (.cons htable (.cons (writes_name hword hname) (.cons hlParen .nil)))
    · exact .cons hrParen (.cons hsemicolon .nil)
  | insert name columns values =>
    obtain ⟨⟨hword, hname⟩, hne, hne', hcolumns, hvalues⟩ := h
    have hinsert : Writes (ascii "INSERT") (.word .insert) :=
      writes_keyword (by simp [keywords])
    have hinto : Writes (ascii "INTO") (.word .into) :=
      writes_keyword (by simp [keywords])
    have hvaluesWord : Writes (ascii "VALUES") (.word .values) :=
      writes_keyword (by simp [keywords])
    obtain ⟨ts, htexts, hts⟩ := @prints_list _ _ ColumnName ([·]) id columns hne fun c hc =>
      ⟨_, .cons (writes_name (hcolumns c hc).1 rfl) .nil, .intro (hcolumns c hc).2⟩
    obtain ⟨us, htexts', hus⟩ := prints_list hne' fun v hv =>
      prints_literal (hvalues v hv).1 (hvalues v hv).2
    rw [List.map_id] at hts
    refine ⟨_, List.rel_append (List.rel_append (List.rel_append (List.rel_append ?_ htexts) ?_)
      htexts') ?_, .insert hts hus⟩
    · exact .cons hinsert (.cons hinto (.cons (writes_name hword hname) (.cons hlParen .nil)))
    · exact .cons hrParen (.cons hvaluesWord (.cons hlParen .nil))
    · exact .cons hrParen (.cons hsemicolon .nil)
  | select name items condition groupBy orderBy limit =>
    obtain ⟨⟨hword, hname⟩, hne, hitems, hcondition, hgroupBy, horderBy, hlimit⟩ := h
    have hselect : Writes (ascii "SELECT") (.word .select) :=
      writes_keyword (by simp [keywords])
    have hfrom : Writes (ascii "FROM") (.word .from) :=
      writes_keyword (by simp [keywords])
    have hgroup : Writes (ascii "GROUP") (.word .group) :=
      writes_keyword (by simp [keywords])
    have horder : Writes (ascii "ORDER") (.word .order) :=
      writes_keyword (by simp [keywords])
    obtain ⟨ts, htexts, hts⟩ := prints_list hne fun item hi => prints_item (hitems item hi)
    obtain ⟨us, hwheres, hus⟩ := prints_where hcondition
    obtain ⟨vs, hgroups, hvs⟩ := prints_by hgroup fun e he => prints_or (hgroupBy e he)
    obtain ⟨ws, horders, hws⟩ := prints_by horder fun item hi => prints_order (horderBy item hi)
    obtain ⟨xs, hlimits, hxs⟩ := prints_limit hlimit
    refine ⟨_, List.rel_append (List.rel_append (List.rel_append (List.rel_append (List.rel_append
      (List.rel_append (List.rel_append ?_ htexts) ?_) hwheres) hgroups) horders) hlimits) ?_,
      .select hts hus hvs hws hxs⟩
    · exact .cons hselect .nil
    · exact .cons hfrom (.cons (writes_name hword hname) .nil)
    · exact .cons hsemicolon .nil

/-- Parsing the text of a statement gives back its tree. `Writable` asks what the parser
asks: names that are identifiers and no keywords, doubles that convert, lists with an
element where one is required, literals as inserted values, and a LIMIT within `uint64_t`.
-/
theorem parse_print (s : SpelledStatement) (h : s.Writable keywordType IsConvertible) :
    parse s.text = .ok s.tree := by
  obtain ⟨ts, htexts, hs⟩ := prints_statement h
  obtain ⟨hspells, hfits⟩ := spells_render htexts
  exact parse_of_spells hs hspells hfits (create_of_blank (by decide))

/-- Parentheses, negative literals, quotes and a spelled double. -/
theorem parse_print_select :
    let s : SpelledStatement := .select (ascii "t") [.star]
      (some (.binary .or (.unary .not (.isNull (.column (ascii "key")) true))
        (.binary .equal (.stringLiteral [39]) (.binary .and (.doubleLiteral (ascii "-0.50"))
          (.intLiteral Int64.minValue))))) [] [⟨.column (ascii "a"), .desc⟩] (some 3)
    parse s.text = .ok s.tree := by
  intro s
  apply parse_print
  refine ⟨⟨by decide +kernel, by decide +kernel⟩, List.cons_ne_nil _ _, ?_, ?_, ?_, ?_, ?_⟩
  · intro item hitem
    rw [List.mem_singleton.mp hitem]
    trivial
  · rintro e ⟨rfl⟩
    have hdouble : IsConvertible (ascii "-0.50") := by
      refine ⟨⟨[45], [48], [53, 48], by decide, by decide, by decide, by decide +kernel⟩,
        ⟨0xBFE0000000000000⟩, by decide +kernel⟩
    have hcolumn : IsColumn keywordType (ascii "key") :=
      ⟨by decide +kernel, Or.inr (by decide +kernel)⟩
    exact ⟨hcolumn, trivial, hdouble, trivial⟩
  · intro e he
    cases he
  · intro item hitem
    rw [List.mem_singleton.mp hitem]
    exact ⟨by decide +kernel, Or.inl (by decide +kernel)⟩
  · rintro n ⟨rfl⟩
    decide

/-- A column named by the word that the lexer alone takes for a keyword. -/
theorem parse_print_reserved :
    ∃ s : SpelledStatement, s.Writable documentedType IsDouble ∧ parse s.text ≠ .ok s.tree := by
  refine ⟨.createTable (ascii "t") [⟨ascii "primary", .int64, false, false⟩], ?_, ?_⟩
  · refine ⟨⟨by decide +kernel, by decide +kernel⟩, List.cons_ne_nil _ _, fun c hc => ?_⟩
    rw [List.mem_singleton.mp hc]
    exact ⟨⟨by decide +kernel, Or.inl (by decide +kernel)⟩, by decide⟩
  · have hrun : (parse (SpelledStatement.createTable (ascii "t")
        [⟨ascii "primary", .int64, false, false⟩]).text).toOption = none := by decide +kernel
    intro h
    rw [h] at hrun
    cases hrun

end Htap.Properties
