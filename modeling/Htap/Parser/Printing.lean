import Htap.Parser.Numbers
import Htap.Parser.Spelling

/-!
Printing syntax trees with only the parentheses that the precedence of the operators
requires. Double literals are kept as they are spelled, so the trees that are
printed have a spelling where the trees of the parser have a double.
-/

namespace Htap.Parser

open Storage

/-! ## Trees with spelled doubles -/

inductive SpelledExpression where
  | nullLiteral
  | intLiteral (value : Int64)
  | doubleLiteral (spelling : Bytes)
  | stringLiteral (value : Bytes)
  | unary (operation : UnaryOperation) (expression : SpelledExpression)
  | binary (operation : BinaryOperation) (left right : SpelledExpression)
  | column (columnName : Bytes)
  | isNull (expression : SpelledExpression) (isNot : Bool)
  deriving DecidableEq

inductive SpelledItem where
  | star
  | expression (expression : SpelledExpression)
  | aggregate (kind : AggregateKind) (expression : SpelledExpression)
  deriving DecidableEq

structure SpelledOrder where
  expression : SpelledExpression
  direction : OrderDirection
  deriving DecidableEq

inductive SpelledStatement where
  | createTable (tableName : Bytes) (columns : List ColumnDefinition)
  | insert (tableName : Bytes) (columnNames : List Bytes) (values : List SpelledExpression)
  | select (tableName : Bytes) (selectItems : List SpelledItem)
      (whereExpression : Option SpelledExpression) (groupByItems : List SpelledExpression)
      (orderByItems : List SpelledOrder) (limit : Option Nat)
  deriving DecidableEq

/-- The double that a spelling denotes. -/
def spelledDouble (spelling : Bytes) : Binary64 :=
  match stod spelling with
  | .ok value => value
  | .error _ => ⟨0⟩

/-- The tree with the double that each spelling denotes. -/
def SpelledExpression.tree : SpelledExpression → Expression
  | nullLiteral => .nullLiteral
  | intLiteral value => .intLiteral value
  | doubleLiteral spelling => .doubleLiteral (spelledDouble spelling)
  | stringLiteral value => .stringLiteral value
  | unary operation e => .unary operation e.tree
  | binary operation left right => .binary operation left.tree right.tree
  | column name => .column name
  | isNull e isNot => .isNull e.tree isNot

def SpelledItem.tree : SpelledItem → SelectItem
  | star => .star
  | expression e => .expression e.tree
  | aggregate kind e => .aggregate kind e.tree

def SpelledOrder.tree (item : SpelledOrder) : OrderByItem := ⟨item.expression.tree, item.direction⟩

def SpelledStatement.tree : SpelledStatement → Statement
  | createTable name columns => .createTable ⟨name, columns⟩
  | insert name columns values => .insert ⟨name, columns, values.map SpelledExpression.tree⟩
  | select name items condition groupBy orderBy limit =>
    .select ⟨name, items.map SpelledItem.tree, condition.map SpelledExpression.tree,
      groupBy.map SpelledExpression.tree, orderBy.map SpelledOrder.tree, limit⟩

/-! ## Texts of tokens -/

/-- The decimal digits of a number. -/
def decimal (n : Nat) : Bytes :=
  if n < 10 then [UInt8.ofNat (48 + n)] else decimal (n / 10) ++ [UInt8.ofNat (48 + n % 10)]

def spellInteger (value : Int64) : Bytes :=
  if value.toInt < 0 then 45 :: decimal value.toInt.natAbs else decimal value.toInt.natAbs

def spellOperation : BinaryOperation → Bytes
  | .equal => ascii "="
  | .notEqual => ascii "!="
  | .less => ascii "<"
  | .lessEqual => ascii "<="
  | .greater => ascii ">"
  | .greaterEqual => ascii ">="
  | .and => ascii "AND"
  | .or => ascii "OR"

def spellType : DataType → Bytes
  | .string => ascii "STRING"
  | .int64 => ascii "INT64"
  | .double => ascii "DOUBLE"

def spellAggregate : AggregateKind → Bytes
  | .count => ascii "COUNT"
  | .sum => ascii "SUM"
  | .avg => ascii "AVG"
  | .min => ascii "MIN"
  | .max => ascii "MAX"

/-! ## Expressions -/

/-- How tightly a level binds. -/
def Level.rank : Level → Nat
  | .or => 0
  | .and => 1
  | .not => 2
  | .predicate => 3
  | .atomic => 4

/-- The levels of an operator, of its left and of its right operand. -/
def operationLevels : BinaryOperation → Level × Level × Level
  | .or => (.or, .or, .and)
  | .and => (.and, .and, .not)
  | _ => (.predicate, .atomic, .atomic)

def SpelledExpression.level : SpelledExpression → Level
  | unary _ _ => .not
  | binary operation _ _ => (operationLevels operation).1
  | isNull _ _ => .predicate
  | _ => .atomic

/-- Parentheses where an operand binds less tightly than its place requires. -/
def enclose (required actual : Level) (texts : List Bytes) : List Bytes :=
  if required.rank ≤ actual.rank then texts else ascii "(" :: (texts ++ [ascii ")"])

/-- The tokens of an expression. -/
def SpelledExpression.print : SpelledExpression → List Bytes
  | nullLiteral => [ascii "NULL"]
  | intLiteral value => [spellInteger value]
  | doubleLiteral spelling => [spelling]
  | stringLiteral value => [quoted value]
  | unary .not e => ascii "NOT" :: enclose .not e.level e.print
  | binary operation left right =>
    enclose (operationLevels operation).2.1 left.level left.print ++
      spellOperation operation :: enclose (operationLevels operation).2.2 right.level right.print
  | column name => [name]
  | isNull e false => enclose .atomic e.level e.print ++ [ascii "IS", ascii "NULL"]
  | isNull e true => enclose .atomic e.level e.print ++ [ascii "IS", ascii "NOT", ascii "NULL"]

/-! ## Statements -/

/-- Lists of tokens with commas between them. -/
def printList : List (List Bytes) → List Bytes
  | [] => []
  | [texts] => texts
  | texts :: rest => texts ++ ascii "," :: printList rest

def printColumn (column : ColumnDefinition) : List Bytes :=
  [column.name, spellType column.type] ++
    if column.isKey then [ascii "KEY"] else if column.nullable then [ascii "NULL"] else []

def SpelledItem.print : SpelledItem → List Bytes
  | star => [ascii "*"]
  | expression e => e.print
  | aggregate kind e => spellAggregate kind :: ascii "(" :: (e.print ++ [ascii ")"])

def SpelledOrder.print (item : SpelledOrder) : List Bytes :=
  item.expression.print ++ [match item.direction with | .asc => ascii "ASC" | .desc => ascii "DESC"]

def printWhere : Option SpelledExpression → List Bytes
  | none => []
  | some e => ascii "WHERE" :: e.print

/-- `GROUP BY` or `ORDER BY` in front of items, if there are any. -/
def printBy (keyword : Bytes) (items : List (List Bytes)) : List Bytes :=
  if items = [] then [] else keyword :: ascii "BY" :: printList items

def printLimit : Option Nat → List Bytes
  | none => []
  | some n => [ascii "LIMIT", decimal n]

def SpelledStatement.print : SpelledStatement → List Bytes
  | createTable name columns =>
    [ascii "CREATE", ascii "TABLE", name, ascii "("] ++ printList (columns.map printColumn) ++
      [ascii ")", ascii ";"]
  | insert name columns values =>
    [ascii "INSERT", ascii "INTO", name, ascii "("] ++ printList (columns.map ([·])) ++
      [ascii ")", ascii "VALUES", ascii "("] ++ printList (values.map SpelledExpression.print) ++
      [ascii ")", ascii ";"]
  | select name items condition groupBy orderBy limit =>
    [ascii "SELECT"] ++ printList (items.map SpelledItem.print) ++ [ascii "FROM", name] ++
      printWhere condition ++ printBy (ascii "GROUP") (groupBy.map SpelledExpression.print) ++
      printBy (ascii "ORDER") (orderBy.map SpelledOrder.print) ++ printLimit limit ++ [ascii ";"]

/-- Tokens with spaces between them. -/
def render : List Bytes → Bytes
  | [] => []
  | text :: texts => text ++ texts.flatMap (32 :: ·)

/-- The text of a statement. -/
def SpelledStatement.text (s : SpelledStatement) : Bytes := render s.print

/-! ## Trees that the syntax can denote -/

section Writable

variable (classify : Bytes → TokenType) (isDouble : Bytes → Prop)

/-- A word of which `classify` says that it may name a table. -/
def IsTableName (name : Bytes) : Prop := IsWord name ∧ classify name = .identifier

def IsColumn (name : Bytes) : Prop := IsWord name ∧ IsColumnName (classify name)

def SpelledExpression.Writable : SpelledExpression → Prop
  | doubleLiteral spelling => isDouble spelling
  | unary _ e => e.Writable
  | binary _ left right => left.Writable ∧ right.Writable
  | column name => IsColumn classify name
  | isNull e _ => e.Writable
  | _ => True

def SpelledExpression.isLiteral : SpelledExpression → Bool
  | nullLiteral | intLiteral _ | doubleLiteral _ | stringLiteral _ => true
  | _ => false

def SpelledItem.Writable : SpelledItem → Prop
  | star => True
  | expression e => e.Writable classify isDouble
  | aggregate _ e => e.Writable classify isDouble

/-- Lists are not empty but for those of absent clauses, no column is a key and
nullable, inserted values are literals, and LIMIT is within `uint64_t`. -/
def SpelledStatement.Writable : SpelledStatement → Prop
  | createTable name columns => IsTableName classify name ∧ columns ≠ [] ∧
      ∀ c ∈ columns, IsColumn classify c.name ∧ ¬(c.isKey = true ∧ c.nullable = true)
  | insert name columns values => IsTableName classify name ∧ columns ≠ [] ∧ values ≠ [] ∧
      (∀ c ∈ columns, IsColumn classify c) ∧
      ∀ v ∈ values, v.isLiteral = true ∧ v.Writable classify isDouble
  | select name items condition groupBy orderBy limit => IsTableName classify name ∧ items ≠ [] ∧
      (∀ item ∈ items, item.Writable classify isDouble) ∧
      (∀ e ∈ condition, e.Writable classify isDouble) ∧
      (∀ e ∈ groupBy, e.Writable classify isDouble) ∧
      (∀ item ∈ orderBy, item.expression.Writable classify isDouble) ∧ ∀ n ∈ limit, n < 2 ^ 64

end Writable

/-- A sign, digits, a point and digits. -/
def IsDouble (spelling : Bytes) : Prop :=
  ∃ sign whole fraction, IsSign sign ∧ IsDigits whole ∧ IsDigits fraction ∧
    spelling = sign ++ whole ++ 46 :: fraction

/-- A double literal that `std::stod` converts. -/
def IsConvertible (spelling : Bytes) : Prop :=
  IsDouble spelling ∧ ∃ value, stod spelling = .ok value

/-! ## Numbers -/

private theorem digit_toNat {n : Nat} (h : n < 10) :
    (UInt8.ofNat (48 + n)).toNat - 48 = n ∧ isDigit (UInt8.ofNat (48 + n)) = true := by
  interval_cases n
  all_goals decide

theorem isDigits_decimal (n : Nat) : IsDigits (decimal n) := by
  induction n using Nat.strong_induction_on with
  | _ n ih =>
    rw [decimal]
    split_ifs with h
    · refine ⟨List.cons_ne_nil _ _, fun c hc => ?_⟩
      rw [List.mem_singleton.mp hc]
      exact (digit_toNat h).2
    · have hrest := ih (n / 10) (by omega)
      refine ⟨List.append_ne_nil_of_left_ne_nil hrest.1 _, fun c hc => ?_⟩
      rcases List.mem_append.mp hc with hc | hc
      · exact hrest.2 c hc
      · rw [List.mem_singleton.mp hc]
        exact (digit_toNat (Nat.mod_lt n (by decide))).2

theorem digitsValue_decimal (n : Nat) : digitsValue (decimal n) = n := by
  induction n using Nat.strong_induction_on with
  | _ n ih =>
    rw [decimal]
    split_ifs with h
    · rw [digitsValue, List.foldl_cons, List.foldl_nil, (digit_toNat h).1]
      omega
    · have hrest := ih (n / 10) (by omega)
      rw [digitsValue] at hrest ⊢
      rw [List.foldl_append, hrest, List.foldl_cons, List.foldl_nil,
        (digit_toNat (Nat.mod_lt n (by decide))).1]
      omega

/-- The spelling of an integer is a sign and digits with its value. -/
theorem spellInteger_eq (value : Int64) : ∃ sign digits, IsSign sign ∧ IsDigits digits ∧
    spellInteger value = sign ++ digits ∧ integerValue (sign ++ digits) = value.toInt := by
  have hdigits := isDigits_decimal value.toInt.natAbs
  unfold spellInteger
  split_ifs with h
  · refine ⟨[45], _, Or.inr rfl, hdigits, rfl, ?_⟩
    rw [integerValue_integer (Or.inr rfl) hdigits, if_pos rfl, digitsValue_decimal]
    omega
  · refine ⟨[], _, Or.inl rfl, hdigits, rfl, ?_⟩
    rw [integerValue_integer (Or.inl rfl) hdigits, if_neg (by decide), digitsValue_decimal]
    omega

theorem stoll_spellInteger (value : Int64) : stoll (spellInteger value) = .ok value := by
  obtain ⟨sign, digits, hsign, hdigits, hspell, hvalue⟩ := spellInteger_eq value
  rw [hspell, stoll_integer hsign hdigits, hvalue, if_pos, Int64.ofInt_toInt]
  exact ⟨Int64.le_toInt value, Int64.toInt_lt value⟩

theorem stoull_decimal {n : Nat} (h : n < 2 ^ 64) : stoull (decimal n) = .ok n := by
  have hstoull := stoull_integer (Or.inl rfl : IsSign []) (isDigits_decimal n)
  have hvalue := integerValue_integer (Or.inl rfl : IsSign []) (isDigits_decimal n)
  rw [List.nil_append] at hstoull hvalue
  rw [if_neg (by decide), digitsValue_decimal] at hvalue
  rw [hstoull, digitsValue_decimal, if_pos h, hvalue]
  congr 1
  omega

/-! ## Printed tokens -/

/-- A space stands in front of the rest, or there is none. -/
def Delimited (rest : Bytes) : Prop := ∀ c ∈ rest.head?, c = 32

/-- A text that is read as the terminal, whatever stands behind a space. -/
def Writes (spelling : Bytes) (t : Terminal) : Prop :=
  ¬t.Fails ∧ ∀ rest, Delimited rest → ∃ type text,
    Lexeme keywordType (spelling ++ rest) type text rest ∧ t.Matches type text

theorem Delimited.stops {rest : Bytes} (h : Delimited rest) {test : UInt8 → Bool}
    (htest : test 32 = false) : Stops test rest := by
  intro c hc
  rw [h c hc]
  exact htest

theorem writes_word {word : Bytes} {t : Terminal} (hword : IsWord word)
    (hfails : ¬t.Fails) (hmatches : t.Matches (keywordType word) word) : Writes word t :=
  ⟨hfails, fun _ hrest => ⟨_, _, .word hword (hrest.stops (by decide)), hmatches⟩⟩

theorem writes_symbol {text : Bytes} {type : TokenType} (h : (text, type) ∈ symbols) :
    Writes text (.word type) :=
  ⟨id, fun _ hrest => ⟨_, _, .symbol h fun _ => hrest.stops (by decide), rfl⟩⟩

theorem writes_integer {sign digits : Bytes} {t : Terminal} (hsign : IsSign sign)
    (hdigits : IsDigits digits) (hfails : ¬t.Fails)
    (hmatches : t.Matches .intLiteral (sign ++ digits)) : Writes (sign ++ digits) t :=
  ⟨hfails, fun _ hrest =>
    ⟨_, _, .integer hsign hdigits (hrest.stops (by decide)), hmatches⟩⟩

/-- Printed tokens spell what they write. -/
theorem spells_render {texts : List Bytes} {ts : List Terminal}
    (h : List.Forall₂ Writes texts ts) :
    Spells keywordType (render texts) ts [] ∧ ∀ t ∈ ts, ¬t.Fails := by
  have hspaced : ∀ {texts : List Bytes} {ts : List Terminal}, List.Forall₂ Writes texts ts →
      Delimited (texts.flatMap (32 :: ·)) ∧
        Spells keywordType (texts.flatMap (32 :: ·)) ts [] ∧ ∀ t ∈ ts, ¬t.Fails := by
    intro texts ts h
    induction h with
    | nil => exact ⟨(fun _ h => nomatch h), .nil [], (fun _ h => nomatch h)⟩
    | @cons text t texts ts hhead _ ih =>
      obtain ⟨hdelimited, hspells, hfits⟩ := ih
      obtain ⟨type, word, hlexeme, hmatches⟩ := hhead.2 _ hdelimited
      refine ⟨fun c hc => (Option.some.inj hc).symm, ?_, List.forall_mem_cons.mpr ⟨hhead.1, hfits⟩⟩
      rw [List.flatMap_cons]
      exact @Spells.cons _ [32] _ _ _ _ _ _ _ (by decide) hlexeme hmatches hspells
  cases h with
  | nil => exact ⟨.nil [], fun _ h => nomatch h⟩
  | cons hhead htail =>
    obtain ⟨hdelimited, hspells, hfits⟩ := hspaced htail
    obtain ⟨type, word, hlexeme, hmatches⟩ := hhead.2 _ hdelimited
    exact ⟨@Spells.cons _ [] _ _ _ _ _ _ _ (by decide) hlexeme hmatches hspells,
      List.forall_mem_cons.mpr ⟨hhead.1, hfits⟩⟩

end Htap.Parser
