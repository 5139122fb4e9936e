import Htap.Parser.Terminals

/-!
The grammar of the query language: which lists of terminals denote which syntax
trees. It says nothing about how they are read.
-/

namespace Htap.Parser

open Storage

/-! ## Words -/

def comparisons : List (TokenType × BinaryOperation) :=
  [(.equal, .equal), (.notEqual, .notEqual), (.less, .less), (.lessEqual, .lessEqual),
    (.greater, .greater), (.greaterEqual, .greaterEqual)]

def columnTypes : List (TokenType × DataType) :=
  [(.stringType, .string), (.int64Type, .int64), (.doubleType, .double)]

def aggregates : List (TokenType × AggregateKind) :=
  [(.count, .count), (.sum, .sum), (.avg, .avg), (.min, .min), (.max, .max)]

/-- Items between commas. -/
inductive Separated {α : Type} (D : List Terminal → α → Prop) : List Terminal → List α → Prop
  | one {ts : List Terminal} {a : α} (ha : D ts a) : Separated D ts [a]
  | cons {ts us : List Terminal} {a : α} {rest : List α} (ha : D ts a)
      (hrest : Separated D us rest) : Separated D (ts ++ .word .comma :: us) (a :: rest)

/-! ## Expressions -/

/-- From the loosest to the tightest. -/
inductive Level where
  | or
  | and
  | not
  | predicate
  | atomic
  deriving DecidableEq

/-- A literal denotes what it converts to, and anything where the conversion throws. -/
def Denotes (type : TokenType) (text : Bytes) (e : Expression) : Prop :=
  ∃ value, Parser.literal type text = some value ∧ ∀ e', value = .ok e' → e' = e

/-- A column may be named by an identifier or by the keyword `KEY`. -/
def IsColumnName (type : TokenType) : Prop := type = .identifier ∨ type = .key

/-- `AND` and `OR` associate to the left, the operands of comparisons are atomic. -/
inductive Derives : Level → List Terminal → Expression → Prop
  | orOperand {ts : List Terminal} {e : Expression} (h : Derives .and ts e) : Derives .or ts e
  | or {ts us : List Terminal} {left right : Expression} (hleft : Derives .or ts left)
      (hright : Derives .and us right) :
      Derives .or (ts ++ .word .or :: us) (.binary .or left right)
  | andOperand {ts : List Terminal} {e : Expression} (h : Derives .not ts e) : Derives .and ts e
  | and {ts us : List Terminal} {left right : Expression} (hleft : Derives .and ts left)
      (hright : Derives .not us right) :
      Derives .and (ts ++ .word .and :: us) (.binary .and left right)
  | notOperand {ts : List Terminal} {e : Expression} (h : Derives .predicate ts e) :
      Derives .not ts e
  | not {ts : List Terminal} {e : Expression} (h : Derives .not ts e) :
      Derives .not (.word .not :: ts) (.unary .not e)
  | predicateOperand {ts : List Terminal} {e : Expression} (h : Derives .atomic ts e) :
      Derives .predicate ts e
  | comparison {ts us : List Terminal} {left right : Expression} {type : TokenType}
      {operation : BinaryOperation} (hleft : Derives .atomic ts left)
      (hoperation : (type, operation) ∈ comparisons) (hright : Derives .atomic us right) :
      Derives .predicate (ts ++ .word type :: us) (.binary operation left right)
  | isNull {ts : List Terminal} {e : Expression} (h : Derives .atomic ts e) :
      Derives .predicate (ts ++ [.word .is, .word .null]) (.isNull e false)
  | isNotNull {ts : List Terminal} {e : Expression} (h : Derives .atomic ts e) :
      Derives .predicate (ts ++ [.word .is, .word .not, .word .null]) (.isNull e true)
  | column {type : TokenType} {name : Bytes} (htype : IsColumnName type) :
      Derives .atomic [.name type name] (.column name)
  | literal {type : TokenType} {text : Bytes} {e : Expression} (h : Denotes type text e) :
      Derives .atomic [.literal type text] e
  | parentheses {ts : List Terminal} {e : Expression} (h : Derives .or ts e) :
      Derives .atomic (.word .lParen :: (ts ++ [.word .rParen])) e

/-! ## Parts of statements -/

inductive ColumnName : List Terminal → Bytes → Prop
  | intro {type : TokenType} {name : Bytes} (htype : IsColumnName type) :
      ColumnName [.name type name] name

inductive Literal : List Terminal → Expression → Prop
  | intro {type : TokenType} {text : Bytes} {e : Expression} (h : Denotes type text e) :
      Literal [.literal type text] e

/-- What may stand behind the type of a column. -/
inductive Modifier (column : ColumnDefinition) : List Terminal → ColumnDefinition → Prop
  | none : Modifier column [] column
  | key : Modifier column [.word .key] { column with isKey := true }
  | null : Modifier column [.word .null] { column with nullable := true }
  | notNull : Modifier column [.word .not, .word .null] { column with nullable := false }

inductive Column : List Terminal → ColumnDefinition → Prop
  | intro {type word : TokenType} {name : Bytes} {dataType : DataType} {ts : List Terminal}
      {column : ColumnDefinition} (hname : IsColumnName type)
      (hword : (word, dataType) ∈ columnTypes)
      (hmodifier : Modifier { name := name, type := dataType } ts column) :
      Column (.name type name :: .word word :: ts) column

inductive Item : List Terminal → SelectItem → Prop
  | star : Item [.word .star] .star
  | expression {ts : List Terminal} {e : Expression} (h : Derives .or ts e) :
      Item ts (.expression e)
  | aggregate {ts : List Terminal} {e : Expression} {type : TokenType} {kind : AggregateKind}
      (hkind : (type, kind) ∈ aggregates) (h : Derives .or ts e) :
      Item (.word type :: .word .lParen :: (ts ++ [.word .rParen])) (.aggregate kind e)

inductive Direction (e : Expression) : List Terminal → OrderByItem → Prop
  | none : Direction e [] { expression := e }
  | asc : Direction e [.word .asc] ⟨e, .asc⟩
  | desc : Direction e [.word .desc] ⟨e, .desc⟩

inductive OrderItem : List Terminal → OrderByItem → Prop
  | intro {ts us : List Terminal} {e : Expression} {item : OrderByItem} (h : Derives .or ts e)
      (hdirection : Direction e us item) : OrderItem (ts ++ us) item

/-! ## Clauses -/

inductive Where : List Terminal → Option Expression → Prop
  | none : Where [] none
  | some {ts : List Terminal} {e : Expression} (h : Derives .or ts e) :
      Where (.word .where :: ts) (some e)

inductive ByClause {α : Type} (keyword : TokenType) (D : List Terminal → α → Prop) :
    List Terminal → List α → Prop
  | none : ByClause keyword D [] []
  | some {ts : List Terminal} {items : List α} (h : Separated D ts items) :
      ByClause keyword D (.word keyword :: .word .by :: ts) items

/-- The number behind `LIMIT` denotes what it converts to, and anything where the
conversion throws. -/
inductive Limit : List Terminal → Option Nat → Prop
  | none : Limit [] none
  | some {text : Bytes} {n : Nat} (h : ∀ m, stoull text = .ok m → m = n) :
      Limit [.word .limit, .count text] (some n)

/-! ## Statements -/

inductive Sentence : List Terminal → Statement → Prop
  | createTable {name : Bytes} {ts : List Terminal} {columns : List ColumnDefinition}
      (hcolumns : Separated Column ts columns) :
      Sentence ([Terminal.word .create, Terminal.word .table, Terminal.name .identifier name,
        Terminal.word .lParen] ++ ts ++
          [Terminal.word .rParen, Terminal.word .semicolon])
        (.createTable ⟨name, columns⟩)
  | insert {name : Bytes} {ts us : List Terminal} {columns : List Bytes}
      {values : List Expression} (hcolumns : Separated ColumnName ts columns)
      (hvalues : Separated Literal us values) :
      Sentence ([Terminal.word .insert, Terminal.word .into, Terminal.name .identifier name,
        Terminal.word .lParen] ++ ts ++
          [Terminal.word .rParen, Terminal.word .values, Terminal.word .lParen] ++ us ++
            [Terminal.word .rParen, Terminal.word .semicolon])
        (.insert ⟨name, columns, values⟩)
  | select {name : Bytes} {ts us vs ws xs : List Terminal} {items : List SelectItem}
      {condition : Option Expression} {groupBy : List Expression} {orderBy : List OrderByItem}
      {limit : Option Nat} (hitems : Separated Item ts items) (hwhere : Where us condition)
      (hgroup : ByClause .group (Derives .or) vs groupBy)
      (horder : ByClause .order OrderItem ws orderBy) (hlimit : Limit xs limit) :
      Sentence ([Terminal.word .select] ++ ts
        ++ [Terminal.word .from, Terminal.name .identifier name] ++ us ++ vs ++ ws ++
          xs ++ [Terminal.word .semicolon])
        (.select ⟨name, items, condition, groupBy, orderBy, limit⟩)

end Htap.Parser
