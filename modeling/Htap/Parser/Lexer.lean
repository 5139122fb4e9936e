import Htap.Parser.Ast

/-!
The lexer: tokens of a query, read one at a time, with their positions.
Characters are bytes in the C locale.
-/

namespace Htap.Parser

open Storage

structure SourcePosition where
  pos : Nat := 0
  line : Nat := 1
  positionInLine : Nat := 1
  deriving DecidableEq

inductive TokenType where
  | endOfFile | invalid
  | identifier | stringLiteral | intLiteral | doubleLiteral
  | create | table | insert | into | values | select | from | where | key | primary
  | null | not | and | or | is | group | by | order | limit
  | asc | desc
  | stringType | int64Type | doubleType
  | count | sum | avg | min | max
  | lParen | rParen | comma | semicolon | star
  | equal | notEqual | less | lessEqual | greater | greaterEqual
  deriving DecidableEq, Repr

structure Token where
  type : TokenType := .invalid
  position : SourcePosition := {}
  text : Bytes := []
  deriving DecidableEq

/-- What parsing throws: a `ParseError` with its position and the text its message
ends with, or what the conversions of `<string>` throw. `outOfFuel` stands for a
recursion past the bound it has here. -/
inductive Failure where
  | parseError (message : String) (detail : Bytes) (position : SourcePosition)
  | outOfRange (what : String)
  | invalidArgument (what : String)
  | outOfFuel
  deriving DecidableEq

abbrev Parsed (α : Type) : Type := Except Failure α

namespace Parsed

variable {α β : Type}

@[simp] theorem ok_bind (a : α) (f : α → Parsed β) : (Except.ok a >>= f) = f a := rfl

@[simp] theorem error_bind (e : Failure) (f : α → Parsed β) :
    ((Except.error e : Parsed α) >>= f) = Except.error e := rfl

@[simp] theorem pure_eq (a : α) : (pure a : Parsed α) = Except.ok a := rfl

@[simp] theorem throw_eq (e : Failure) : (throw e : Parsed α) = Except.error e := rfl

end Parsed

/-! ## Characters -/

/-- The bytes of an ASCII text. -/
def ascii (s : String) : Bytes := s.toList.map fun c => UInt8.ofNat c.toNat

def isDigit (c : UInt8) : Bool := decide (48 ≤ c ∧ c ≤ 57)

def isAlpha (c : UInt8) : Bool := decide (65 ≤ c ∧ c ≤ 90) || decide (97 ≤ c ∧ c ≤ 122)

def toUpper (c : UInt8) : UInt8 := if 97 ≤ c ∧ c ≤ 122 then c - 32 else c

def isIdentifierStart (c : UInt8) : Bool := isAlpha c || c == 95

def isIdentifierPart (c : UInt8) : Bool := isAlpha c || isDigit c || c == 95

/-- What `SkipWhitespace` skips. -/
def isSpace (c : UInt8) : Bool := c == 32 || c == 9 || c == 10 || c == 13

/-! ## Keywords -/

/-- The words `KeywordType` knows, in its order. -/
def keywords : List (Bytes × TokenType) :=
  [(ascii "CREATE", .create), (ascii "TABLE", .table), (ascii "INSERT", .insert),
    (ascii "INTO", .into), (ascii "VALUES", .values), (ascii "SELECT", .select),
    (ascii "FROM", .from), (ascii "WHERE", .where), (ascii "KEY", .key),
    (ascii "PRIMARY", .primary), (ascii "NULL", .null), (ascii "NOT", .not), (ascii "AND", .and),
    (ascii "OR", .or), (ascii "IS", .is), (ascii "STRING", .stringType),
    (ascii "INT64", .int64Type), (ascii "DOUBLE", .doubleType), (ascii "COUNT", .count),
    (ascii "SUM", .sum), (ascii "AVG", .avg), (ascii "MIN", .min), (ascii "MAX", .max),
    (ascii "GROUP", .group), (ascii "BY", .by), (ascii "ORDER", .order), (ascii "LIMIT", .limit),
    (ascii "ASC", .asc), (ascii "DESC", .desc)]

/-- `KeywordType`. -/
def keywordType (text : Bytes) : TokenType :=
  (keywords.lookup (text.map toUpper)).getD .identifier

/-! ## Reading -/

/-- The position behind a character. -/
def SourcePosition.after (position : SourcePosition) (c : UInt8) : SourcePosition :=
  if c = 10 then ⟨position.pos + 1, position.line + 1, 1⟩
  else ⟨position.pos + 1, position.line, position.positionInLine + 1⟩

/-- The input from the current position on. -/
structure Lexer where
  input : Bytes
  position : SourcePosition := {}
  deriving DecidableEq

namespace Lexer

def currentChar (lexer : Lexer) : UInt8 := lexer.input.headD 0

def peekChar (lexer : Lexer) : UInt8 := lexer.input.tail.headD 0

def advance (lexer : Lexer) : Lexer :=
  match lexer.input with
  | [] => lexer
  | c :: rest => ⟨rest, lexer.position.after c⟩

/-- `while (!IsAtEnd() && p(CurrentChar())) Advance();` -/
def advanceWhile (p : UInt8 → Bool) (lexer : Lexer) : Lexer :=
  ⟨lexer.input.dropWhile p, (lexer.input.takeWhile p).foldl SourcePosition.after lexer.position⟩

def skipWhitespace (lexer : Lexer) : Lexer := lexer.advanceWhile isSpace

def readIdentifierOrKeyword (lexer : Lexer) : Token × Lexer :=
  let text := lexer.input.takeWhile isIdentifierPart
  (⟨keywordType text, lexer.position, text⟩, lexer.advanceWhile isIdentifierPart)

def invalidNumber (start : SourcePosition) : Failure :=
  .parseError "ReadNumber called at invalid position" [] start

/-- What `ReadNumber` does behind the whole part `text` of a number. -/
def readFraction (start : SourcePosition) (text : Bytes) (lexer : Lexer) :
    Parsed (Token × Lexer) :=
  if lexer.currentChar = 46 then
    let lexer := lexer.advance
    if isDigit lexer.currentChar then
      .ok (⟨.doubleLiteral, start, text ++ 46 :: lexer.input.takeWhile isDigit⟩,
        lexer.advanceWhile isDigit)
    else .error (invalidNumber start)
  else .ok (⟨.intLiteral, start, text⟩, lexer)

/-- What `ReadNumber` does behind the sign. -/
def readDigits (start : SourcePosition) (sign : Bytes) (lexer : Lexer) : Parsed (Token × Lexer) :=
  if isDigit lexer.currentChar then
    readFraction start (sign ++ lexer.input.takeWhile isDigit) (lexer.advanceWhile isDigit)
  else .error (invalidNumber start)

def readNumber (lexer : Lexer) : Parsed (Token × Lexer) :=
  if lexer.currentChar = 45 then readDigits lexer.position [45] lexer.advance
  else readDigits lexer.position [] lexer

/-- The contents of a string up to its closing quote, and the lexer behind it. -/
def readStringBody : Bytes → SourcePosition → Option (Bytes × Lexer)
  | [], _ => none
  | c :: rest, position =>
    if c = 39 then
      match rest with
      | [] => some ([], ⟨[], position.after c⟩)
      | d :: rest =>
        if d = 39 then
          (readStringBody rest ((position.after c).after d)).map fun r => (39 :: r.1, r.2)
        else some ([], ⟨d :: rest, position.after c⟩)
    else (readStringBody rest (position.after c)).map fun r => (c :: r.1, r.2)

def readString (lexer : Lexer) : Parsed (Token × Lexer) :=
  if lexer.currentChar = 39 then
    match readStringBody lexer.advance.input lexer.advance.position with
    | some (text, rest) => .ok (⟨.stringLiteral, lexer.position, text⟩, rest)
    | none => .error (.parseError "Unterminated string literal" [] lexer.position)
  else .error (.parseError "ReadString called at invalid position" [] lexer.position)

/-- The tokens of one character. -/
def singleCharacter : UInt8 → Option TokenType
  | 40 => some .lParen
  | 41 => some .rParen
  | 44 => some .comma
  | 59 => some .semicolon
  | 42 => some .star
  | 61 => some .equal
  | _ => none

/-- The `switch` of `NextToken`, on a character `c`. -/
def readSymbol (c : UInt8) (lexer : Lexer) : Parsed (Token × Lexer) :=
  let next := lexer.advance
  match singleCharacter c with
  | some type => .ok (⟨type, lexer.position, [c]⟩, next)
  | none =>
    if c = 33 then
      if next.currentChar = 61 then .ok (⟨.notEqual, lexer.position, [33, 61]⟩, next.advance)
      else .error (.parseError "Unexpected character '!'" [] lexer.position)
    else if c = 60 then
      if next.currentChar = 61 then .ok (⟨.lessEqual, lexer.position, [60, 61]⟩, next.advance)
      else .ok (⟨.less, lexer.position, [60]⟩, next)
    else if c = 62 then
      if next.currentChar = 61 then .ok (⟨.greaterEqual, lexer.position, [62, 61]⟩, next.advance)
      else .ok (⟨.greater, lexer.position, [62]⟩, next)
    else .error (.parseError "Unexpected character: " [c] lexer.position)

/-- `NextToken` behind whitespace. -/
def readToken (lexer : Lexer) : Parsed (Token × Lexer) :=
  match lexer.input with
  | [] => .ok (⟨.endOfFile, lexer.position, []⟩, lexer)
  | c :: _ =>
    if isIdentifierStart c then .ok lexer.readIdentifierOrKeyword
    else if isDigit c || (c == 45 && isDigit lexer.peekChar) then lexer.readNumber
    else if c = 39 then lexer.readString
    else lexer.readSymbol c

def nextToken (lexer : Lexer) : Parsed (Token × Lexer) := lexer.skipWhitespace.readToken

end Lexer

end Htap.Parser
