import Htap.Parser.Convert

/-!
The recursive-descent parser. It holds one token and the lexer behind it.
Functions that call each other, and loops, take a number of rounds that they do
not exceed on the inputs `parse` gives them.
-/

set_option linter.dupNamespace false

namespace Htap.Parser

open Storage

structure Parser where
  lexer : Lexer
  current : Token
  deriving DecidableEq

namespace Parser

/-- `Parser(lexer)`. -/
def create (lexer : Lexer) : Parsed Parser := do
  let (token, lexer) ← lexer.nextToken
  return ⟨lexer, token⟩

def advance (p : Parser) : Parsed Parser := create p.lexer

/-- `throw ParseError(message, current_.position)`. -/
def fail {α : Type} (p : Parser) (message : String) (detail : Bytes) : Parsed α :=
  .error (.parseError message detail p.current.position)

def isExpectedToken (p : Parser) (type : TokenType) : Bool := p.current.type == type

/-- A token of this type, or an error. -/
def expect (type : TokenType) (message : String) (p : Parser) : Parsed Parser :=
  if p.isExpectedToken type then p.advance else p.fail message []

def isColumnNameToken (p : Parser) : Bool :=
  p.isExpectedToken .identifier || p.isExpectedToken .key

/-- The text of a token that passes `test`, or an error. -/
def expectText (test : Parser → Bool) (message : String) (p : Parser) : Parsed (Bytes × Parser) :=
  if test p then do
    let next ← p.advance
    return (p.current.text, next)
  else p.fail message []

def expectTableName (message : String) (p : Parser) : Parsed (Bytes × Parser) :=
  expectText (·.isExpectedToken .identifier) message p

def expectColumnName (message : String) (p : Parser) : Parsed (Bytes × Parser) :=
  expectText isColumnNameToken message p

/-- The loop behind the first of a list: `while (Comma) { Advance(); item; }`. -/
def commaLoop {α : Type} (item : Parser → Parsed (α × Parser)) :
    Nat → List α → Parser → Parsed (List α × Parser)
  | 0, _, _ => throw .outOfFuel
  | fuel + 1, items, p =>
    if p.isExpectedToken .comma then do
      let p ← p.advance
      let (next, p) ← item p
      commaLoop item fuel (items ++ [next]) p
    else return (items, p)

/-- Items between commas; the first has an error text of its own. -/
def commaList {α : Type} (first item : Parser → Parsed (α × Parser)) (fuel : Nat) (p : Parser) :
    Parsed (List α × Parser) := do
  let (head, p) ← first p
  commaLoop item fuel [head] p

/-! ## Expressions -/

/-- A literal of the type of the current token. -/
def literal (type : TokenType) (text : Bytes) : Option (Parsed Expression) :=
  match type with
  | .stringLiteral => some (.ok (.stringLiteral text))
  | .intLiteral => some ((stoll text).map Expression.intLiteral)
  | .doubleLiteral => some ((stod text).map Expression.doubleLiteral)
  | .null => some (.ok .nullLiteral)
  | _ => none

def parseLiteralExpression (p : Parser) : Parsed (Expression × Parser) :=
  match literal p.current.type p.current.text with
  | some value => do
    let value ← value
    let p ← p.advance
    return (value, p)
  | none => p.fail "Expected literal value" []

def comparisonOperation : TokenType → Option BinaryOperation
  | .equal => some .equal
  | .notEqual => some .notEqual
  | .less => some .less
  | .lessEqual => some .lessEqual
  | .greater => some .greater
  | .greaterEqual => some .greaterEqual
  | _ => none

/-- The loops of `ParseOrExpression` and `ParseAndExpression`. -/
def operatorLoop (separator : TokenType) (operation : BinaryOperation)
    (operand : Parser → Parsed (Expression × Parser)) :
    Nat → Expression → Parser → Parsed (Expression × Parser)
  | 0, _, _ => throw .outOfFuel
  | fuel + 1, left, p =>
    if p.isExpectedToken separator then do
      let p ← p.advance
      let (right, p) ← operand p
      operatorLoop separator operation operand fuel (.binary operation left right) p
    else return (left, p)

/-- What `ParsePredicateExpression` does behind `IS`. -/
def parseIsNull (left : Expression) (p : Parser) : Parsed (Expression × Parser) :=
  if p.isExpectedToken .not then do
    let p ← p.advance
    let p ← expect .null "Expected NULL after IS or IS NOT" p
    return (.isNull left true, p)
  else do
    let p ← expect .null "Expected NULL after IS or IS NOT" p
    return (.isNull left false, p)

/-- What `ParsePredicateExpression` does behind its first operand. -/
def parsePredicateTail (operand : Parser → Parsed (Expression × Parser)) (left : Expression)
    (p : Parser) : Parsed (Expression × Parser) :=
  if p.isExpectedToken .is then do
    let p ← p.advance
    parseIsNull left p
  else
    match comparisonOperation p.current.type with
    | none => return (left, p)
    | some operation => do
      let p ← p.advance
      let (right, p) ← operand p
      return (.binary operation left right, p)

/-- What `ParseAtomicExpression` does on a token that opens no parenthesis. -/
def parseOperand (p : Parser) : Parsed (Expression × Parser) :=
  if p.isColumnNameToken then do
    let next ← p.advance
    return (.column p.current.text, next)
  else if (literal p.current.type p.current.text).isSome then parseLiteralExpression p
  else p.fail "Expected atomic expression" []

mutual

def parseOrExpression : Nat → Parser → Parsed (Expression × Parser)
  | 0, _ => throw .outOfFuel
  | fuel + 1, p => do
    let (left, p) ← parseAndExpression fuel p
    operatorLoop .or .or (parseAndExpression fuel) fuel left p

def parseAndExpression : Nat → Parser → Parsed (Expression × Parser)
  | 0, _ => throw .outOfFuel
  | fuel + 1, p => do
    let (left, p) ← parseNotExpression fuel p
    operatorLoop .and .and (parseNotExpression fuel) fuel left p

def parseNotExpression : Nat → Parser → Parsed (Expression × Parser)
  | 0, _ => throw .outOfFuel
  | fuel + 1, p =>
    if p.isExpectedToken .not then do
      let p ← p.advance
      let (expression, p) ← parseNotExpression fuel p
      return (.unary .not expression, p)
    else parsePredicateExpression fuel p

def parsePredicateExpression : Nat → Parser → Parsed (Expression × Parser)
  | 0, _ => throw .outOfFuel
  | fuel + 1, p => do
    let (left, p) ← parseAtomicExpression fuel p
    parsePredicateTail (parseAtomicExpression fuel) left p

def parseAtomicExpression : Nat → Parser → Parsed (Expression × Parser)
  | 0, _ => throw .outOfFuel
  | fuel + 1, p =>
    if p.isExpectedToken .lParen then do
      let p ← p.advance
      let (expression, p) ← parseOrExpression fuel p
      let p ← expect .rParen "Expected ')' after expression" p
      return (expression, p)
    else parseOperand p

end

/-! ## CREATE TABLE -/

def dataType : TokenType → Option DataType
  | .stringType => some .string
  | .int64Type => some .int64
  | .doubleType => some .double
  | _ => none

/-- The column modifier, if there is one. -/
def parseColumnModifier (column : ColumnDefinition) (p : Parser) :
    Parsed (ColumnDefinition × Parser) :=
  match p.current.type with
  | .key => do
    let p ← p.advance
    return ({ column with isKey := true }, p)
  | .null => do
    let p ← p.advance
    return ({ column with nullable := true }, p)
  | .not => do
    let p ← p.advance
    let p ← expect .null "Expected NULL after NOT" p
    return ({ column with nullable := false }, p)
  | _ => return (column, p)

/-- The column type and the modifier behind a column name. -/
def parseColumnType (name : Bytes) (p : Parser) : Parsed (ColumnDefinition × Parser) :=
  match dataType p.current.type with
  | none => p.fail "Expected column type" []
  | some type => do
    let p ← p.advance
    parseColumnModifier { name := name, type := type } p

def parseColumnDefinition (p : Parser) : Parsed (ColumnDefinition × Parser) := do
  let (name, p) ← expectColumnName "Expected column name" p
  parseColumnType name p

def parseCreateTableStatement (fuel : Nat) (p : Parser) :
    Parsed (CreateTableStatement × Parser) := do
  let p ← expect .create "Expected CREATE" p
  let p ← expect .table "Expected TABLE after CREATE" p
  let (tableName, p) ← expectTableName "Expected table name" p
  let p ← expect .lParen "Expected '(' after table name" p
  let (columns, p) ← commaList parseColumnDefinition parseColumnDefinition fuel p
  let p ← expect .rParen "Expected ')' after column definitions" p
  let p ← expect .semicolon "Expected ';' after CREATE TABLE statement" p
  return ({ tableName := tableName, columns := columns }, p)

/-! ## INSERT -/

def parseInsertStatement (fuel : Nat) (p : Parser) : Parsed (InsertStatement × Parser) := do
  let p ← expect .insert "Expected INSERT" p
  let p ← expect .into "Expected INTO after INSERT" p
  let (tableName, p) ← expectTableName "Expected table name after INTO" p
  let p ← expect .lParen "Expected '(' before column list" p
  let (columnNames, p) ← commaList (expectColumnName "Expected column name")
    (expectColumnName "Expected column name after ','") fuel p
  let p ← expect .rParen "Expected ')' after column list" p
  let p ← expect .values "Expected VALUES after column list" p
  let p ← expect .lParen "Expected '(' before values list" p
  let (values, p) ← commaList parseLiteralExpression parseLiteralExpression fuel p
  let p ← expect .rParen "Expected ')' after values list" p
  let p ← expect .semicolon "Expected ';' after INSERT statement" p
  return ({ tableName := tableName, columnNames := columnNames, values := values }, p)

/-! ## SELECT -/

def aggregateKind : TokenType → Option AggregateKind
  | .count => some .count
  | .sum => some .sum
  | .avg => some .avg
  | .min => some .min
  | .max => some .max
  | _ => none

/-- What `ParseSelectItem` does on a token other than `*`. -/
def parseSelectExpression (fuel : Nat) (p : Parser) : Parsed (SelectItem × Parser) :=
  match aggregateKind p.current.type with
  | some kind => do
    let p ← p.advance
    let p ← expect .lParen "Expected '(' after aggregate function" p
    let (expression, p) ← parseOrExpression fuel p
    let p ← expect .rParen "Expected ')' after aggregate argument" p
    return (.aggregate kind expression, p)
  | none => do
    let (expression, p) ← parseOrExpression fuel p
    return (.expression expression, p)

def parseSelectItem (fuel : Nat) (p : Parser) : Parsed (SelectItem × Parser) :=
  if p.isExpectedToken .star then do
    let p ← p.advance
    return (.star, p)
  else parseSelectExpression fuel p

/-- The direction behind an ORDER BY expression, if there is one. -/
def parseDirection (expression : Expression) (p : Parser) : Parsed (OrderByItem × Parser) :=
  match p.current.type with
  | .asc => do
    let p ← p.advance
    return (⟨expression, .asc⟩, p)
  | .desc => do
    let p ← p.advance
    return (⟨expression, .desc⟩, p)
  | _ => return ({ expression := expression }, p)

def parseOrderByItem (fuel : Nat) (p : Parser) : Parsed (OrderByItem × Parser) := do
  let (expression, p) ← parseOrExpression fuel p
  parseDirection expression p

def parseWhere (fuel : Nat) (p : Parser) : Parsed (Option Expression × Parser) :=
  if p.isExpectedToken .where then do
    let p ← p.advance
    let (expression, p) ← parseOrExpression fuel p
    return (some expression, p)
  else return (none, p)

/-- `GROUP BY` or `ORDER BY` and its items, if there are any. -/
def parseByClause {α : Type} (keyword : TokenType) (message : String)
    (item : Parser → Parsed (α × Parser)) (fuel : Nat) (p : Parser) : Parsed (List α × Parser) :=
  if p.isExpectedToken keyword then do
    let p ← p.advance
    let p ← expect .by message p
    commaList item item fuel p
  else return ([], p)

def parseLimit (p : Parser) : Parsed (Option Nat × Parser) :=
  if p.isExpectedToken .limit then do
    let p ← p.advance
    if p.isExpectedToken .intLiteral then do
      let limit ← stoull p.current.text
      let p ← p.advance
      return (some limit, p)
    else p.fail "Expected integer literal after LIMIT" []
  else return (none, p)

/-- The closing semicolon; its error text ends with the token found. -/
def expectSelectEnd (p : Parser) : Parsed Parser :=
  if p.isExpectedToken .semicolon then p.advance
  else p.fail "Expected ';' after SELECT statement, got token: " p.current.text

def parseSelectStatement (fuel : Nat) (p : Parser) : Parsed (SelectStatement × Parser) := do
  let p ← expect .select "Expected SELECT" p
  let (selectItems, p) ← commaList (parseSelectItem fuel) (parseSelectItem fuel) fuel p
  let p ← expect .from "Expected FROM after SELECT items" p
  let (tableName, p) ← expectTableName "Expected table name after FROM" p
  let (whereExpression, p) ← parseWhere fuel p
  let (groupByItems, p) ← parseByClause .group "Expected BY after GROUP" (parseOrExpression fuel)
    fuel p
  let (orderByItems, p) ← parseByClause .order "Expected BY after ORDER" (parseOrderByItem fuel)
    fuel p
  let (limit, p) ← parseLimit p
  let p ← expectSelectEnd p
  return ({ tableName := tableName, selectItems := selectItems, whereExpression := whereExpression,
            groupByItems := groupByItems, orderByItems := orderByItems, limit := limit }, p)

/-! ## Statements -/

def parseStatement (fuel : Nat) (p : Parser) : Parsed (Statement × Parser) :=
  match p.current.type with
  | .create => do
    let (statement, p) ← parseCreateTableStatement fuel p
    return (.createTable statement, p)
  | .insert => do
    let (statement, p) ← parseInsertStatement fuel p
    return (.insert statement, p)
  | .select => do
    let (statement, p) ← parseSelectStatement fuel p
    return (.select statement, p)
  | _ => p.fail "Expected CREATE, INSERT or SELECT statement" []

end Parser

/-- A number of rounds that no recursion of the parser exceeds on an input. -/
def parseFuel (input : Bytes) : Nat := 6 * input.length + 12

/-- `Parser(Lexer(input)).ParseStatement()`. -/
def parse (input : Bytes) : Parsed Statement := do
  let p ← Parser.create { input := input }
  let (statement, _) ← p.parseStatement (parseFuel input)
  return statement

end Htap.Parser
