import Htap.Storage.Types

/-!
The syntax trees the parser produces and the binder reads.
-/

namespace Htap.Parser

open Storage

inductive OrderDirection where
  | asc
  | desc
  deriving DecidableEq, Repr

inductive DataType where
  | string
  | int64
  | double
  deriving DecidableEq, Repr

inductive AggregateKind where
  | count
  | sum
  | avg
  | min
  | max
  deriving DecidableEq, Repr

inductive UnaryOperation where
  | not
  deriving DecidableEq, Repr

inductive BinaryOperation where
  | equal
  | notEqual
  | less
  | lessEqual
  | greater
  | greaterEqual
  | and
  | or
  deriving DecidableEq, Repr

structure ColumnDefinition where
  name : Bytes
  type : DataType
  nullable : Bool := false
  isKey : Bool := false
  deriving DecidableEq

inductive Expression where
  | nullLiteral
  | intLiteral (value : Int64)
  | doubleLiteral (value : Binary64)
  | stringLiteral (value : Bytes)
  | unary (operation : UnaryOperation) (expression : Expression)
  | binary (operation : BinaryOperation) (left right : Expression)
  | column (columnName : Bytes)
  | isNull (expression : Expression) (isNot : Bool)
  deriving DecidableEq

inductive SelectItem where
  | star
  | expression (expression : Expression)
  | aggregate (kind : AggregateKind) (expression : Expression)
  deriving DecidableEq

structure OrderByItem where
  expression : Expression
  direction : OrderDirection := .asc
  deriving DecidableEq

structure CreateTableStatement where
  tableName : Bytes
  columns : List ColumnDefinition
  deriving DecidableEq

structure InsertStatement where
  tableName : Bytes
  columnNames : List Bytes
  values : List Expression
  deriving DecidableEq

structure SelectStatement where
  tableName : Bytes
  selectItems : List SelectItem
  whereExpression : Option Expression := none
  groupByItems : List Expression := []
  orderByItems : List OrderByItem := []
  limit : Option Nat := none
  deriving DecidableEq

inductive Statement where
  | createTable (statement : CreateTableStatement)
  | insert (statement : InsertStatement)
  | select (statement : SelectStatement)
  deriving DecidableEq

end Htap.Parser
