import BoundSql.DataType
import BoundSql.Table

/-
Expressions, sources of rows, and the selects built from them.

The three are defined together: an expression may contain a select, a select has
a source, and the join conditions of a source are expressions.  A select that has
no source yet is a value like any other; it only cannot be written down.
-/

namespace BoundSql

inductive BinaryOp where
  | equal
  | notEqual
  | greater
  | greaterOrEqual
  | less
  | lessOrEqual
  | and
  | or
  | plus
  | minus
  | like
  deriving DecidableEq

def BinaryOp.sql : BinaryOp → String
  | equal => "="
  | notEqual => "<>"
  | greater => ">"
  | greaterOrEqual => ">="
  | less => "<"
  | lessOrEqual => "<="
  | and => "and"
  | or => "or"
  | plus => "+"
  | minus => "-"
  | like => "like"

inductive SqlFunction where
  | count
  | max
  | substring
  | dataLength
  deriving DecidableEq

def SqlFunction.sql : SqlFunction → String
  | count => "COUNT"
  | max => "MAX"
  | substring => "SUBSTRING"
  | dataLength => "DATALENGTH"

mutual

inductive Expr where
  /-- A value to be bound. -/
  | literal (v : Value)
  /-- A predicate that always or never holds. -/
  | constant (b : Bool)
  | column (c : Column)
  /-- All columns of a table. -/
  | all (t : Table)
  | aliased (e : Expr) (name : String)
  | binary (op : BinaryOp) (left right : Expr)
  | negation (e : Expr)
  | isNull (e : Expr)
  | descending (e : Expr)
  /-- Membership in a list of expressions. -/
  | member (e : Expr) (items : List Expr)
  /-- Membership in the rows of a select. -/
  | memberOf (e : Expr) (rows : Select)
  | subquery (rows : Select)
  | exists (rows : Select)
  | call (function : SqlFunction) (args : List Expr)
  /-- The number of rows. -/
  | countAll
  | cast (e : Expr) (type : DataType)
  /-- The value of the first branch whose condition holds. -/
  | case (branches : List (Expr × Expr)) (otherwise : Option Expr)

inductive Source where
  | table (t : Table)
  | joined (left right : Source) (condition : Expr) (outer : Bool)

structure Select where
  columns : List Expr
  source : Option Source
  filters : List Expr
  unions : List Select
  groupBy : List Expr
  orderBy : List Expr
  /-- The greatest number of rows; zero sets no limit. -/
  limit : UInt64

end

namespace Expr

/-- The value of an expression that is nothing but a literal. -/
def literal? : Expr → Option Value
  | literal v => some v
  | _ => none

end Expr

namespace Select

def empty : Select :=
  ⟨[], none, [], [], [], [], 0⟩

end Select

namespace Source

/-- The leftmost table. -/
def first : Source → Table
  | table t => t
  | joined left _ _ _ => left.first

/-- The rightmost table. -/
def last : Source → Table
  | table t => t
  | joined _ right _ _ => right.last

end Source
end BoundSql
