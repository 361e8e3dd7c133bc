import BoundSql.Text.Numeral

/-
Column types, as the target of a cast.

A type is a keyword with at most two arguments in parentheses.  The arguments
are numbers fixed when the type is made, so they are written into the statement
and not bound.  How many a type takes is fixed by its keyword, and what is given
beyond that is dropped.
-/

namespace BoundSql

inductive SqlType where
  | bigint
  | binary
  | bit
  | char
  | date
  | datetime
  | datetime2
  | datetimeoffset
  | decimal
  | float
  | image
  | int
  | money
  | nchar
  | ntext
  | nvarchar
  | real
  | smalldatetime
  | smallint
  | smallmoney
  | sqlVariant
  | text
  | time
  | timestamp
  | tinyint
  | uniqueidentifier
  | varbinary
  | varchar
  deriving DecidableEq

def SqlType.keyword : SqlType → String
  | bigint => "BIGINT"
  | binary => "BINARY"
  | bit => "BIT"
  | char => "CHAR"
  | date => "DATE"
  | datetime => "DATETIME"
  | datetime2 => "DATETIME2"
  | datetimeoffset => "DATETIMEOFFSET"
  | decimal => "DECIMAL"
  | float => "FLOAT"
  | image => "IMAGE"
  | int => "INT"
  | money => "MONEY"
  | nchar => "NCHAR"
  | ntext => "NTEXT"
  | nvarchar => "NVARCHAR"
  | real => "REAL"
  | smalldatetime => "SMALLDATETIME"
  | smallint => "SMALLINT"
  | smallmoney => "SMALLMONEY"
  | sqlVariant => "SQL_VARIANT"
  | text => "TEXT"
  | time => "TIME"
  | timestamp => "TIMESTAMP"
  | tinyint => "TINYINT"
  | uniqueidentifier => "UNIQUEIDENTIFIER"
  | varbinary => "VARBINARY"
  | varchar => "VARCHAR"

def SqlType.all : List SqlType :=
  [.bigint, .binary, .bit, .char, .date, .datetime, .datetime2, .datetimeoffset, .decimal, .float,
   .image, .int, .money, .nchar, .ntext, .nvarchar, .real, .smalldatetime, .smallint, .smallmoney,
   .sqlVariant, .text, .time, .timestamp, .tinyint, .uniqueidentifier, .varbinary, .varchar]

/-- Keywords are read in either case. -/
def SqlType.ofKeyword? (word : String) : Option SqlType :=
  all.find? (·.keyword == word.toUpper)

/-- How many numbers can follow the keyword: a precision and a scale, a length or
a precision, or none. -/
def SqlType.arity : SqlType → Nat
  | decimal => 2
  | binary | char | datetime2 | datetimeoffset | float | nchar | nvarchar | time
  | varbinary | varchar => 1
  | _ => 0

inductive TypeArgument where
  | number (n : UInt32)
  | max
  deriving DecidableEq

def TypeArgument.text : TypeArgument → List Char
  | number n => Numeral.ofNat n.toNat
  | max => ['M', 'A', 'X']

structure DataType where
  type : SqlType
  arguments : List TypeArgument
  deriving DecidableEq

namespace DataType

/-- The keyword, and the arguments in parentheses if there are any. -/
def sql (t : DataType) : String :=
  match t.arguments with
  | [] => t.type.keyword
  | arguments =>
    t.type.keyword ++
      String.ofList ('(' :: [',', ' '].intercalate (arguments.map TypeArgument.text) ++ [')'])

/-- The numbers up to the first that is not given.  A scale says nothing without
a precision, so it is dropped then. -/
def given : List (Option UInt32) → List TypeArgument
  | some n :: rest => .number n :: given rest
  | _ => []

/-- A type with as many of the numbers as it takes. -/
def ofNumbers (type : SqlType) (numbers : List (Option UInt32)) : DataType :=
  ⟨type, given (numbers.take type.arity)⟩

/-- A type of the greatest length, if it has a length. -/
def unbounded (type : SqlType) : DataType :=
  ⟨type, [TypeArgument.max].take type.arity⟩

end DataType
end BoundSql
