import BoundSql.Expr.Basic
import BoundSql.Pattern

/-
Building expressions.

Text to be looked for is turned into a pattern and bound like any other value,
so its wildcards match only themselves.  A membership list has at most
`maxItems` items, and without any items it holds for nothing.
-/

namespace BoundSql
namespace Expr

def equals (a b : Expr) : Expr := binary .equal a b
def notEquals (a b : Expr) : Expr := binary .notEqual a b
def greater (a b : Expr) : Expr := binary .greater a b
def greaterOrEqual (a b : Expr) : Expr := binary .greaterOrEqual a b
def less (a b : Expr) : Expr := binary .less a b
def lessOrEqual (a b : Expr) : Expr := binary .lessOrEqual a b
def and (a b : Expr) : Expr := binary .and a b
def or (a b : Expr) : Expr := binary .or a b
def plus (a b : Expr) : Expr := binary .plus a b
def minus (a b : Expr) : Expr := binary .minus a b

/-- Whether `e` matches a pattern, whose wildcards count. -/
def like (e : Expr) (pattern : String) : Expr :=
  binary .like e (literal (.text pattern))

def contains (e : Expr) (text : String) : Expr :=
  e.like (Pattern.containing text)

def startsWith (e : Expr) (text : String) : Expr :=
  e.like (Pattern.startingWith text)

def endsWith (e : Expr) (text : String) : Expr :=
  e.like (Pattern.endingWith text)

def isNotNull (e : Expr) : Expr :=
  negation (isNull e)

/-- The greatest length of a membership list. -/
def maxItems : Nat := 20

def inList (e : Expr) (items : List Expr) : Except Error Expr :=
  if maxItems < items.length then .error (.tooManyValues items.length maxItems)
  else if items.isEmpty then .ok (constant false)
  else .ok (member e items)

/-- Descending order, or the order of `e` itself. -/
def descendingIf (e : Expr) (descends : Bool) : Expr :=
  if descends then descending e else e

def count (e : Expr) : Expr :=
  call .count [e]

def max (e : Expr) : Expr :=
  call .max [e]

/-- Part of a text.  Positions are counted from 1. -/
def substring (e : Expr) (start length : Int64) : Expr :=
  call .substring [e, literal (.int start), literal (.int length)]

/-- The size of a value in bytes. -/
def dataLength (e : Expr) : Expr :=
  call .dataLength [e]

end Expr
end BoundSql
