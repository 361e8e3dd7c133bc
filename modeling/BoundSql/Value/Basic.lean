import BoundSql.Calendar
import BoundSql.Json
import BoundSql.Uuid

/-
Values: what a placeholder stands for, and what a field of a row holds.
-/

namespace BoundSql

inductive Value where
  | null
  | bool (b : Bool)
  | int (n : Int64)
  | float (x : Double)
  | text (s : String)
  | bytes (bs : List UInt8)
  | uuid (u : Uuid)
  | timestamp (t : Timestamp)
  | date (d : Date)
  | json (j : Json)
  | decimal (d : Decimal)

namespace Value

def isNull : Value → Bool
  | null => true
  | _ => false

/-- A value that may be absent, with null for its absence. -/
def ofOption : Option Value → Value
  | some v => v
  | none => null

/-- Equality of values of one variant.  Floats and decimals are compared as
numbers, so NaN differs from itself and scales do not count. -/
def same : Value → Value → Bool
  | null, null => true
  | bool a, bool b => a == b
  | int a, int b => a == b
  | float a, float b => a.sameNumber b
  | text a, text b => a == b
  | bytes a, bytes b => a == b
  | uuid a, uuid b => a == b
  | timestamp a, timestamp b => a == b
  | date a, date b => a == b
  | json a, json b => a.same b
  | decimal a, decimal b => a.sameNumber b
  | _, _ => false

end Value
end BoundSql
