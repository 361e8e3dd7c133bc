import BoundSql.Row.Basic

/-
Reading fields as values of a known type.

Integers are read from whatever a database may send for a key: an integer, a
float without a fraction, a numeral, or a decimal without a fraction.  A float
beyond 64 bits becomes the nearest integer of 64 bits.
-/

namespace BoundSql

class FromValue (α : Type) where
  fromValue : Value → Except DecodeFault α
  /-- What an absent field stands for, if it may be absent. -/
  fromMissing : Option α := none

namespace FromValue

/-- The integer of 64 bits nearest to `n`. -/
def saturate (n : Int) : Int64 :=
  Int64.ofInt (max Int64.minValue.toInt (min n Int64.maxValue.toInt))

def inRange64? (n : Int) : Option Int64 :=
  if Int64.minValue.toInt ≤ n ∧ n ≤ Int64.maxValue.toInt then some (Int64.ofInt n) else none

/-- The integer that a value stands for. -/
def int64? : Value → Option Int64
  | .int n => some n
  | .float x => x.integer?.map saturate
  | .text s => (Numeral.intValue? (Blank.trim s.toList)).bind inRange64?
  | .decimal d => d.integer?.bind inRange64?
  | _ => none

def int64 (v : Value) : Except DecodeFault Int64 :=
  match int64? v with
  | some n => .ok n
  | none => .error (.mismatch .integer v)

instance : FromValue Value where
  fromValue := .ok

instance : FromValue Int64 where
  fromValue := int64

instance : FromValue Int32 where
  fromValue v :=
    match int64 v with
    | .ok n =>
      if Int32.minValue.toInt ≤ n.toInt ∧ n.toInt ≤ Int32.maxValue.toInt then
        .ok (Int32.ofInt n.toInt)
      else .error (.outOfRange n)
    | .error fault => .error fault

instance : FromValue Double where
  fromValue
    | .float x => .ok x
    | .int n => .ok (.ofInt n.toInt)
    | v => .error (.mismatch .float v)

instance : FromValue Bool where
  fromValue
    | .bool b => .ok b
    | .int 0 => .ok false
    | .int 1 => .ok true
    | v => .error (.mismatch .bool v)

instance : FromValue String where
  fromValue
    | .text s => .ok s
    | v => .error (.mismatch .text v)

instance : FromValue (List UInt8) where
  fromValue
    | .bytes bs => .ok bs
    | v => .error (.mismatch .bytes v)

instance : FromValue Uuid where
  fromValue
    | .uuid u => .ok u
    | .text s =>
      match Uuid.ofText? s.toList with
      | some u => .ok u
      | none => .error .invalidUuid
    | v => .error (.mismatch .uuid v)

instance : FromValue Timestamp where
  fromValue
    | .timestamp t => .ok t
    | v => .error (.mismatch .timestamp v)

instance : FromValue Date where
  fromValue
    | .date d => .ok d
    | v => .error (.mismatch .date v)

/-- Every value stands for some document. -/
instance : FromValue Json where
  fromValue v := .ok v.toJson

instance : FromValue Decimal where
  fromValue
    | .decimal d => .ok d
    | .int n => .ok (.ofInt n.toInt)
    | v => .error (.mismatch .decimal v)

/-- Null and an absent field are both nothing. -/
instance {α : Type} [FromValue α] : FromValue (Option α) where
  fromValue
    | .null => .ok none
    | v => (fromValue v).map some
  fromMissing := some none

end FromValue

/-- Read the field of a name as a value of type `α`. -/
def Row.decode (α : Type) [FromValue α] (r : Row) (column : String) : Except Error α :=
  match r.get? column with
  | some v =>
    match FromValue.fromValue v with
    | .ok a => .ok a
    | .error fault => .error (.decode column fault)
  | none =>
    match (FromValue.fromMissing : Option α) with
    | some a => .ok a
    | none => .error (.decode column .noSuchField)

end BoundSql
