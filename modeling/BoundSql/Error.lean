import BoundSql.Value.Text

/-
What can go wrong, and how it is said.

Errors are causes; the wording of each stands in `message`.
-/

namespace BoundSql

/-- Why a statement cannot be written down. -/
inductive Fault where
  /-- A query has nothing to select from. -/
  | missingFrom
  /-- An insert or update sets no column. -/
  | emptyAssignments (statement : String)
  deriving DecidableEq

def Fault.message : Fault → String
  | missingFrom => "MissingFromClause"
  | emptyAssignments statement => statement ++ " has no column assignments"

/-- What a field was expected to hold. -/
inductive Expected where
  | integer
  | float
  | bool
  | text
  | bytes
  | uuid
  | timestamp
  | date
  | decimal
  deriving DecidableEq

def Expected.word : Expected → String
  | integer => "integer"
  | float => "float"
  | bool => "bool"
  | text => "text"
  | bytes => "bytes"
  | uuid => "uuid"
  | timestamp => "timestamp"
  | date => "date"
  | decimal => "decimal"

/-- Why a field cannot be decoded. -/
inductive DecodeFault where
  | mismatch (expected : Expected) (got : Value)
  /-- An integer that does not fit into 32 bits. -/
  | outOfRange (n : Int64)
  | invalidUuid
  | noSuchField
  /-- Any other reason, in words. -/
  | described (reason : String)

def DecodeFault.message : DecodeFault → String
  | mismatch expected got => "expected " ++ expected.word ++ ", got " ++ got.outline
  | outOfRange n => String.ofList (Numeral.ofInt n.toInt) ++ " out of range for i32"
  | invalidUuid => "invalid uuid text"
  | noSuchField => "no such field"
  | described reason => reason

inductive Error where
  /-- A membership list is longer than allowed. -/
  | tooManyValues (count max : Nat)
  | unwritable (fault : Fault)
  | notFound (what : String)
  | decode (column : String) (fault : DecodeFault)
  /-- A failure of the database behind the executor. -/
  | backend (reason : String)
  | other (reason : String)

namespace Error

def message : Error → String
  | tooManyValues count max =>
    String.ofList ("Too many values for IN list: ".toList ++ Numeral.ofNat count ++
      " (max ".toList ++ Numeral.ofNat max ++ [')'])
  | unwritable fault => fault.message
  | notFound what => "Not found: " ++ what
  | decode column fault => "Decode error on column '" ++ column ++ "': " ++ fault.message
  | backend reason => "Backend error: " ++ reason
  | other reason => reason

def isMissingFrom : Error → Bool
  | unwritable .missingFrom => true
  | _ => false

def isNotFound : Error → Bool
  | notFound _ => true
  | _ => false

/-- The reason a failing database gave. -/
def source? : Error → Option String
  | backend reason => some reason
  | _ => none

end Error
end BoundSql
