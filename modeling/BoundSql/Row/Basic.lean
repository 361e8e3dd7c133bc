import BoundSql.Error

/-
Rows of a result: fields with their names, in the order they were selected.

A name is looked up exactly first, and then without regard to the case of ASCII
letters; other letters always have to agree.
-/

namespace BoundSql

structure Row where
  fields : List (String × Value)

namespace Row

def empty : Row :=
  ⟨[]⟩

def push (r : Row) (name : String) (v : Value) : Row :=
  ⟨r.fields ++ [(name, v)]⟩

def size (r : Row) : Nat :=
  r.fields.length

def isEmpty (r : Row) : Bool :=
  r.fields.isEmpty

/-- Equality of names up to the case of ASCII letters. -/
def sameName (a b : String) : Bool :=
  a.toList.map Char.toLower == b.toList.map Char.toLower

/-- The first field of exactly this name, or else the first of this name in
another case. -/
def get? (r : Row) (name : String) : Option Value :=
  ((r.fields.find? fun field => field.1 == name).or
    (r.fields.find? fun field => sameName field.1 name)).map Prod.snd

/-- The field at a position. -/
def getAt? (r : Row) (i : Nat) : Option Value :=
  (r.fields[i]?).map Prod.snd

/-- Equality of rows, field by field in order. -/
def same (r s : Row) : Bool :=
  r.size == s.size &&
    (r.fields.zip s.fields).all fun ((m, a), (n, b)) => m == n && a.same b

def toJson (r : Row) : Json :=
  .object [("fields", .array (r.fields.map fun (name, v) => .array [.string name, v.toJson]))]

end Row
end BoundSql
