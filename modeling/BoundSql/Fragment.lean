import BoundSql.Error
import BoundSql.Parameters

/-
Written SQL, before its values are numbered.

A fragment is a list of pieces: fixed text, names still to be quoted, values
still to be bound, and faults.  Fragments are put together with `++`, so what a
part of a statement contributes does not depend on where it stands.  `write`
goes through the pieces once, from left to right: it quotes each name, gives
each value the next placeholder, and stops at the first fault.

A quoted name stands between double quotes with every quote in it written twice.
So the first quote that is not doubled ends the token, whatever the name is.
-/

namespace BoundSql

/-! ## Quoted names -/

namespace Identifier

/-- The name with every quote written twice. -/
def doubled : List Char → List Char
  | [] => []
  | c :: rest => if c = '"' then '"' :: '"' :: doubled rest else c :: doubled rest

def quotedText (name : List Char) : List Char :=
  '"' :: doubled name ++ ['"']

/-- The name as an SQL token. -/
def quote (name : String) : String :=
  String.ofList (quotedText name.toList)

theorem doubled_append (a b : List Char) : doubled (a ++ b) = doubled a ++ doubled b := by
  induction a with
  | nil => rfl
  | cons c rest ih => by_cases h : c = '"' <;> simp [doubled, h, ih]

theorem toList_quote (name : String) : (quote name).toList = quotedText name.toList := by
  simp [quote]

end Identifier

/-! ## Pieces -/

inductive Piece where
  | text (s : String)
  | name (n : String)
  | bind (v : Value)
  /-- A place where writing stops. -/
  | fault (f : Fault)

abbrev Fragment := List Piece

/-- Text written so far, and the values bound for it. -/
structure Output where
  sql : String
  params : Parameters

namespace Output

def addText (out : Output) (s : String) : Output :=
  { out with sql := out.sql ++ s }

def addName (out : Output) (n : String) : Output :=
  out.addText (Identifier.quote n)

/-- Bind a value and write the placeholder that stands for it. -/
def bind (out : Output) (v : Value) : Output :=
  ⟨out.sql ++ (out.params.next v).1, (out.params.next v).2⟩

end Output

namespace Fragment

/-- Fragments with `sep` between them. -/
def separated (sep : String) (fragments : List Fragment) : Fragment :=
  [Piece.text sep].intercalate fragments

theorem separated_singleton (sep : String) (f : Fragment) : separated sep [f] = f := by
  simp [separated]

theorem separated_cons_cons (sep : String) (f g : Fragment) (rest : List Fragment) :
    separated sep (f :: g :: rest) = f ++ .text sep :: separated sep (g :: rest) := by
  simp [separated]

/-- `lead` and the fragments after it, or nothing if there are none. -/
def clause (lead sep : String) : List Fragment → Fragment
  | [] => []
  | fragments => .text lead :: separated sep fragments

/-- Write on to `out`, up to the first fault if there is one. -/
def write (out : Output) : Fragment → Output × Option Fault
  | [] => (out, none)
  | .text s :: rest => write (out.addText s) rest
  | .name n :: rest => write (out.addName n) rest
  | .bind v :: rest => write (out.bind v) rest
  | .fault f :: _ => (out, some f)

/-- The text of a fragment whose values are bound after those of `params`, and
all values bound then. -/
def render (f : Fragment) (params : Parameters) : Except Fault String × Parameters :=
  match write ⟨"", params⟩ f with
  | (out, none) => (.ok out.sql, out.params)
  | (out, some fault) => (.error fault, out.params)

/-! ## What writing does -/

/-- The values bound before the first fault. -/
def bound : Fragment → List Value
  | [] => []
  | .text _ :: rest => bound rest
  | .name _ :: rest => bound rest
  | .bind v :: rest => v :: bound rest
  | .fault _ :: _ => []

/-- The fault at which writing stops. -/
def fault? : Fragment → Option Fault
  | [] => none
  | .text _ :: rest => fault? rest
  | .name _ :: rest => fault? rest
  | .bind _ :: rest => fault? rest
  | .fault f :: _ => some f

/-- Writing one fragment after another stops in the first in which it stops at all. -/
theorem fault?_append (f g : Fragment) : fault? (f ++ g) = f.fault?.or g.fault? := by
  induction f with
  | nil => rfl
  | cons piece rest ih =>
    cases piece with
    | fault f => rfl
    | _ => exact ih

/-- Whether writing stops does not depend on what was written before. -/
theorem write_snd (f : Fragment) (out : Output) : (write out f).2 = f.fault? := by
  induction f generalizing out with
  | nil => rfl
  | cons piece rest ih => cases piece <;> simp [write, fault?, ih]

/-- Writing appends to the bound values and never changes them. -/
theorem values_write (f : Fragment) (out : Output) :
    (write out f).1.params.values.toList = out.params.values.toList ++ f.bound := by
  induction f generalizing out with
  | nil => simp [write, bound]
  | cons piece rest ih =>
    cases piece with
    | text s => rw [write, ih]; rfl
    | name n => rw [write, ih]; rfl
    | bind v =>
      rw [write, ih]
      show (out.params.values.push v).toList ++ bound rest = _
      rw [Array.toList_push, List.append_assoc]
      rfl
    | fault f => simp [write, bound]

end Fragment
end BoundSql
