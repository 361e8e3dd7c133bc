import BoundSql.Number.Layout
import BoundSql.Text.Escaped

/-
JSON documents and their texts.

A number is an integer or a finite double, and the two stay apart: `1` and `1.0`
are different documents.  The members of an object are listed by name, in the
order of the names; `ofMembers` sorts them and keeps the last of each name.

`text` is compact, without blanks, and in strings only what has to be escaped is
escaped.  `outline` is what messages show: every part is named by its kind, and
strings stand between quotes with all that cannot be seen escaped.
-/

namespace BoundSql

inductive Json.Number where
  | integer (n : Int)
  | float (x : Double.Finite)
  deriving DecidableEq

inductive Json where
  | null
  | bool (b : Bool)
  | number (n : Json.Number)
  | string (s : String)
  | array (items : List Json)
  | object (members : List (String × Json))

namespace Json

def ofInt (n : Int) : Json :=
  .number (.integer n)

/-- JSON has no NaN and no infinities; they become null. -/
def ofDouble : Double → Json
  | .finite x => .number (.float x)
  | _ => .null

/-- Put a member in its place, instead of one of the same name. -/
def insertMember (name : String) (value : Json) :
    List (String × Json) → List (String × Json)
  | [] => [(name, value)]
  | (other, old) :: rest =>
    if name < other then (name, value) :: (other, old) :: rest
    else if name = other then (name, value) :: rest
    else (other, old) :: insertMember name value rest

/-- The object with these members, where the last of each name counts. -/
def ofMembers (members : List (String × Json)) : Json :=
  .object (members.foldl (fun sorted (name, value) => insertMember name value sorted) [])

namespace Number

/-- An integer is never the same as a float. -/
def same : Number → Number → Bool
  | integer m, integer n => m == n
  | float x, float y => x.sameNumber y
  | _, _ => false

end Number

mutual

/-- Equality of documents, where the two zeros are one float. -/
def same : Json → Json → Bool
  | .null, .null => true
  | .bool a, .bool b => a == b
  | .number a, .number b => a.same b
  | .string a, .string b => a == b
  | .array a, .array b => sameItems a b
  | .object a, .object b => sameMembers a b
  | _, _ => false

def sameItems : List Json → List Json → Bool
  | [], [] => true
  | a :: as, b :: bs => a.same b && sameItems as bs
  | _, _ => false

def sameMembers : List (String × Json) → List (String × Json) → Bool
  | [], [] => true
  | (m, a) :: as, (n, b) :: bs => m == n && a.same b && sameMembers as bs
  | _, _ => false

end

/-! ## Compact text -/

/-- One character as it stands in a JSON string.  Of the controls below the
blank, five have an escape of their own. -/
def stringChar (c : Char) : List Char :=
  match c with
  | '"' => ['\\', '"']
  | '\\' => ['\\', '\\']
  | '\x08' => ['\\', 'b']
  | '\x0c' => ['\\', 'f']
  | '\n' => ['\\', 'n']
  | '\r' => ['\\', 'r']
  | '\t' => ['\\', 't']
  | c => if c.toNat < 0x20 then ['\\', 'u'] ++ Numeral.hex 4 c.toNat else [c]

def stringText (s : String) : List Char :=
  '"' :: s.toList.flatMap stringChar ++ ['"']

def boolText (b : Bool) : List Char :=
  if b then ['t', 'r', 'u', 'e'] else ['f', 'a', 'l', 's', 'e']

def Number.text : Number → List Char
  | .integer n => Numeral.ofInt n
  | .float x => Layout.json.finiteText x

mutual

def text : Json → List Char
  | .null => ['n', 'u', 'l', 'l']
  | .bool b => boolText b
  | .number n => n.text
  | .string s => stringText s
  | .array items => '[' :: [','].intercalate (itemTexts items) ++ [']']
  | .object members => '\x7b' :: [','].intercalate (memberTexts members) ++ ['\x7d']

def itemTexts : List Json → List (List Char)
  | [] => []
  | item :: rest => item.text :: itemTexts rest

def memberTexts : List (String × Json) → List (List Char)
  | [] => []
  | (name, value) :: rest => (stringText name ++ ':' :: value.text) :: memberTexts rest

end

/-! ## Outline -/

mutual

def outline : Json → List Char
  | .null => "Null".toList
  | .bool b => "Bool(".toList ++ boolText b ++ [')']
  | .number n => "Number(".toList ++ n.text ++ [')']
  | .string s => "String(".toList ++ Escaped.quoted s.toList ++ [')']
  | .array items => "Array [".toList ++ [',', ' '].intercalate (itemOutlines items) ++ [']']
  | .object members =>
    "Object \x7b".toList ++ [',', ' '].intercalate (memberOutlines members) ++ ['\x7d']

def itemOutlines : List Json → List (List Char)
  | [] => []
  | item :: rest => item.outline :: itemOutlines rest

def memberOutlines : List (String × Json) → List (List Char)
  | [] => []
  | (name, value) :: rest =>
    (Escaped.quoted name.toList ++ ':' :: ' ' :: value.outline) :: memberOutlines rest

end

end Json
end BoundSql
