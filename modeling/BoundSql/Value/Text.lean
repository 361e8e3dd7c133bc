import BoundSql.Value.Basic

/-
The texts of a value.

`key` tells values apart: two values have one key exactly if they have the same
variant and the same payload, a float by its bits and a decimal with its scale.
Only numbers, truth values, null and text are written without a mark in front.
`display` is for people, `outline` for messages, and `toJson` is the document
that stands for the value outside.
-/

namespace BoundSql
namespace Value

/-- Two hexadecimal digits for each byte. -/
def bytesText (bs : List UInt8) : List Char :=
  bs.flatMap fun b => Numeral.hex 2 b.toNat

def keyText : Value → List Char
  | null => ['n', 'u', 'l', 'l']
  | bool b => Json.boolText b
  | int n => Numeral.ofInt n.toInt
  | float x => 'f' :: ':' :: Layout.exact.text x
  | text s => Json.stringText s
  | bytes bs => 'x' :: ':' :: bytesText bs
  | uuid u => 'u' :: ':' :: u.text
  | timestamp t => 't' :: 's' :: ':' :: t.text
  | date d => 'd' :: ':' :: d.text
  | json j => 'j' :: ':' :: j.text
  | decimal d => 'm' :: ':' :: d.text

def key (v : Value) : String :=
  String.ofList v.keyText

def displayText : Value → List Char
  | null => ['N', 'U', 'L', 'L']
  | bool b => Json.boolText b
  | int n => Numeral.ofInt n.toInt
  | float x => Layout.plain.text x
  | text s => s.toList
  | bytes bs => '<' :: Numeral.ofNat bs.length ++ " bytes>".toList
  | uuid u => u.text
  | timestamp t => t.text
  | date d => d.text
  | json j => j.text
  | decimal d => d.text

def display (v : Value) : String :=
  String.ofList v.displayText

/-- The variant, with the payload in parentheses. -/
def outlineText : Value → List Char
  | null => "Null".toList
  | bool b => "Bool(".toList ++ Json.boolText b ++ [')']
  | int n => "Int(".toList ++ Numeral.ofInt n.toInt ++ [')']
  | float x => "Float(".toList ++ Layout.exact.text x ++ [')']
  | text s => "Text(".toList ++ Escaped.quoted s.toList ++ [')']
  | bytes bs =>
    "Bytes([".toList ++ [',', ' '].intercalate (bs.map fun b => Numeral.ofNat b.toNat) ++ [']', ')']
  | uuid u => "Uuid(".toList ++ u.text ++ [')']
  | timestamp t => "Timestamp(".toList ++ t.zuluText ++ [')']
  | date d => "Date(".toList ++ d.text ++ [')']
  | json j => "Json(".toList ++ j.outline ++ [')']
  | decimal d => "Decimal(".toList ++ d.text ++ [')']

def outline (v : Value) : String :=
  String.ofList v.outlineText

def toJson : Value → Json
  | null => .null
  | bool b => .bool b
  | int n => .ofInt n.toInt
  | float x => .ofDouble x
  | text s => .string s
  | bytes bs => .array (bs.map fun b => .ofInt b.toNat)
  | uuid u => .string (String.ofList u.text)
  | timestamp t => .string (String.ofList t.zuluText)
  | date d => .string (String.ofList d.text)
  | json j => j
  | decimal d => .string (String.ofList d.text)

end Value
end BoundSql
