import BoundSql.Number.Shortest

/-
How the digits of a double are laid out.

A layout says which exponents are written positionally, whether a whole number
keeps a zero after the point, and how an exponent is marked.  The three layouts
in use stand at the end: `exact` for texts that have to tell values apart,
`plain` for texts that people read, and `json` for JSON documents.
-/

namespace BoundSql

structure Layout where
  /-- Whether a number whose first digit counts `10 ^ k` has no exponent. -/
  positional : Int → Bool
  /-- A whole number written positionally ends in `.0`. -/
  keepsPoint : Bool
  /-- An exponent that is not negative has a plus sign. -/
  plusSign : Bool
  tie : Shortest.Tie

namespace Layout

/-- Digits without an exponent: zeros fill up to the point. -/
def positionalText (keepsPoint : Bool) (s : Shortest.Scientific) : List Char :=
  if s.exponent < 0 then
    ['0', '.'] ++ List.replicate (-s.exponent - 1).toNat '0' ++ s.digits
  else
    let width := s.exponent.toNat + 1
    let whole := s.digits.take width ++ List.replicate (width - s.digits.length) '0'
    match s.digits.drop width with
    | [] => whole ++ (if keepsPoint then ['.', '0'] else [])
    | fraction => whole ++ '.' :: fraction

/-- One digit before the point, and the exponent after `e`. -/
def exponentText (plusSign : Bool) (s : Shortest.Scientific) : List Char :=
  let mantissa :=
    match s.digits with
    | first :: second :: rest => first :: '.' :: second :: rest
    | digits => digits
  let sign := if plusSign && 0 ≤ s.exponent then ['+'] else []
  mantissa ++ 'e' :: sign ++ Numeral.ofInt s.exponent

/-- The text of a finite double. -/
def finiteText (layout : Layout) (x : Double.Finite) : List Char :=
  let s := Shortest.scientific layout.tie x
  let magnitude :=
    if layout.positional s.exponent then positionalText layout.keepsPoint s
    else exponentText layout.plusSign s
  if x.negative then '-' :: magnitude else magnitude

/-- The text of a double.  NaN has no sign. -/
def text (layout : Layout) : Double → List Char
  | .nan => ['N', 'a', 'N']
  | .infinite negative => if negative then ['-', 'i', 'n', 'f'] else ['i', 'n', 'f']
  | .finite x => layout.finiteText x

/-- Positional from `0.0001` up to but not including `1e16`, always with a
point or an exponent.  Ties go away from zero. -/
def exact : Layout where
  positional k := -4 ≤ k && k ≤ 15
  keepsPoint := true
  plusSign := false
  tie := .up

/-- Always positional, and a whole number has no point.  Ties go away from
zero. -/
def plain : Layout where
  positional _ := true
  keepsPoint := false
  plusSign := false
  tie := .up

/-- Positional from `0.00001` up to but not including `1e16`, with a point or a
signed exponent.  Ties go to the even digit. -/
def json : Layout where
  positional k := -5 ≤ k && k ≤ 15
  keepsPoint := true
  plusSign := true
  tie := .even

end Layout
end BoundSql
