import BoundSql.Text.Numeral

/-
Universally unique identifiers.

They are written in one way, in lower case with hyphens.  Four spellings are
read, in either case: the hyphenated one, alone, in braces or after `urn:uuid:`,
and the thirty-two digits without hyphens.
-/

namespace BoundSql

structure Uuid where
  value : BitVec 128
  deriving DecidableEq

namespace Uuid

def hexText (u : Uuid) : List Char :=
  Numeral.hex 32 u.value.toNat

/-- Groups of 8, 4, 4, 4 and 12 digits. -/
def text (u : Uuid) : List Char :=
  let digits := u.hexText
  digits.take 8 ++ '-' :: (digits.drop 8).take 4 ++ '-' :: (digits.drop 12).take 4 ++
    '-' :: (digits.drop 16).take 4 ++ '-' :: digits.drop 20

/-- The thirty-two digits. -/
def ofHex? (digits : List Char) : Option Uuid :=
  if digits.length = 32 then
    (Numeral.hexValue? 0 digits).map fun n => ⟨BitVec.ofNat 128 n⟩
  else none

/-- The hyphenated form. -/
def ofHyphenated? (cs : List Char) : Option Uuid :=
  if cs.length = 36 ∧ [8, 13, 18, 23].all (cs[·]? = some '-') then
    ofHex? (cs.take 8 ++ (cs.drop 9).take 4 ++ (cs.drop 14).take 4 ++
      (cs.drop 19).take 4 ++ cs.drop 24)
  else none

/-- What stands before the hyphenated form in a name of the URN scheme. -/
def urnMark : List Char :=
  ['u', 'r', 'n', ':', 'u', 'u', 'i', 'd', ':']

def ofText? (cs : List Char) : Option Uuid :=
  if (cs.take urnMark.length).map Char.toLower = urnMark then
    ofHyphenated? (cs.drop urnMark.length)
  else
    match cs with
    | '\x7b' :: rest =>
      if rest.getLast? = some '\x7d' then ofHyphenated? rest.dropLast else none
    | cs => (ofHex? cs).or (ofHyphenated? cs)

end Uuid
end BoundSql
