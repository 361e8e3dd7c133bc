import BoundSql.Text.Numeral

/-
Numbers that need not be whole: doubles, and decimals with a fixed number of
decimals.

A double is its sign, exponent and fraction.  A finite one is
`significand * 2 ^ power`, and every operation here works on those two integers,
so nothing is rounded unless it says so.  There is one NaN: payloads and signs of
NaNs are dropped when bits are read, and two doubles are equal exactly if they
have the same bits with all NaNs alike.  The comparison of numbers, for which the
two zeros are one and NaN is none, is `sameNumber`.  Powers are written `Nat.pow`,
since the operator finds another instance where more is imported.

The scale of a decimal is part of the value: `1.50` and `1.5` are different
decimals that are the same number.  There is one zero of each scale: a zero with a
minus sign, which is the same number, is left out.
-/

namespace BoundSql

/-! ## Doubles -/

/-- A finite double by its fields.  The biased exponent 2047 is not finite. -/
structure Double.Finite where
  negative : Bool
  exponent : Fin 2047
  fraction : BitVec 52
  deriving DecidableEq

inductive Double where
  | nan
  | infinite (negative : Bool)
  | finite (x : Double.Finite)
  deriving DecidableEq

namespace Double.Finite

/-- The integer whose `2 ^ power`-fold the number is.  The leading bit is not
stored, and is missing where the exponent is the least. -/
def significand (x : Finite) : Nat :=
  if x.exponent = 0 then x.fraction.toNat else Nat.pow 2 52 + x.fraction.toNat

def power (x : Finite) : Int :=
  (max x.exponent.val 1 : Nat) - 1075

def isZero (x : Finite) : Bool :=
  x.significand == 0

/-- The neighbour towards zero is only half as far away as the other one. -/
def atBinade (x : Finite) : Bool :=
  x.fraction = 0 && 1 < x.exponent.val

/-- Both zeros are the same number. -/
def sameNumber (x y : Finite) : Bool :=
  x == y || (x.isZero && y.isZero)

/-- The number, if it is an integer. -/
def integer? (x : Finite) : Option Int :=
  let magnitude : Option Nat :=
    if 0 ≤ x.power then some (x.significand * Nat.pow 2 x.power.toNat)
    else
      let unit := Nat.pow 2 (-x.power).toNat
      if x.significand % unit = 0 then some (x.significand / unit) else none
  magnitude.map fun (n : Nat) => if x.negative then -(n : Int) else (n : Int)

def toBits (x : Finite) : UInt64 :=
  UInt64.ofNat
    ((if x.negative then Nat.pow 2 63 else 0) + x.exponent.val * Nat.pow 2 52 + x.fraction.toNat)

end Double.Finite

namespace Double

/-- Equality of numbers: NaN is unequal to all, and the two zeros are equal. -/
def sameNumber : Double → Double → Bool
  | nan, _ => false
  | infinite s, infinite t => s == t
  | finite x, finite y => x.sameNumber y
  | _, _ => false

def integer? : Double → Option Int
  | finite x => x.integer?
  | _ => none

/-- The double of a sign, biased exponent and fraction field of 52 bits. -/
def ofFields (negative : Bool) (exponent : Nat) (fraction : BitVec 52) : Double :=
  if h : exponent < 2047 then finite ⟨negative, ⟨exponent, h⟩, fraction⟩
  else if fraction = 0 then infinite negative
  else nan

def ofBits (bits : UInt64) : Double :=
  let n := bits.toNat
  ofFields (n.testBit 63) (n / Nat.pow 2 52 % Nat.pow 2 11) (BitVec.ofNat 52 n)

def toBits : Double → UInt64
  | nan => 0x7FF8000000000000
  | infinite negative => if negative then 0xFFF0000000000000 else 0x7FF0000000000000
  | finite x => x.toBits

/-! ## Rounding -/

/-- The integer nearest to `n / 2 ^ shift`, and the even one of two. -/
def shiftToEven (n shift : Nat) : Nat :=
  let quotient := n / Nat.pow 2 shift
  let rest := 2 * (n % Nat.pow 2 shift)
  if Nat.pow 2 shift < rest ∨ (rest = Nat.pow 2 shift ∧ quotient % 2 = 1) then quotient + 1
  else quotient

/-- The double nearest to `n * 2 ^ q`, and the one with the even significand of
two.  The step between doubles there is `2 ^ unit`; a significand that rounds up
to `2 ^ 53` carries into the exponent field. -/
def nearest (negative : Bool) (n : Nat) (q : Int) : Double :=
  if n = 0 then finite ⟨negative, 0, 0⟩
  else
    let unit := max (n.log2 + q) (-1022) - 52
    let significand :=
      if unit ≤ q then n * Nat.pow 2 (q - unit).toNat else shiftToEven n (unit - q).toNat
    let field := (unit + 1074).toNat * Nat.pow 2 52 + significand
    if h : field / Nat.pow 2 52 < 2047 then
      finite ⟨negative, ⟨field / Nat.pow 2 52, h⟩, BitVec.ofNat 52 field⟩
    else infinite negative

/-- The double nearest to an integer. -/
def ofInt (n : Int) : Double :=
  nearest (n < 0) n.natAbs 0

/-- The double that equals a single precision number, given by its bits. -/
def ofSingleBits (bits : UInt32) : Double :=
  let n := bits.toNat
  let negative := n.testBit 31
  let exponent : Nat := n / Nat.pow 2 23 % Nat.pow 2 8
  let fraction : Nat := n % Nat.pow 2 23
  if exponent = 255 then if fraction = 0 then infinite negative else nan
  else if exponent = 0 then nearest negative fraction (-149)
  else nearest negative (Nat.pow 2 23 + fraction) ((exponent : Int) - 150)

end Double

/-! ## Decimals -/

/-- The number `mantissa / 10 ^ scale`. -/
structure Decimal where
  mantissa : Int
  scale : Nat
  deriving DecidableEq

namespace Decimal

/-- Exactly `scale` decimals, and a digit before the point. -/
def text (d : Decimal) : List Char :=
  let digits := Numeral.padded (d.scale + 1) d.mantissa.natAbs
  let whole := digits.take (digits.length - d.scale)
  let fraction := digits.drop (digits.length - d.scale)
  (if d.mantissa < 0 then ['-'] else []) ++ whole ++
    (if d.scale = 0 then [] else '.' :: fraction)

/-- The number, if it is an integer. -/
def integer? (d : Decimal) : Option Int :=
  let unit := Int.pow 10 d.scale
  if d.mantissa % unit = 0 then some (d.mantissa / unit) else none

def ofInt (n : Int) : Decimal :=
  ⟨n, 0⟩

/-- Whether two decimals are the same number, at any scales. -/
def sameNumber (d e : Decimal) : Bool :=
  d.mantissa * Int.pow 10 e.scale == e.mantissa * Int.pow 10 d.scale

end Decimal
end BoundSql
