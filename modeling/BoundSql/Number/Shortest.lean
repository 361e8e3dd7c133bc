import BoundSql.Number.Basic

/-
The shortest decimal that reads back as a given double.

A finite double is a decimal with finitely many digits, so its exact expansion
is a whole number `digits` times a power of ten.  A shorter decimal is a
multiple of `10 ^ j` there, and `admits` decides in whole numbers whether such a
multiple lies in the interval of reals that round to the double.  `search` tries
the grids from the coarsest down.  On each it suffices to look at the two
neighbours of the double: if the interval holds any point of the grid, it holds
one of them.  The finest grid holds the double itself, so the search always ends
with a decimal that reads back.
-/

namespace BoundSql
namespace Shortest

/-- Which of two equally near decimals is taken. -/
inductive Tie where
  | up
  | even
  deriving DecidableEq

/-- The exact expansion of a double: it is `significand * unit`, counted in
steps of `10 ^ place`. -/
structure Expansion where
  significand : Nat
  unit : Nat
  place : Int
  /-- The distance to the neighbour below is half of that to the one above. -/
  narrow : Bool

namespace Expansion

/-- With a negative power, `2 ^ power` is `5 ^ (-power)` steps of `10 ^ power`. -/
def ofFinite (x : Double.Finite) : Expansion :=
  if 0 ≤ x.power then ⟨x.significand, Nat.pow 2 x.power.toNat, 0, x.atBinade⟩
  else ⟨x.significand, Nat.pow 5 (-x.power).toNat, x.power, x.atBinade⟩

def digits (x : Expansion) : Nat :=
  x.significand * x.unit

/-- Whether `n` lies in the interval of numbers that round to the double.  Its
ends lie half way to the neighbours and belong to it if the significand is
even.  All is counted in quarters to stay in whole numbers. -/
def admits (x : Expansion) (n : Nat) : Bool :=
  let low := (4 * x.significand - if x.narrow then 1 else 2) * x.unit
  let high := (4 * x.significand + 2) * x.unit
  if x.significand % 2 = 0 then low ≤ 4 * n && 4 * n ≤ high else low < 4 * n && 4 * n < high

/-- The multiple of `step` nearest to the double among those its interval
holds, divided by `step`. -/
def onGrid? (tie : Tie) (x : Expansion) (step : Nat) : Option Nat :=
  let below := x.digits / step
  let rest := x.digits % step
  let upFirst : Bool :=
    step < 2 * rest || (2 * rest == step && (tie == .up || below % 2 == 1))
  let nearer := if upFirst then below + 1 else below
  let farther := if upFirst then below else below + 1
  if x.admits (nearer * step) then some nearer
  else if x.admits (farther * step) then some farther
  else none

/-- The coarsest grid from `10 ^ j` down that meets the interval, as the
multiple found and the exponent of the grid. -/
def search (tie : Tie) (x : Expansion) : Nat → Nat × Nat
  | 0 => (x.digits, 0)
  | j + 1 =>
    match x.onGrid? tie (Nat.pow 10 (j + 1)) with
    | some n => (n, j + 1)
    | none => x.search tie j

end Expansion

/-- Decimal digits, the first of which counts `10 ^ exponent`. -/
structure Scientific where
  digits : List Char
  exponent : Int

/-- Digits without the zeros at the end. -/
def significantDigits (n : Nat) : List Char :=
  ((Numeral.ofNat n).reverse.dropWhile (· == '0')).reverse

/-- The shortest digits that read back as the magnitude of `x`, and of those
the nearest to it.  Zero has the digit zero. -/
def scientific (tie : Tie) (x : Double.Finite) : Scientific :=
  if x.isZero then ⟨['0'], 0⟩
  else
    let exact := Expansion.ofFinite x
    let found := exact.search tie ((Numeral.ofNat exact.digits).length - 1)
    let last := exact.place + found.2
    ⟨significantDigits found.1, (Numeral.ofNat found.1).length - 1 + last⟩

end Shortest
end BoundSql
