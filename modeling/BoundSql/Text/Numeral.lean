/-
Written whole numbers, and the white space around them.

Decimal numerals are `Nat.toDigits 10`, for which core has the reading back
(`Nat.ofDigitChars_toDigits`).  Hexadecimal numerals here always have a fixed
width, so two of them are the same text only if the numbers agree below that
width.  White space is that of the Unicode property `White_Space`; `Blank.trim`
takes the longest runs of it off both ends of a text.
-/

namespace BoundSql
namespace Numeral

/-- The decimal digits of `n`, without leading zeros. -/
def ofNat (n : Nat) : List Char :=
  Nat.toDigits 10 n

/-- The decimal digits of `n` after a minus sign if it is negative. -/
def ofInt (n : Int) : List Char :=
  if n < 0 then '-' :: ofNat n.natAbs else ofNat n.natAbs

/-- The decimal digits of `n` with zeros in front up to `width`. -/
def padded (width n : Nat) : List Char :=
  (ofNat n).leftpad width '0'

/-- The last `width` hexadecimal digits of `n`, in lower case. -/
def hex : Nat → Nat → List Char
  | 0, _ => []
  | width + 1, n => hex width (n / 16) ++ [Nat.digitChar (n % 16)]

theorem length_hex (width n : Nat) : (hex width n).length = width := by
  induction width generalizing n with
  | zero => rfl
  | succ width ih => simp [hex, ih]

/-- The hexadecimal digits of `n`, without leading zeros. -/
def hexOfNat (n : Nat) : List Char :=
  Nat.toDigits 16 n

/-- The value of a hexadecimal digit in either case. -/
def hexDigit? (c : Char) : Option Nat :=
  if c.isDigit then some (c.toNat - '0'.toNat)
  else if 'a' ≤ c ∧ c ≤ 'f' then some (c.toNat - 'a'.toNat + 10)
  else if 'A' ≤ c ∧ c ≤ 'F' then some (c.toNat - 'A'.toNat + 10)
  else none

/-- The number that hexadecimal digits stand for, read on from `start`. -/
def hexValue? (start : Nat) : List Char → Option Nat
  | [] => some start
  | c :: rest => (hexDigit? c).bind fun d => hexValue? (16 * start + d) rest

/-- The number that decimal digits stand for.  There has to be at least one. -/
def value? (digits : List Char) : Option Nat :=
  if digits ≠ [] ∧ digits.all Char.isDigit then some (Nat.ofDigitChars 10 digits 0) else none

/-- An integer numeral is digits after at most one sign. -/
def intValue? : List Char → Option Int
  | '-' :: digits => (value? digits).map fun (n : Nat) => -(n : Int)
  | '+' :: digits => (value? digits).map fun (n : Nat) => (n : Int)
  | digits => (value? digits).map fun (n : Nat) => (n : Int)

/-! ## Reading back -/

/-- A character of a class is none of those outside of it. -/
theorem ne_of_class {p : Char → Bool} {c d : Char} (hc : p c = true) (hd : p d = false) :
    c ≠ d := by
  rintro rfl
  rw [hc] at hd
  cases hd

theorem ofNat_ne_nil (n : Nat) : ofNat n ≠ [] :=
  Nat.toDigits_ne_nil

theorem isDigit_of_mem_ofNat {n : Nat} {c : Char} (h : c ∈ ofNat n) : c.isDigit = true :=
  Nat.isDigit_of_mem_toDigits (by decide) (by decide) h

theorem value?_ofNat (n : Nat) : value? (ofNat n) = some n := by
  have h : (ofNat n).all Char.isDigit = true :=
    List.all_eq_true.mpr fun _ hc => isDigit_of_mem_ofNat hc
  rw [value?, if_pos ⟨ofNat_ne_nil n, h⟩, ofNat, Nat.ofDigitChars_ten_toDigits]

theorem ofNat_inj {m n : Nat} (h : ofNat m = ofNat n) : m = n := by
  have hv := congrArg value? h
  rw [value?_ofNat, value?_ofNat] at hv
  exact Option.some.inj hv

/-- A numeral without a sign is read as its digits. -/
theorem intValue?_of_isDigit {c : Char} {rest : List Char} (h : c.isDigit = true) :
    intValue? (c :: rest) = (value? (c :: rest)).map fun (n : Nat) => (n : Int) := by
  have hm : c ≠ '-' := ne_of_class h rfl
  have hp : c ≠ '+' := ne_of_class h rfl
  unfold intValue?
  split
  · rename_i heq
    exact absurd (List.cons.inj heq).1 hm
  · rename_i heq
    exact absurd (List.cons.inj heq).1 hp
  · rfl

theorem intValue?_ofInt (n : Int) : intValue? (ofInt n) = some n := by
  unfold ofInt
  split
  · rename_i h
    show (value? (ofNat n.natAbs)).map (fun (m : Nat) => -(m : Int)) = some n
    rw [value?_ofNat, Option.map_some]
    congr 1
    omega
  · rename_i h
    obtain ⟨c, rest, hc⟩ := List.exists_cons_of_ne_nil (ofNat_ne_nil n.natAbs)
    have hd : c.isDigit = true := isDigit_of_mem_ofNat (hc ▸ List.mem_cons_self)
    rw [hc, intValue?_of_isDigit hd, ← hc, value?_ofNat, Option.map_some]
    congr 1
    omega

end Numeral

/-! ## White space -/

namespace Blank

/-- The property `White_Space`. -/
def isBlank (c : Char) : Bool :=
  let n := c.toNat
  (0x09 ≤ n && n ≤ 0x0D) || n == 0x20 || n == 0x85 || n == 0xA0 || n == 0x1680 ||
    (0x2000 ≤ n && n ≤ 0x200A) || n == 0x2028 || n == 0x2029 || n == 0x202F ||
    n == 0x205F || n == 0x3000

/-- The text without the white space at its ends. -/
def trim (cs : List Char) : List Char :=
  ((cs.dropWhile isBlank).reverse.dropWhile isBlank).reverse

end Blank
end BoundSql
