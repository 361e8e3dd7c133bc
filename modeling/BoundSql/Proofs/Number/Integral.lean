import BoundSql.Number.Basic
import Mathlib.Algebra.Order.Field.Power
import Mathlib.Algebra.Order.Field.Rat
import Mathlib.Data.List.TakeWhile
import Mathlib.Data.Nat.Digits.Defs
import Mathlib.Tactic.Positivity
import Mathlib.Tactic.Ring

/-
Which integer a number is.

A double and a decimal are rational numbers, and a numeral counts each of its digits ten
times as much as the next one.  The integer that is read off the significand and power of
a double, off the mantissa and scale of a decimal, or off a text with white space around a
numeral, is that number, and there is one whenever the number is an integer.
-/

namespace BoundSql

/-! ## Quotients of integers -/

/-- A quotient is an integer exactly if the division leaves nothing. -/
theorem intCast_div_eq_iff {a unit n : Int} (hunit : unit ≠ 0) :
    (a : ℚ) / unit = n ↔ a % unit = 0 ∧ a / unit = n := by
  rw [div_eq_iff (by exact_mod_cast hunit)]
  constructor
  · intro h
    have hmul : a = n * unit := by exact_mod_cast h
    rw [hmul]
    exact ⟨Int.mul_emod_left n unit, Int.mul_ediv_cancel n hunit⟩
  · rintro ⟨hrest, rfl⟩
    have hmul : a / unit * unit = a := Int.ediv_mul_cancel (Int.dvd_of_emod_eq_zero hrest)
    exact_mod_cast hmul.symm

/-! ## Decimals -/

namespace Decimal

def value (d : Decimal) : ℚ :=
  d.mantissa / 10 ^ d.scale

theorem integer?_eq_some_iff (d : Decimal) (n : Int) : d.integer? = some n ↔ d.value = n := by
  have hunit : (10 : Int) ^ d.scale ≠ 0 := by positivity
  have hvalue : d.value = (d.mantissa : ℚ) / ((10 ^ d.scale : Int) : ℚ) := by
    rw [value]
    push_cast
    rfl
  rw [hvalue, intCast_div_eq_iff hunit, integer?, Int.pow_eq]
  simp

end Decimal

/-! ## Doubles -/

namespace Double.Finite

/-- The number that the fields stand for, without its sign: one and the fraction, scaled by
the exponent, or the fraction alone where the exponent is the least. -/
def absValue (x : Finite) : ℚ :=
  if x.exponent.val = 0 then ((x.fraction.toNat : ℚ) / 2 ^ 52) * 2 ^ (-1022 : Int)
  else (1 + (x.fraction.toNat : ℚ) / 2 ^ 52) * 2 ^ ((x.exponent.val : Int) - 1023)

def value (x : Finite) : ℚ :=
  if x.negative then -x.absValue else x.absValue

theorem absValue_eq (x : Finite) : x.absValue = x.significand * 2 ^ x.power := by
  have hleast : x.exponent = 0 ↔ x.exponent.val = 0 := Fin.ext_iff
  have hscale (k : Int) : (2 : ℚ) ^ (k - 52) = 2 ^ k / 2 ^ 52 := zpow_sub₀ two_ne_zero k 52
  unfold absValue significand power
  simp only [hleast, Nat.pow_eq]
  split
  · rename_i hzero
    -- The least exponent has the power of the one after it, but no leading one.
    have hpower : ((max x.exponent.val 1 : Nat) : Int) - 1075 = -1022 - 52 := by
      rw [hzero]
      rfl
    rw [hpower, hscale]
    ring
  · rename_i hnormal
    have hpower : ((max x.exponent.val 1 : Nat) : Int) - 1075 =
        ((x.exponent.val : Int) - 1023) - 52 := by
      omega
    rw [hpower, hscale]
    generalize (2 : ℚ) ^ ((x.exponent.val : Int) - 1023) = scale
    push_cast
    ring

theorem absValue_nonneg (x : Finite) : 0 ≤ x.absValue := by
  rw [absValue_eq]
  positivity

/-- The integer that is read off, without its sign. -/
def natural? (x : Finite) : Option Nat :=
  if 0 ≤ x.power then some (x.significand * Nat.pow 2 x.power.toNat)
  else
    let unit := Nat.pow 2 (-x.power).toNat
    if x.significand % unit = 0 then some (x.significand / unit) else none

theorem integer?_eq (x : Finite) :
    x.integer? = x.natural?.map fun (m : Nat) => if x.negative then -(m : Int) else m := rfl

theorem natural?_eq_some_iff (x : Finite) (m : Nat) :
    x.natural? = some m ↔ x.absValue = m := by
  rw [absValue_eq]
  unfold natural?
  split
  · rename_i hpower
    obtain ⟨k, hk⟩ := Int.eq_ofNat_of_zero_le hpower
    rw [hk, Int.toNat_natCast, zpow_natCast, Option.some.injEq, Nat.pow_eq]
    norm_cast
  · rename_i hpower
    obtain ⟨k, hk⟩ := Int.eq_ofNat_of_zero_le (by omega : 0 ≤ -x.power)
    have hneg : x.power = -(k : Int) := by omega
    have hunit : ((2 ^ k : Nat) : Int) ≠ 0 := by positivity
    have hdiv := intCast_div_eq_iff (a := x.significand) (n := m) hunit
    simp only [hneg, neg_neg, Int.toNat_natCast, zpow_neg, zpow_natCast, Nat.pow_eq]
    rw [← div_eq_mul_inv]
    push_cast at hdiv ⊢
    rw [hdiv]
    norm_cast
    simp

theorem integer?_eq_some_iff (x : Finite) (n : Int) : x.integer? = some n ↔ x.value = n := by
  have hnonneg := x.absValue_nonneg
  rw [integer?_eq, Option.map_eq_some_iff, value]
  constructor
  · rintro ⟨m, hm, rfl⟩
    rw [(x.natural?_eq_some_iff m).mp hm]
    split <;> push_cast <;> rfl
  · intro h
    have habs : |(n : ℚ)| = x.absValue := by
      rw [← h]
      split
      · rw [abs_neg, abs_of_nonneg hnonneg]
      · exact abs_of_nonneg hnonneg
    have hnatural : x.absValue = ((n.natAbs : Int) : ℚ) := by
      rw [← habs, Int.natCast_natAbs, Int.cast_abs]
    refine ⟨n.natAbs, (x.natural?_eq_some_iff _).mpr hnatural, ?_⟩
    rw [hnatural] at h
    split at h <;> rename_i hsign
    · rw [if_pos hsign]
      exact Int.cast_injective ((Int.cast_neg _).trans h)
    · rw [if_neg hsign]
      exact Int.cast_injective h

end Double.Finite

/-! ## Numerals -/

namespace Numeral

/-- The number of decimal digits, the last of which counts one. -/
def positional (digits : List Char) : Nat :=
  Nat.ofDigits 10 (digits.reverse.map fun c => c.toNat - '0'.toNat)

/-- The text is an optional sign and digits, and stands for the integer. -/
inductive Denotes : List Char → Int → Prop
  | plain {digits : List Char} (hne : digits ≠ []) (h : ∀ c ∈ digits, c.isDigit = true) :
      Denotes digits (positional digits)
  | plus {digits : List Char} (hne : digits ≠ []) (h : ∀ c ∈ digits, c.isDigit = true) :
      Denotes ('+' :: digits) (positional digits)
  | minus {digits : List Char} (hne : digits ≠ []) (h : ∀ c ∈ digits, c.isDigit = true) :
      Denotes ('-' :: digits) (-positional digits)

theorem positional_eq_ofDigitChars (digits : List Char) :
    positional digits = Nat.ofDigitChars 10 digits 0 := by
  induction digits using List.reverseRecOn with
  | nil => rfl
  | append_singleton digits c ih =>
    rw [Nat.ofDigitChars_append, ← ih, Nat.ofDigitChars_cons, Nat.ofDigitChars_nil, positional,
      List.reverse_append, List.reverse_singleton, List.singleton_append, List.map_cons,
      Nat.ofDigits_cons, positional, Nat.add_comm]

theorem value?_eq_some_iff (digits : List Char) (n : Nat) :
    value? digits = some n ↔
      (digits ≠ [] ∧ ∀ c ∈ digits, c.isDigit = true) ∧ positional digits = n := by
  rw [value?, positional_eq_ofDigitChars]
  simp

theorem intValue?_eq_some_iff (cs : List Char) (n : Int) :
    intValue? cs = some n ↔ Denotes cs n := by
  constructor
  · intro h
    unfold intValue? at h
    split at h
    all_goals
      obtain ⟨m, hm, rfl⟩ := Option.map_eq_some_iff.mp h
      obtain ⟨⟨hne, hdigits⟩, rfl⟩ := (value?_eq_some_iff _ m).mp hm
    · exact .minus hne hdigits
    · exact .plus hne hdigits
    · exact .plain hne hdigits
  · intro h
    cases h with
    | plain hne hdigits =>
      obtain ⟨c, rest, rfl⟩ := List.exists_cons_of_ne_nil hne
      rw [intValue?_of_isDigit (hdigits c List.mem_cons_self),
        (value?_eq_some_iff _ _).mpr ⟨⟨hne, hdigits⟩, rfl⟩]
      rfl
    | plus hne hdigits =>
      rw [intValue?, (value?_eq_some_iff _ _).mpr ⟨⟨hne, hdigits⟩, rfl⟩]
      rfl
    | minus hne hdigits =>
      rw [intValue?, (value?_eq_some_iff _ _).mpr ⟨⟨hne, hdigits⟩, rfl⟩]
      rfl

end Numeral

/-! ## White space around a numeral -/

namespace Blank

theorem isBlank_of_isDigit {c : Char} (h : c.isDigit = true) : isBlank c = false := by
  have hrange := Char.isDigit_iff_toNat.mp h
  have hzero : '0'.toNat = 48 := rfl
  have hnine : '9'.toNat = 57 := rfl
  simp only [isBlank, Bool.or_eq_false_iff, Bool.and_eq_false_iff, decide_eq_false_iff_not,
    beq_eq_false_iff_ne]
  omega

/-- A numeral has no white space in it. -/
theorem isBlank_of_mem_numeral {cs : List Char} {n : Int} (h : Numeral.Denotes cs n) {c : Char}
    (hc : c ∈ cs) : isBlank c = false := by
  cases h with
  | plain hne hdigits => exact isBlank_of_isDigit (hdigits c hc)
  | plus hne hdigits | minus hne hdigits =>
    rcases List.mem_cons.mp hc with rfl | hc
    · decide
    · exact isBlank_of_isDigit (hdigits c hc)

theorem ne_nil_of_numeral {cs : List Char} {n : Int} (h : Numeral.Denotes cs n) : cs ≠ [] := by
  cases h with
  | plain hne hdigits => exact hne
  | plus | minus => exact List.cons_ne_nil _ _

theorem dropWhile_blank {before rest : List Char} (hbefore : ∀ c ∈ before, isBlank c = true)
    (hrest : ∀ c ∈ rest.head?, isBlank c = false) : (before ++ rest).dropWhile isBlank = rest := by
  rw [List.dropWhile_append_of_pos hbefore]
  cases rest with
  | nil => rfl
  | cons c rest => exact List.dropWhile_cons_of_neg (by simp [hrest c rfl])

/-- What is left has been between white space. -/
theorem exists_eq_trim (cs : List Char) :
    ∃ before after, (∀ c ∈ before, isBlank c = true) ∧ (∀ c ∈ after, isBlank c = true) ∧
      cs = before ++ trim cs ++ after := by
  have hmem {xs : List Char} {c : Char} (hc : c ∈ xs.takeWhile isBlank) : isBlank c = true :=
    List.mem_takeWhile_imp hc
  refine ⟨cs.takeWhile isBlank, ((cs.dropWhile isBlank).reverse.takeWhile isBlank).reverse,
    fun c => hmem, fun c hc => hmem (List.mem_reverse.mp hc), ?_⟩
  rw [trim, List.append_assoc, ← List.reverse_append, List.takeWhile_append_dropWhile,
    List.reverse_reverse, List.takeWhile_append_dropWhile]

/-- White space is taken off a text without any in it. -/
theorem trim_append {before cs after : List Char} (hbefore : ∀ c ∈ before, isBlank c = true)
    (hafter : ∀ c ∈ after, isBlank c = true) (hne : cs ≠ [])
    (hcs : ∀ c ∈ cs, isBlank c = false) : trim (before ++ cs ++ after) = cs := by
  have hfront : ∀ c ∈ (cs ++ after).head?, isBlank c = false := fun c hc => by
    rw [List.head?_append_of_ne_nil _ hne] at hc
    exact hcs c (List.mem_of_head? hc)
  have hback : ∀ c ∈ cs.reverse.head?, isBlank c = false := fun c hc =>
    hcs c (List.mem_reverse.mp (List.mem_of_head? hc))
  have hreversed : ∀ c ∈ after.reverse, isBlank c = true := fun c hc =>
    hafter c (List.mem_reverse.mp hc)
  rw [trim, List.append_assoc, dropWhile_blank hbefore hfront, List.reverse_append,
    dropWhile_blank hreversed hback, List.reverse_reverse]

/-- An integer is read from a text exactly if the text is a numeral of it and white space
around that. -/
theorem intValue?_trim_eq_some_iff (cs : List Char) (n : Int) :
    Numeral.intValue? (trim cs) = some n ↔
      ∃ before numeral after, (∀ c ∈ before, isBlank c = true) ∧
        (∀ c ∈ after, isBlank c = true) ∧ cs = before ++ numeral ++ after ∧
        Numeral.Denotes numeral n := by
  constructor
  · intro h
    obtain ⟨before, after, hbefore, hafter, hcs⟩ := exists_eq_trim cs
    exact ⟨before, trim cs, after, hbefore, hafter, hcs,
      (Numeral.intValue?_eq_some_iff _ n).mp h⟩
  · rintro ⟨before, numeral, after, hbefore, hafter, rfl, h⟩
    rw [trim_append hbefore hafter (ne_nil_of_numeral h) fun c => isBlank_of_mem_numeral h]
    exact (Numeral.intValue?_eq_some_iff numeral n).mpr h

end Blank
end BoundSql
