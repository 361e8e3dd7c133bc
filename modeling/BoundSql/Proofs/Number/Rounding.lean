import BoundSql.Number.Shortest
import Mathlib.Algebra.Order.Field.Power
import Mathlib.Algebra.Order.Field.Rat
import Mathlib.Tactic.Linarith
import Mathlib.Tactic.Positivity
import Mathlib.Tactic.Ring

/-
No number rounds to two doubles.

The magnitudes of the finite doubles are numbered by their exponent and fraction
fields, and counted in steps of the least one, `2 ^ (-1074)`.  Twice the middle
between a magnitude and the next one is a whole number of these steps, so the
intervals that round to two magnitudes can be compared.  The main statements are
`Rounds.unique`, that two intervals share no number, `rounds_of_admits`, that what
is admitted for a double lies in its interval, and `admits_search`, that what is
found for it is admitted.  The numbering is also that of the bits, so doubles are
told from these (`Double.toBits_injective`).
-/

namespace BoundSql
namespace Shortest

/-- The distance from the magnitude of this index to the next one. -/
def spacing (i : Nat) : Nat :=
  2 ^ (max (i / 2 ^ 52) 1 - 1)

def magnitude (i : Nat) : Nat :=
  (if i / 2 ^ 52 = 0 then i % 2 ^ 52 else 2 ^ 52 + i % 2 ^ 52) * spacing i

/-- Twice the middle between the magnitude and the next one. -/
def middle (i : Nat) : Nat :=
  2 * magnitude i + spacing i

theorem spacing_pos (i : Nat) : 0 < spacing i :=
  Nat.two_pow_pos _

theorem magnitude_succ (i : Nat) : magnitude (i + 1) = magnitude i + spacing i := by
  unfold magnitude
  by_cases hcarry : i % 2 ^ 52 + 1 < 2 ^ 52
  · have hdiv : (i + 1) / 2 ^ 52 = i / 2 ^ 52 := by omega
    have hmod : (i + 1) % 2 ^ 52 = i % 2 ^ 52 + 1 := by omega
    have hspacing : spacing (i + 1) = spacing i := by rw [spacing, spacing, hdiv]
    rw [hdiv, hmod, hspacing]
    split <;> ring
  · have hdiv : (i + 1) / 2 ^ 52 = i / 2 ^ 52 + 1 := by omega
    have hmod : (i + 1) % 2 ^ 52 = 0 := by omega
    have hlast : i % 2 ^ 52 = 2 ^ 52 - 1 := by omega
    rw [hdiv, hmod, hlast, spacing, spacing, hdiv]
    cases i / 2 ^ 52 with
    | zero => rfl
    | succ e =>
      have hnext : max (e + 1 + 1) 1 - 1 = e + 1 := by omega
      have hhere : max (e + 1) 1 - 1 = e := by omega
      rw [if_neg (by omega), if_neg (by omega), hnext, hhere]
      ring

theorem middle_lt_succ (i : Nat) : middle i < middle (i + 1) := by
  have := spacing_pos i
  have := spacing_pos (i + 1)
  have := magnitude_succ i
  unfold middle
  omega

theorem middle_strictMono : StrictMono middle :=
  strictMono_nat_of_lt_succ middle_lt_succ

/-- A number counted in steps of the least magnitude. -/
def inSteps (q : ℚ) : ℚ :=
  q * 2 ^ (1074 : Nat)

theorem inSteps_mul (p q : ℚ) : inSteps (p * q) = p * inSteps q :=
  mul_assoc _ _ _

/-- The number of steps `r` rounds to the magnitude of this index.  The ends of
the interval belong to it if the index is even. -/
def Rounds (i : Nat) (r : ℚ) : Prop :=
  if i % 2 = 0 then middle (i - 1) ≤ 2 * r ∧ 2 * r ≤ middle i
  else middle (i - 1) < 2 * r ∧ 2 * r < middle i

theorem Rounds.le {i : Nat} {r : ℚ} (h : Rounds i r) :
    middle (i - 1) ≤ 2 * r ∧ 2 * r ≤ middle i := by
  unfold Rounds at h
  split at h
  · exact h
  · exact ⟨h.1.le, h.2.le⟩

theorem Rounds.index_le {i j : Nat} {r : ℚ} (hi : Rounds i r) (hj : Rounds j r) : j ≤ i := by
  by_contra hlt
  rw [Nat.not_le] at hlt
  by_cases hnext : i = j - 1
  · -- The intervals have an end in common, which only one of them can hold.
    subst hnext
    have hle := hj.le.1
    have hge := hi.le.2
    unfold Rounds at hi hj
    split at hi
    · rw [if_neg (by omega)] at hj
      linarith [hj.1]
    · linarith [hi.2]
  · have hmiddle : (middle i : ℚ) < middle (j - 1) := by
      exact_mod_cast middle_strictMono (by omega : i < j - 1)
    linarith [hi.le.2, hj.le.1]

/-- No number rounds to two magnitudes. -/
theorem Rounds.unique {i j : Nat} {r : ℚ} (hi : Rounds i r) (hj : Rounds j r) : i = j :=
  Nat.le_antisymm (hj.index_le hi) (hi.index_le hj)

end Shortest

/-! ## Doubles by their magnitude -/

namespace Double.Finite

open Shortest

/-- The number of magnitudes below that of `x`. -/
def index (x : Finite) : Nat :=
  x.exponent.val * 2 ^ 52 + x.fraction.toNat

variable (x : Finite)

theorem index_div : x.index / 2 ^ 52 = x.exponent.val := by
  have := x.fraction.isLt
  unfold index
  omega

theorem index_mod : x.index % 2 ^ 52 = x.fraction.toNat := by
  have := x.fraction.isLt
  unfold index
  omega

theorem eq_of_index {x y : Finite} (hs : x.negative = y.negative) (hi : x.index = y.index) :
    x = y := by
  have he : x.exponent = y.exponent := Fin.ext (by rw [← index_div, ← index_div, hi])
  have hf : x.fraction = y.fraction := BitVec.eq_of_toNat_eq (by rw [← index_mod, ← index_mod, hi])
  cases x
  cases y
  cases hs
  cases he
  cases hf
  rfl

theorem index_lt : x.index < 2047 * 2 ^ 52 := by
  have := x.exponent.isLt
  have := x.fraction.isLt
  unfold index
  omega

theorem toNat_toBits : x.toBits.toNat = (if x.negative then 2 ^ 63 else 0) + x.index := by
  have hlt := x.index_lt
  have hlt64 : (if x.negative then 2 ^ 63 else 0) + x.index < 2 ^ 64 := by
    split <;> omega
  rw [toBits, Nat.add_assoc]
  exact UInt64.toNat_ofNat_of_lt' hlt64

theorem significand_eq :
    x.significand =
      if x.index / 2 ^ 52 = 0 then x.index % 2 ^ 52 else 2 ^ 52 + x.index % 2 ^ 52 := by
  rw [significand, index_div, index_mod]
  simp only [Fin.ext_iff, Fin.val_zero, Nat.pow_eq]

theorem magnitude_index : magnitude x.index = x.significand * spacing x.index := by
  rw [magnitude, significand_eq]

theorem index_mod_two : x.index % 2 = x.significand % 2 := by
  rw [significand_eq]
  split <;> omega

theorem index_pos (hx : x.significand ≠ 0) : 0 < x.index := by
  rw [significand_eq] at hx
  split at hx <;> omega

/-- The double is the first after a power of two, above which the distances are
twice those below. -/
theorem spacing_of_atBinade (h : x.atBinade = true) :
    spacing x.index = 2 * spacing (x.index - 1) := by
  simp only [atBinade, Bool.and_eq_true, decide_eq_true_eq] at h
  have hfraction : x.fraction.toNat = 0 := by rw [h.1]; rfl
  have hbelow : (x.index - 1) / 2 ^ 52 = x.exponent.val - 1 := by
    unfold index
    omega
  rw [spacing, spacing, index_div, hbelow, ← Nat.pow_succ']
  congr 1
  omega

theorem spacing_of_not_atBinade (h : x.atBinade = false) (hx : x.significand ≠ 0) :
    spacing (x.index - 1) = spacing x.index := by
  have hpos := x.index_pos hx
  have hcase : x.fraction.toNat ≠ 0 ∨ x.exponent.val ≤ 1 := by
    by_contra hboth
    push Not at hboth
    have hfraction : x.fraction = 0 := BitVec.eq_of_toNat_eq hboth.1
    simp [atBinade, hfraction, hboth.2] at h
  have hmax : max ((x.index - 1) / 2 ^ 52) 1 = max (x.index / 2 ^ 52) 1 := by
    rw [index_div]
    have := x.fraction.isLt
    unfold index at hpos ⊢
    omega
  rw [spacing, spacing, hmax]

end Double.Finite

/-- Doubles are equal exactly if their bits are, with one pattern for all NaNs. -/
theorem Double.toBits_injective : Function.Injective Double.toBits := by
  have hnumber (x y : Double) (h : x.toBits = y.toBits) : x.toBits.toNat = y.toBits.toNat :=
    congrArg UInt64.toNat h
  have hinfinite (s : Bool) : (Double.infinite s).toBits.toNat =
      (if s then 2 ^ 63 else 0) + 2047 * 2 ^ 52 := by
    cases s <;> rfl
  have hnan : Double.nan.toBits.toNat = 2047 * 2 ^ 52 + 2 ^ 51 := rfl
  intro x y h
  have hn := hnumber x y h
  cases x with
  | nan =>
    cases y with
    | nan => rfl
    | infinite t =>
      rw [hnan, hinfinite] at hn
      split at hn <;> omega
    | finite y =>
      have hy := y.index_lt
      rw [hnan, toBits, y.toNat_toBits] at hn
      split at hn <;> omega
  | infinite s =>
    cases y with
    | nan =>
      rw [hnan, hinfinite] at hn
      split at hn <;> omega
    | infinite t =>
      rw [hinfinite, hinfinite] at hn
      cases s <;> cases t <;> simp at hn ⊢
    | finite y =>
      have hy := y.index_lt
      rw [hinfinite, toBits, y.toNat_toBits] at hn
      split at hn <;> split at hn <;> omega
  | finite x =>
    have hx := x.index_lt
    cases y with
    | nan =>
      rw [hnan, toBits, x.toNat_toBits] at hn
      split at hn <;> omega
    | infinite t =>
      rw [hinfinite, toBits, x.toNat_toBits] at hn
      split at hn <;> split at hn <;> omega
    | finite y =>
      have hy := y.index_lt
      rw [toBits, toBits, x.toNat_toBits, y.toNat_toBits] at hn
      have hparts : x.negative = y.negative ∧ x.index = y.index := by
        by_cases hxs : x.negative = true
        · by_cases hys : y.negative = true
          · rw [if_pos hxs, if_pos hys] at hn
            exact ⟨hxs.trans hys.symm, Nat.add_left_cancel hn⟩
          · rw [if_pos hxs, if_neg hys] at hn
            omega
        · by_cases hys : y.negative = true
          · rw [if_neg hxs, if_pos hys] at hn
            omega
          · rw [if_neg hxs, if_neg hys] at hn
            exact ⟨(eq_false_of_ne_true hxs).trans (eq_false_of_ne_true hys).symm,
              Nat.add_left_cancel hn⟩
      rw [Finite.eq_of_index hparts.1 hparts.2]

/-! ## What is found for a double -/

namespace Shortest
namespace Expansion

open Double.Finite

variable (x : Double.Finite)

theorem inSteps_pos (place : Int) : 0 < inSteps (10 ^ place) := by
  unfold inSteps
  positivity

theorem unit_mul_inSteps :
    ((ofFinite x).unit : ℚ) * inSteps (10 ^ (ofFinite x).place) = spacing x.index := by
  have hpower : ((ofFinite x).unit : ℚ) * 10 ^ (ofFinite x).place = 2 ^ x.power := by
    unfold ofFinite
    split
    · rename_i h
      obtain ⟨k, hk⟩ := Int.eq_ofNat_of_zero_le h
      simp [hk]
    · rename_i h
      obtain ⟨k, hk⟩ := Int.eq_ofNat_of_zero_le (by omega : 0 ≤ -x.power)
      have hneg : x.power = -(k : Int) := by omega
      have hten : (10 : ℚ) ^ k = 5 ^ k * 2 ^ k := by rw [← mul_pow]; norm_num
      simp only [hneg, neg_neg, Int.toNat_natCast, zpow_neg, zpow_natCast, Nat.pow_eq,
        Nat.cast_pow, Nat.cast_ofNat, hten, mul_inv]
      exact mul_inv_cancel_left₀ (by positivity) _
  have hexponent : x.power + (1074 : Nat) = ((max (x.index / 2 ^ 52) 1 - 1 : Nat) : Int) := by
    rw [index_div, power]
    omega
  rw [inSteps, ← mul_assoc, hpower, ← zpow_natCast, ← zpow_add₀ (by norm_num), hexponent,
    zpow_natCast, spacing]
  norm_cast

/-- Four times the lower end of the interval. -/
theorem low_mul_inSteps (hx : x.significand ≠ 0) :
    (((4 * x.significand - if x.atBinade then 1 else 2) * (ofFinite x).unit : Nat) : ℚ) *
      inSteps (10 ^ (ofFinite x).place) = 2 * middle (x.index - 1) := by
  have hsucc := magnitude_succ (x.index - 1)
  rw [Nat.sub_add_cancel (x.index_pos hx), magnitude_index] at hsucc
  have hmiddle : (middle (x.index - 1) : ℚ) =
      2 * x.significand * spacing x.index - spacing (x.index - 1) := by
    have : middle (x.index - 1) + spacing (x.index - 1) =
        2 * x.significand * spacing x.index := by
      unfold middle
      rw [mul_assoc, hsucc]
      ring
    exact eq_sub_of_add_eq (mod_cast this)
  rw [Nat.cast_mul, mul_assoc, unit_mul_inSteps, hmiddle]
  cases hb : x.atBinade with
  | true =>
    have hcast : ((4 * x.significand - 1 : Nat) : ℚ) = 4 * x.significand - 1 := by
      rw [Nat.cast_sub (by omega)]
      norm_num
    have hdouble : (spacing x.index : ℚ) = 2 * spacing (x.index - 1) := by
      exact_mod_cast x.spacing_of_atBinade hb
    simp only [if_true, hcast, hdouble]
    ring
  | false =>
    have hcast : ((4 * x.significand - 2 : Nat) : ℚ) = 4 * x.significand - 2 := by
      rw [Nat.cast_sub (by omega)]
      norm_num
    have hsame : (spacing (x.index - 1) : ℚ) = spacing x.index := by
      exact_mod_cast x.spacing_of_not_atBinade hb hx
    simp only [Bool.false_eq_true, if_false, hcast, hsame]
    ring

/-- Four times the upper end of the interval. -/
theorem high_mul_inSteps :
    (((4 * x.significand + 2) * (ofFinite x).unit : Nat) : ℚ) * inSteps (10 ^ (ofFinite x).place) =
      2 * middle x.index := by
  rw [Nat.cast_mul, mul_assoc, unit_mul_inSteps, middle, magnitude_index]
  push_cast
  ring

theorem significand_ofFinite : (ofFinite x).significand = x.significand := by
  unfold ofFinite
  split <;> rfl

theorem narrow_ofFinite : (ofFinite x).narrow = x.atBinade := by
  unfold ofFinite
  split <;> rfl

/-- The decimals that are admitted are those that round to the double. -/
theorem rounds_of_admits (hx : x.significand ≠ 0) {n : Nat}
    (h : (ofFinite x).admits n = true) :
    Rounds x.index (n * inSteps (10 ^ (ofFinite x).place)) := by
  have hlow := low_mul_inSteps x hx
  have hhigh := high_mul_inSteps x
  have hstep := inSteps_pos (ofFinite x).place
  have hle {a b : Nat} (hab : a ≤ b) :
      (a : ℚ) * inSteps (10 ^ (ofFinite x).place) ≤ b * inSteps (10 ^ (ofFinite x).place) :=
    mul_le_mul_of_nonneg_right (mod_cast hab) hstep.le
  have hlt {a b : Nat} (hab : a < b) :
      (a : ℚ) * inSteps (10 ^ (ofFinite x).place) < b * inSteps (10 ^ (ofFinite x).place) :=
    mul_lt_mul_of_pos_right (mod_cast hab) hstep
  unfold admits at h
  rw [significand_ofFinite, narrow_ofFinite] at h
  unfold Rounds
  rw [index_mod_two]
  split
  · rename_i heven
    simp only [heven, if_true, Bool.and_eq_true, decide_eq_true_eq] at h
    have h1 := hle h.1
    have h2 := hle h.2
    rw [hlow] at h1
    rw [hhigh] at h2
    push_cast at h1 h2
    constructor <;> linarith
  · rename_i hodd
    simp only [hodd, if_false, Bool.and_eq_true, decide_eq_true_eq] at h
    have h1 := hlt h.1
    have h2 := hlt h.2
    rw [hlow] at h1
    rw [hhigh] at h2
    push_cast at h1 h2
    constructor <;> linarith

theorem unit_pos : 0 < (ofFinite x).unit := by
  unfold ofFinite
  split
  · exact Nat.two_pow_pos _
  · exact Nat.pow_pos (by decide)

/-- The expansion itself is admitted. -/
theorem admits_digits : (ofFinite x).admits (ofFinite x).digits = true := by
  have hunit := unit_pos x
  have hlow (k : Nat) : (4 * (ofFinite x).significand - k) * (ofFinite x).unit ≤
      4 * (ofFinite x).digits := by
    rw [digits, ← Nat.mul_assoc]
    exact Nat.mul_le_mul_right _ (Nat.sub_le _ _)
  have hhigh : 4 * (ofFinite x).digits <
      (4 * (ofFinite x).significand + 2) * (ofFinite x).unit := by
    rw [digits, ← Nat.mul_assoc]
    exact Nat.mul_lt_mul_of_pos_right (by omega) hunit
  by_cases heven : (ofFinite x).significand % 2 = 0
  · simp only [admits, heven, if_true, Bool.and_eq_true, decide_eq_true_eq]
    exact ⟨hlow _, hhigh.le⟩
  · have hstrict {k : Nat} (hk : 0 < k) : (4 * (ofFinite x).significand - k) * (ofFinite x).unit <
        4 * (ofFinite x).digits := by
      rw [digits, ← Nat.mul_assoc]
      exact Nat.mul_lt_mul_of_pos_right (by omega) hunit
    simp only [admits, heven, if_false, Bool.and_eq_true, decide_eq_true_eq]
    refine ⟨hstrict ?_, hhigh⟩
    split <;> decide

theorem admits_of_onGrid? {tie : Tie} {x : Expansion} {step n : Nat}
    (h : x.onGrid? tie step = some n) : x.admits (n * step) = true := by
  unfold onGrid? at h
  extract_lets below rest upFirst nearer farther at h
  split at h
  · rename_i hnearer
    rw [← Option.some.inj h]
    exact hnearer
  · split at h
    · rename_i hfarther
      rw [← Option.some.inj h]
      exact hfarther
    · cases h

/-- The search ends with a decimal that is admitted. -/
theorem admits_search (tie : Tie) (j : Nat) :
    (ofFinite x).admits
      (((ofFinite x).search tie j).1 * 10 ^ ((ofFinite x).search tie j).2) = true := by
  induction j with
  | zero => simpa [search] using admits_digits x
  | succ j ih =>
    rw [search]
    split
    · rename_i n h
      exact admits_of_onGrid? h
    · exact ih

end Expansion
end Shortest
end BoundSql
