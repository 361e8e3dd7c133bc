import BoundSql.Proofs.Number.Integral

/-
Decimal numerals without zeros in front.

There is one for each number: what is left of it without its last digit is the numeral of
the tenth of the number, and digits are told by their values.  The main statement is
`isDecimal_iff`.
-/

namespace BoundSql
namespace Numeral

/-- The digits count as the number, and there is no zero in front of others. -/
structure IsDecimal (digits : List Char) (n : Nat) : Prop where
  ne_nil : digits ≠ []
  isDigit : ∀ c ∈ digits, c.isDigit = true
  positional_eq : positional digits = n
  eq_zero_of_head : digits.head? = some '0' → digits = ['0']

theorem digit_value {c : Char} (h : c.isDigit = true) :
    c.toNat - '0'.toNat < 10 ∧ ofNat (c.toNat - '0'.toNat) = [c] := by
  obtain ⟨hlow, hhigh⟩ : 48 ≤ c.toNat ∧ c.toNat ≤ 57 := Char.isDigit_iff_toNat.mp h
  have hlt : c.toNat - 48 < 10 := by omega
  refine ⟨hlt, ?_⟩
  show ofNat (c.toNat - 48) = [c]
  rw [ofNat, Nat.toDigits_of_lt_base hlt, List.cons.injEq, and_iff_left rfl, ← Char.toNat_inj,
    Nat.toNat_digitChar_of_lt_ten hlt]
  omega

theorem ofNat_append {m k : Nat} (hm : 0 < m) (hk : k < 10) :
    ofNat m ++ ofNat k = ofNat (10 * m + k) :=
  Nat.toDigits_append_toDigits (by decide) hm hk

theorem ofNat_eq_zero_of_head (n : Nat) (h : (ofNat n).head? = some '0') : ofNat n = ['0'] := by
  induction n using Nat.base_induction 10 (by decide) with
  | single m hm =>
    rw [ofNat, Nat.toDigits_of_lt_base hm] at h ⊢
    exact congrArg (fun c => [c]) (Option.some.inj h)
  | digit m k hk hm ih =>
    -- The first digit is one of a smaller number, which is not zero.
    rw [← ofNat_append hm hk, List.head?_append_of_ne_nil _ (ofNat_ne_nil m)] at h
    have hzero : m = 0 := ofNat_inj (ih h)
    omega

theorem isDecimal_ofNat (n : Nat) : IsDecimal (ofNat n) n where
  ne_nil := ofNat_ne_nil n
  isDigit _ := isDigit_of_mem_ofNat
  positional_eq := by
    rw [positional_eq_ofDigitChars]
    exact Nat.ofDigitChars_ten_toDigits
  eq_zero_of_head := ofNat_eq_zero_of_head n

theorem positional_concat (digits : List Char) (c : Char) :
    positional (digits ++ [c]) = 10 * positional digits + (c.toNat - '0'.toNat) := by
  simp only [positional_eq_ofDigitChars]
  rw [Nat.ofDigitChars_append, Nat.ofDigitChars_cons, Nat.ofDigitChars_nil]

/-- What is left without the last digit is written without zeros in front as well, and is
not zero. -/
theorem IsDecimal.init {digits : List Char} {c : Char} {n : Nat} (h : IsDecimal (digits ++ [c]) n)
    (hne : digits ≠ []) : IsDecimal digits (positional digits) ∧ digits ≠ ['0'] := by
  have hhead : digits.head? ≠ some '0' := fun hzero => by
    have hall := h.eq_zero_of_head ((List.head?_append_of_ne_nil _ hne).trans hzero)
    have hlength := congrArg List.length hall
    rw [List.length_append] at hlength
    exact hne (List.length_eq_zero_iff.mp (Nat.succ.inj hlength))
  refine ⟨⟨hne, fun d hd => h.isDigit d (List.mem_append_left _ hd), rfl,
    fun hzero => absurd hzero hhead⟩, ?_⟩
  rintro rfl
  exact hhead rfl

/-- There is no other way to write a number without zeros in front. -/
theorem IsDecimal.eq_ofNat {digits : List Char} {n : Nat} (h : IsDecimal digits n) :
    digits = ofNat n := by
  induction digits using List.reverseRecOn generalizing n with
  | nil => exact absurd rfl h.ne_nil
  | append_singleton digits c ih =>
    obtain ⟨hlt, hlast⟩ := digit_value (h.isDigit c (List.mem_append_right _ List.mem_cons_self))
    rw [← h.positional_eq, positional_concat]
    by_cases hne : digits = []
    · rw [hne, show positional [] = 0 from rfl, Nat.mul_zero, Nat.zero_add, hlast]
      rfl
    · obtain ⟨hinit, hzero⟩ := h.init hne
      have hdigits : digits = ofNat (positional digits) := ih hinit
      have hpos : 0 < positional digits := Nat.pos_of_ne_zero fun heq => hzero (by
        rw [hdigits, heq]
        rfl)
      rw [← ofNat_append hpos hlt, ← hdigits, hlast]

theorem isDecimal_iff (digits : List Char) (n : Nat) : IsDecimal digits n ↔ digits = ofNat n :=
  ⟨IsDecimal.eq_ofNat, fun h => h ▸ isDecimal_ofNat n⟩

end Numeral
end BoundSql
