import BoundSql.Number.Basic
import BoundSql.Proofs.Cut
import BoundSql.Uuid
import Mathlib.Algebra.Group.Nat.Defs

/-
Numbers told from their digits.

Texts of numbers are put together from numerals of a fixed width and marks that
are no digits, so each is taken apart at its marks or by its lengths.  Every
character of them is a letter, a digit, a sign, a point or a colon.
-/

namespace BoundSql

/-- A letter, a digit, a sign, a point or a colon. -/
def isTokenChar (c : Char) : Bool :=
  c.isAlphanum || ['+', '-', '.', ':'].contains c

theorem isTokenChar_of_isDigit {c : Char} (h : c.isDigit = true) : isTokenChar c = true := by
  simp [isTokenChar, Char.isAlphanum, h]

namespace Numeral

/-! ## Decimal numerals -/

/-- The number that decimal digits stand for. -/
def number (digits : List Char) : Nat :=
  Nat.ofDigitChars 10 digits 0

theorem number_append_zeros (digits : List Char) (n : Nat) :
    number (digits ++ List.replicate n '0') = 10 ^ n * number digits := by
  rw [number, Nat.ofDigitChars_append, Nat.ofDigitChars_replicate_zero, number]

theorem number_zeros_append (n : Nat) (digits : List Char) :
    number (List.replicate n '0' ++ digits) = number digits := by
  rw [number, Nat.ofDigitChars_append, Nat.ofDigitChars_replicate_zero, Nat.mul_zero, number]

theorem number_ofNat (n : Nat) : number (ofNat n) = n :=
  Nat.ofDigitChars_ten_toDigits

theorem number_padded (width n : Nat) : number (padded width n) = n := by
  rw [padded, List.leftpad, number_zeros_append, number_ofNat]

theorem isDigit_of_mem_padded {width n : Nat} {c : Char} (h : c ∈ padded width n) :
    c.isDigit = true := by
  rw [padded, List.leftpad, List.mem_append] at h
  rcases h with hz | hd
  · rw [List.eq_of_mem_replicate hz]
    rfl
  · exact isDigit_of_mem_ofNat hd

theorem length_padded {width n : Nat} (hw : 0 < width) (h : n < 10 ^ width) :
    (padded width n).length = width := by
  have hle : (ofNat n).length ≤ width :=
    (Nat.length_toDigits_le_iff (by decide) hw).mpr h
  rw [padded, List.length_leftpad]
  omega

theorem le_length_padded (width n : Nat) : width ≤ (padded width n).length := by
  rw [padded, List.length_leftpad]
  omega

theorem padded_inj {width m n : Nat} (h : padded width m = padded width n) : m = n := by
  rw [← number_padded width m, h, number_padded]

theorem not_mem_padded {mark : Char} (hm : mark.isDigit = false) (width n : Nat) :
    mark ∉ padded width n := fun h => by
  rw [isDigit_of_mem_padded h] at hm
  cases hm

theorem ofInt_inj {m n : Int} (h : ofInt m = ofInt n) : m = n := by
  have hv := congrArg intValue? h
  rw [intValue?_ofInt, intValue?_ofInt] at hv
  exact Option.some.inj hv

/-- A numeral is digits, after a sign or without one. -/
theorem mem_ofInt {n : Int} {c : Char} (h : c ∈ ofInt n) : c = '-' ∨ c.isDigit = true := by
  unfold ofInt at h
  split at h
  · rcases List.mem_cons.mp h with rfl | h
    · exact .inl rfl
    · exact .inr (isDigit_of_mem_ofNat h)
  · exact .inr (isDigit_of_mem_ofNat h)

theorem ofInt_ne_nil (n : Int) : ofInt n ≠ [] := by
  unfold ofInt
  split
  · exact List.cons_ne_nil _ _
  · exact ofNat_ne_nil _

/-! ## Hexadecimal numerals -/

theorem isAlphanum_of_mem_hex {width n : Nat} {c : Char} (h : c ∈ hex width n) :
    c.isAlphanum = true := by
  have hdigit : ∀ d : Fin 16, (Nat.digitChar d).isAlphanum = true := by decide
  induction width generalizing n with
  | zero => cases h
  | succ width ih =>
    rw [hex, List.mem_append] at h
    rcases h with h | h
    · exact ih h
    · rw [List.mem_singleton] at h
      rw [h]
      exact hdigit ⟨n % 16, Nat.mod_lt _ (by decide)⟩

theorem digitChar_inj {m n : Nat} (hm : m < 16) (hn : n < 16)
    (h : Nat.digitChar m = Nat.digitChar n) : m = n := by
  have hall : ∀ a b : Fin 16, Nat.digitChar a = Nat.digitChar b → a = b := by decide
  exact congrArg Fin.val (hall ⟨m, hm⟩ ⟨n, hn⟩ h)

theorem hex_inj {width m n : Nat} (hm : m < 16 ^ width) (hn : n < 16 ^ width)
    (h : hex width m = hex width n) : m = n := by
  induction width generalizing m n with
  | zero => omega
  | succ width ih =>
    obtain ⟨hinit, hlast⟩ := List.append_inj' h rfl
    have hdiv : m / 16 = n / 16 :=
      ih (Nat.div_lt_of_lt_mul (by rwa [Nat.pow_succ'] at hm))
        (Nat.div_lt_of_lt_mul (by rwa [Nat.pow_succ'] at hn)) hinit
    have hmod : m % 16 = n % 16 :=
      digitChar_inj (Nat.mod_lt _ (by decide)) (Nat.mod_lt _ (by decide)) (List.cons.inj hlast).1
    omega

end Numeral

/-! ## Uuids -/

namespace Uuid

theorem text_injective : Function.Injective text := by
  intro u v h
  have hu : u.hexText.length = 32 := Numeral.length_hex 32 _
  have hv : v.hexText.length = 32 := Numeral.length_hex 32 _
  simp only [text, List.append_assoc, List.cons_append] at h
  obtain ⟨h1, h⟩ := List.append_inj h (by simp [hu, hv])
  obtain ⟨h2, h⟩ := List.append_inj (List.cons.inj h).2 (by simp [hu, hv])
  obtain ⟨h3, h⟩ := List.append_inj (List.cons.inj h).2 (by simp [hu, hv])
  obtain ⟨h4, h⟩ := List.append_inj (List.cons.inj h).2 (by simp [hu, hv])
  have h5 := (List.cons.inj h).2
  have hsplit (ds : List Char) :
      ds = ds.take 8 ++ ((ds.drop 8).take 4 ++ ((ds.drop 12).take 4 ++
        ((ds.drop 16).take 4 ++ ds.drop 20))) := by
    rw [show ds.drop 20 = (ds.drop 16).drop 4 by rw [List.drop_drop], List.take_append_drop,
      show ds.drop 16 = (ds.drop 12).drop 4 by rw [List.drop_drop], List.take_append_drop,
      show ds.drop 12 = (ds.drop 8).drop 4 by rw [List.drop_drop], List.take_append_drop,
      List.take_append_drop]
  have hhex : u.hexText = v.hexText := by
    rw [hsplit u.hexText, hsplit v.hexText, h1, h2, h3, h4, h5]
  have hvalue := Numeral.hex_inj u.value.isLt v.value.isLt hhex
  cases u
  cases v
  exact congrArg Uuid.mk (BitVec.eq_of_toNat_eq hvalue)

theorem isTokenChar_of_mem_text {u : Uuid} {c : Char} (h : c ∈ u.text) : isTokenChar c = true := by
  have hhex : c ∈ u.hexText ∨ c = '-' := by
    simp only [text, List.append_assoc, List.cons_append, List.mem_append, List.mem_cons] at h
    rcases h with h | h | h | h | h | h | h | h | h
    · exact .inl (List.mem_of_mem_take h)
    · exact .inr h
    · exact .inl (List.mem_of_mem_drop (List.mem_of_mem_take h))
    · exact .inr h
    · exact .inl (List.mem_of_mem_drop (List.mem_of_mem_take h))
    · exact .inr h
    · exact .inl (List.mem_of_mem_drop (List.mem_of_mem_take h))
    · exact .inr h
    · exact .inl (List.mem_of_mem_drop h)
  rcases hhex with h | rfl
  · simp [isTokenChar, Numeral.isAlphanum_of_mem_hex h]
  · rfl

end Uuid

/-! ## Decimals -/

namespace Decimal

/-- The digits before and after the point. -/
def digits (d : Decimal) : List Char :=
  Numeral.padded (d.scale + 1) d.mantissa.natAbs

def whole (d : Decimal) : List Char :=
  d.digits.take (d.digits.length - d.scale)

def fraction (d : Decimal) : List Char :=
  d.digits.drop (d.digits.length - d.scale)

/-- The text without its sign. -/
def magnitudeText (d : Decimal) : List Char :=
  d.whole ++ if d.scale = 0 then [] else '.' :: d.fraction

theorem text_eq (d : Decimal) :
    d.text = (if d.mantissa < 0 then ['-'] else []) ++ d.magnitudeText :=
  List.append_assoc ..

theorem isDigit_of_mem_digits {d : Decimal} {c : Char} (h : c ∈ d.digits) : c.isDigit = true :=
  Numeral.isDigit_of_mem_padded h

theorem length_fraction (d : Decimal) : d.fraction.length = d.scale := by
  have := Numeral.le_length_padded (d.scale + 1) d.mantissa.natAbs
  rw [fraction, List.length_drop, digits]
  omega

theorem not_mem_whole {mark : Char} (hm : mark.isDigit = false) (d : Decimal) : mark ∉ d.whole :=
  fun h => by
    rw [isDigit_of_mem_digits (List.mem_of_mem_take h)] at hm
    cases hm

/-- A decimal has a digit before the point. -/
theorem whole_ne_nil (d : Decimal) : d.whole ≠ [] := by
  have := Numeral.le_length_padded (d.scale + 1) d.mantissa.natAbs
  intro h
  have hlength := congrArg List.length h
  rw [whole, List.length_take, digits, List.length_nil] at hlength
  omega

theorem magnitudeText_inj {d e : Decimal} (h : d.magnitudeText = e.magnitudeText) :
    d.scale = e.scale ∧ d.mantissa.natAbs = e.mantissa.natAbs := by
  have hparts : d.whole = e.whole ∧ d.scale = e.scale ∧ d.fraction = e.fraction := by
    have hnil {f : Decimal} (hf : f.scale = 0) : f.fraction = [] :=
      List.eq_nil_of_length_eq_zero (f.length_fraction.trans hf)
    unfold magnitudeText at h
    by_cases hd : d.scale = 0
    · rw [if_pos hd, List.append_nil] at h
      by_cases he : e.scale = 0
      · rw [if_pos he, List.append_nil] at h
        exact ⟨h, hd.trans he.symm, (hnil hd).trans (hnil he).symm⟩
      · rw [if_neg he] at h
        exact absurd (h ▸ List.mem_append_right _ List.mem_cons_self) (not_mem_whole rfl d)
    · rw [if_neg hd] at h
      by_cases he : e.scale = 0
      · rw [if_pos he, List.append_nil] at h
        exact absurd (h ▸ List.mem_append_right _ List.mem_cons_self) (not_mem_whole rfl e)
      · rw [if_neg he] at h
        obtain ⟨hwhole, hfraction⟩ :=
          cut_unique_of_not_mem (not_mem_whole rfl d) (not_mem_whole rfl e) h
        exact ⟨hwhole, by rw [← length_fraction, ← length_fraction, hfraction], hfraction⟩
  obtain ⟨hwhole, hscale, hfraction⟩ := hparts
  have hdigits : d.digits = e.digits := by
    rw [← List.take_append_drop (d.digits.length - d.scale) d.digits,
      ← List.take_append_drop (e.digits.length - e.scale) e.digits]
    exact congr (congrArg _ hwhole) hfraction
  rw [digits, digits, hscale] at hdigits
  exact ⟨hscale, Numeral.padded_inj hdigits⟩

theorem magnitudeText_ne_minus (d : Decimal) (rest : List Char) :
    d.magnitudeText ≠ '-' :: rest := by
  intro h
  obtain ⟨c, others, hc⟩ := List.exists_cons_of_ne_nil d.whole_ne_nil
  rw [magnitudeText, hc, List.cons_append] at h
  have hmem : '-' ∈ d.whole := by
    rw [hc, (List.cons.inj h).1]
    exact List.mem_cons_self
  exact not_mem_whole rfl d hmem

theorem text_injective : Function.Injective text := by
  intro d e h
  have hparts : (d.mantissa < 0 ↔ e.mantissa < 0) ∧ d.magnitudeText = e.magnitudeText := by
    rw [text_eq, text_eq] at h
    by_cases hd : d.mantissa < 0
    · rw [if_pos hd] at h
      by_cases he : e.mantissa < 0
      · rw [if_pos he] at h
        exact ⟨iff_of_true hd he, List.append_cancel_left h⟩
      · rw [if_neg he] at h
        exact absurd h.symm (e.magnitudeText_ne_minus d.magnitudeText)
    · rw [if_neg hd] at h
      by_cases he : e.mantissa < 0
      · rw [if_pos he] at h
        exact absurd h (d.magnitudeText_ne_minus e.magnitudeText)
      · rw [if_neg he] at h
        exact ⟨iff_of_false hd he, h⟩
  obtain ⟨hscale, hmantissa⟩ := magnitudeText_inj hparts.2
  have hsign := hparts.1
  cases d
  cases e
  dsimp only at hscale hmantissa hsign
  rw [mk.injEq]
  exact ⟨by omega, hscale⟩

theorem isTokenChar_of_mem_text {d : Decimal} {c : Char} (h : c ∈ d.text) :
    isTokenChar c = true := by
  rw [text_eq, magnitudeText, List.mem_append, List.mem_append] at h
  rcases h with h | h | h
  · split at h
    · rw [List.mem_singleton.mp h]
      rfl
    · cases h
  · exact isTokenChar_of_isDigit (isDigit_of_mem_digits (List.mem_of_mem_take h))
  · split at h
    · cases h
    · rcases List.mem_cons.mp h with rfl | h
      · rfl
      · exact isTokenChar_of_isDigit (isDigit_of_mem_digits (List.mem_of_mem_drop h))

end Decimal
end BoundSql
