import BoundSql.Number.Layout
import BoundSql.Proofs.Number.Digits
import BoundSql.Proofs.Number.Rounding
import Mathlib.Data.List.TakeWhile
import Mathlib.Tactic.FinCases

/-
The number that the text of a double stands for.

A text is read as digits with a point among them and an exponent after `e`.  In
every layout the text of a finite double stands for the decimal that was found
for it, which rounds to no other double.  So the main statement is
`Layout.text_injective`: doubles can be told from their texts, zeros by their
signs.
-/

namespace BoundSql

/-! ## Decimals -/

namespace Shortest

open Numeral (number number_append_zeros number_zeros_append number_ofNat)

/-- What is dropped from the digits are the zeros at the end. -/
theorem exists_ofNat_eq_significantDigits (n : Nat) :
    ∃ z, Numeral.ofNat n = significantDigits n ++ List.replicate z '0' := by
  refine ⟨((Numeral.ofNat n).reverse.takeWhile (· == '0')).length, ?_⟩
  have hzeros : (Numeral.ofNat n).reverse.takeWhile (· == '0') =
      List.replicate ((Numeral.ofNat n).reverse.takeWhile (· == '0')).length '0' := by
    rw [List.eq_replicate_iff]
    exact ⟨rfl, fun c hc => by simpa using List.mem_takeWhile_imp hc⟩
  have hsplit := congrArg List.reverse
    (List.takeWhile_append_dropWhile (p := (· == '0')) (l := (Numeral.ofNat n).reverse))
  rw [List.reverse_append, List.reverse_reverse, hzeros, List.reverse_replicate] at hsplit
  exact hsplit.symm

theorem significantDigits_ne_nil {n : Nat} (hn : n ≠ 0) : significantDigits n ≠ [] := by
  intro hnil
  obtain ⟨z, hz⟩ := exists_ofNat_eq_significantDigits n
  rw [hnil] at hz
  have := number_append_zeros [] z
  rw [← hz, number_ofNat] at this
  exact hn this

theorem isDigit_of_mem_significantDigits {n : Nat} {c : Char} (h : c ∈ significantDigits n) :
    c.isDigit = true := by
  obtain ⟨z, hz⟩ := exists_ofNat_eq_significantDigits n
  exact Numeral.isDigit_of_mem_ofNat (hz ▸ List.mem_append_left _ h)

/-- The number that digits and their exponent stand for. -/
def Scientific.value (s : Scientific) : ℚ :=
  number s.digits * 10 ^ (s.exponent + 1 - s.digits.length)

/-- There are only digits, and at least one. -/
def Scientific.Digital (s : Scientific) : Prop :=
  s.digits ≠ [] ∧ ∀ c ∈ s.digits, c.isDigit = true

theorem value_significantDigits {n : Nat} (last : Int) :
    Scientific.value ⟨significantDigits n, (Numeral.ofNat n).length - 1 + last⟩ =
      n * 10 ^ last := by
  obtain ⟨z, hz⟩ := exists_ofNat_eq_significantDigits n
  have hnumber : n = 10 ^ z * number (significantDigits n) := by
    rw [← number_append_zeros, ← hz, number_ofNat]
  have hlength : (Numeral.ofNat n).length = (significantDigits n).length + z := by
    rw [hz, List.length_append, List.length_replicate]
  have hexponent : ((Numeral.ofNat n).length : Int) - 1 + last + 1 -
      (significantDigits n).length = z + last := by
    rw [hlength]
    push_cast
    ring
  rw [Scientific.value, hexponent, zpow_add₀ (by norm_num), zpow_natCast]
  conv_rhs => rw [hnumber]
  push_cast
  ring

variable (tie : Tie) (x : Double.Finite)

/-- The decimal of a double that is not zero rounds to it. -/
theorem rounds_scientific (hx : x.significand ≠ 0) :
    Rounds x.index (inSteps (scientific tie x).value) := by
  have hzero : x.isZero = false := by simpa [Double.Finite.isZero] using hx
  rw [scientific, hzero]
  simp only [Bool.false_eq_true, if_false]
  generalize (Numeral.ofNat (Expansion.ofFinite x).digits).length - 1 = j
  have h := Expansion.rounds_of_admits x hx (Expansion.admits_search x tie j)
  rw [Nat.cast_mul, Nat.cast_pow, Nat.cast_ofNat] at h
  rwa [value_significantDigits, add_comm, zpow_add₀ (by norm_num), zpow_natCast, ← mul_assoc,
    inSteps_mul]

theorem value_scientific_of_isZero (hx : x.significand = 0) : (scientific tie x).value = 0 := by
  have hzero : x.isZero = true := by simpa [Double.Finite.isZero] using hx
  rw [scientific, if_pos hzero]
  simp [Scientific.value, number, Nat.ofDigitChars_cons]

theorem Rounds.pos {i : Nat} {r : ℚ} (h : Rounds i r) : 0 < r := by
  have hmiddle : 0 < middle (i - 1) := by
    have := spacing_pos (i - 1)
    unfold middle
    omega
  have hcast : (0 : ℚ) < middle (i - 1) := by exact_mod_cast hmiddle
  linarith [h.le.1]

theorem digital_scientific : (scientific tie x).Digital := by
  by_cases hx : x.significand = 0
  · have hzero : x.isZero = true := by simpa [Double.Finite.isZero] using hx
    rw [scientific, if_pos hzero]
    simp [Scientific.Digital]
  · have hpos := (rounds_scientific tie x hx).pos
    have hzero : x.isZero = false := by simpa [Double.Finite.isZero] using hx
    rw [scientific, hzero] at hpos ⊢
    simp only [Bool.false_eq_true, if_false] at hpos ⊢
    refine ⟨significantDigits_ne_nil fun hn => ?_, fun c => isDigit_of_mem_significantDigits⟩
    rw [value_significantDigits, hn, Nat.cast_zero, zero_mul] at hpos
    exact absurd hpos (by simp [inSteps])

/-- Magnitudes are told from their decimals. -/
theorem index_eq_of_value {x y : Double.Finite}
    (h : (scientific tie x).value = (scientific tie y).value) : x.index = y.index := by
  have hzero {z : Double.Finite} (hz : z.significand = 0) : z.index = 0 := by
    rw [Double.Finite.significand_eq] at hz
    split at hz <;> omega
  by_cases hx : x.significand = 0
  · by_cases hy : y.significand = 0
    · rw [hzero hx, hzero hy]
    · have hpos := (rounds_scientific tie y hy).pos
      rw [← h, value_scientific_of_isZero tie x hx] at hpos
      exact absurd hpos (by simp [inSteps])
  · by_cases hy : y.significand = 0
    · have hpos := (rounds_scientific tie x hx).pos
      rw [h, value_scientific_of_isZero tie y hy] at hpos
      exact absurd hpos (by simp [inSteps])
    · have hround := rounds_scientific tie x hx
      rw [h] at hround
      exact hround.unique (rounds_scientific tie y hy)

end Shortest

/-! ## Reading a text -/

namespace Layout

open Shortest
open Numeral (number number_append_zeros number_zeros_append)

/-- The number that digits with a point among them stand for. -/
def pointValue (cs : List Char) : ℚ :=
  let fraction := (cs.dropWhile (· != '.')).drop 1
  number (cs.takeWhile (· != '.') ++ fraction) / 10 ^ fraction.length

/-- The number of a text, which may have an exponent after `e`. -/
def textValue (cs : List Char) : ℚ :=
  let exponent := (cs.dropWhile (· != 'e')).drop 1
  pointValue (cs.takeWhile (· != 'e')) * 10 ^ (Numeral.intValue? exponent).getD 0

/-- A mark that is not among the characters before it is found. -/
theorem takeWhile_mark {mark : Char} {before : List Char} (h : mark ∉ before) (after : List Char) :
    (before ++ mark :: after).takeWhile (· != mark) = before ∧
      (before ++ mark :: after).dropWhile (· != mark) = mark :: after := by
  have hall : ∀ c ∈ before, (c != mark) = true := by
    intro c hc
    rw [bne_iff_ne]
    intro heq
    subst heq
    exact h hc
  rw [List.takeWhile_append_of_pos hall, List.dropWhile_append_of_pos hall]
  simp

theorem takeWhile_no_mark {mark : Char} {cs : List Char} (h : mark ∉ cs) :
    cs.takeWhile (· != mark) = cs ∧ cs.dropWhile (· != mark) = [] := by
  have hall : ∀ c ∈ cs, (c != mark) = true := by
    intro c hc
    rw [bne_iff_ne]
    intro heq
    subst heq
    exact h hc
  exact ⟨List.takeWhile_eq_self_iff.mpr hall, List.dropWhile_eq_nil_iff.mpr hall⟩

theorem pointValue_point {whole : List Char} (h : '.' ∉ whole) (fraction : List Char) :
    pointValue (whole ++ '.' :: fraction) = number (whole ++ fraction) / 10 ^ fraction.length := by
  obtain ⟨htake, hdrop⟩ := takeWhile_mark h fraction
  rw [pointValue, htake, hdrop]
  rfl

theorem pointValue_no_point {cs : List Char} (h : '.' ∉ cs) : pointValue cs = number cs := by
  obtain ⟨htake, hdrop⟩ := takeWhile_no_mark h
  rw [pointValue, htake, hdrop]
  simp

theorem textValue_mark {mantissa : List Char} (h : 'e' ∉ mantissa) (exponent : List Char) :
    textValue (mantissa ++ 'e' :: exponent) =
      pointValue mantissa * 10 ^ (Numeral.intValue? exponent).getD 0 := by
  obtain ⟨htake, hdrop⟩ := takeWhile_mark h exponent
  rw [textValue, htake, hdrop]
  rfl

theorem textValue_no_mark {cs : List Char} (h : 'e' ∉ cs) : textValue cs = pointValue cs := by
  obtain ⟨htake, hdrop⟩ := takeWhile_no_mark h
  rw [textValue, htake, hdrop]
  simp [Numeral.intValue?, Numeral.value?]

/-! ## Texts of decimals -/

variable {s : Scientific}

theorem not_mem_digits (h : s.Digital) {mark : Char} (hm : mark.isDigit = false) :
    mark ∉ s.digits := fun hc => by
  rw [h.2 mark hc] at hm
  cases hm

/-- Zeros right after the point move the digits. -/
theorem pointValue_zeros_append (digits : List Char) (k : Nat) :
    pointValue (['0', '.'] ++ List.replicate k '0' ++ digits) =
      number digits / 10 ^ (k + digits.length) := by
  have happ : ['0', '.'] ++ List.replicate k '0' ++ digits =
      ['0'] ++ '.' :: (List.replicate k '0' ++ digits) := by
    simp
  have hnumber : number (['0'] ++ (List.replicate k '0' ++ digits)) = number digits := by
    rw [← List.append_assoc]
    exact number_zeros_append (k + 1) digits
  rw [happ, pointValue_point (by decide), hnumber, List.length_append, List.length_replicate]

/-- A point after the last digit changes nothing. -/
theorem pointValue_append_zeros {digits : List Char} (h : '.' ∉ digits) (k : Nat)
    (keepsPoint : Bool) :
    pointValue (digits ++ List.replicate k '0' ++ (if keepsPoint then ['.', '0'] else [])) =
      number digits * 10 ^ k := by
  have hzeros : '.' ∉ digits ++ List.replicate k '0' := by
    simp [h]
  cases keepsPoint with
  | true =>
    have hnumber := number_append_zeros digits (k + 1)
    rw [List.replicate_succ', ← List.append_assoc] at hnumber
    rw [if_pos rfl, pointValue_point hzeros, hnumber]
    push_cast
    rw [pow_succ]
    simp only [List.length_singleton, pow_one]
    ring
  | false =>
    rw [if_neg (by decide), List.append_nil, pointValue_no_point hzeros, number_append_zeros]
    push_cast
    ring

theorem pointValue_take_drop {digits : List Char} (h : '.' ∉ digits) (k : Nat) :
    pointValue (digits.take k ++ '.' :: digits.drop k) =
      number digits / 10 ^ (digits.length - k) := by
  have hwhole : '.' ∉ digits.take k := fun hc => h (List.mem_of_mem_take hc)
  rw [pointValue_point hwhole, List.take_append_drop, List.length_drop]

theorem pointValue_positionalText (h : s.Digital) (keepsPoint : Bool) :
    pointValue (positionalText keepsPoint s) = s.value := by
  have hpoint : '.' ∉ s.digits := not_mem_digits h rfl
  unfold positionalText Scientific.value
  split
  · rename_i hneg
    obtain ⟨k, hk⟩ := Int.eq_ofNat_of_zero_le (by omega : 0 ≤ -s.exponent - 1)
    have hexponent : s.exponent + 1 - s.digits.length = -((k + s.digits.length : Nat) : Int) := by
      push_cast
      omega
    rw [hk, Int.toNat_natCast, pointValue_zeros_append, hexponent, zpow_neg, zpow_natCast,
      div_eq_mul_inv]
  · rename_i hpos
    obtain ⟨k, hk⟩ := Int.eq_ofNat_of_zero_le (by omega : 0 ≤ s.exponent)
    rw [hk, Int.toNat_natCast]
    dsimp only
    split
    · rename_i hdrop
      have hlength : s.digits.length ≤ k + 1 := List.drop_eq_nil_iff.mp hdrop
      have hexponent : (k : Int) + 1 - s.digits.length =
          ((k + 1 - s.digits.length : Nat) : Int) := by
        omega
      rw [List.take_of_length_le hlength, hexponent, zpow_natCast,
        pointValue_append_zeros hpoint]
    · rename_i hdrop
      have hlength : k + 1 ≤ s.digits.length := by
        by_contra hlt
        exact hdrop (List.drop_eq_nil_of_le (by omega))
      have hexponent : (k : Int) + 1 - s.digits.length =
          -((s.digits.length - (k + 1) : Nat) : Int) := by
        omega
      rw [Nat.sub_eq_zero_of_le hlength, List.replicate_zero, List.append_nil,
        pointValue_take_drop hpoint, hexponent, zpow_neg, zpow_natCast, div_eq_mul_inv]

/-- A text without an exponent has digits and points only. -/
theorem mem_positionalText (h : s.Digital) {keepsPoint : Bool} {c : Char}
    (hc : c ∈ positionalText keepsPoint s) : c.isDigit = true ∨ c = '.' := by
  have hzeros {n : Nat} (hz : c ∈ List.replicate n '0') : c.isDigit = true := by
    rw [List.eq_of_mem_replicate hz]
    rfl
  unfold positionalText at hc
  split at hc
  · simp only [List.cons_append, List.nil_append, List.mem_cons, List.mem_append] at hc
    rcases hc with rfl | rfl | hz | hd
    · exact .inl rfl
    · exact .inr rfl
    · exact .inl (hzeros hz)
    · exact .inl (h.2 c hd)
  · have hwhole {n m : Nat} (hw : c ∈ s.digits.take n ++ List.replicate m '0') :
        c.isDigit = true := by
      rcases List.mem_append.mp hw with hd | hz
      · exact h.2 c (List.mem_of_mem_take hd)
      · exact hzeros hz
    dsimp only at hc
    split at hc
    · rcases List.mem_append.mp hc with hw | hp
      · exact .inl (hwhole hw)
      · cases keepsPoint with
        | true =>
          simp only [if_true, List.mem_cons, List.not_mem_nil, or_false] at hp
          rcases hp with rfl | rfl
          · exact .inr rfl
          · exact .inl rfl
        | false => simp at hp
    · rename_i fraction hdrop
      rcases List.mem_append.mp hc with hw | hf
      · exact .inl (hwhole hw)
      · rcases List.mem_cons.mp hf with rfl | hf
        · exact .inr rfl
        · exact .inl (h.2 c (List.mem_of_mem_drop hf))

theorem textValue_positionalText (h : s.Digital) (keepsPoint : Bool) :
    textValue (positionalText keepsPoint s) = s.value := by
  have hmark : 'e' ∉ positionalText keepsPoint s := fun hc => by
    have := mem_positionalText h hc
    revert this
    decide
  rw [textValue_no_mark hmark, pointValue_positionalText h]

theorem intValue?_sign (plusSign : Bool) (n : Int) :
    Numeral.intValue? ((if plusSign && 0 ≤ n then ['+'] else []) ++ Numeral.ofInt n) = some n := by
  split
  · rename_i h
    have hn : ¬n < 0 := by simpa using (Bool.and_eq_true_iff.mp h).2
    show (Numeral.value? (Numeral.ofInt n)).map _ = some n
    rw [Numeral.ofInt, if_neg hn, Numeral.value?_ofNat, Option.map_some]
    congr 1
    omega
  · exact Numeral.intValue?_ofInt n

/-- The digits before the exponent, with a point after the first. -/
def mantissaText : List Char → List Char
  | first :: second :: rest => first :: '.' :: second :: rest
  | digits => digits

theorem exponentText_eq (plusSign : Bool) (s : Scientific) :
    exponentText plusSign s = mantissaText s.digits ++
      'e' :: ((if plusSign && 0 ≤ s.exponent then ['+'] else []) ++ Numeral.ofInt s.exponent) :=
  List.append_assoc (mantissaText s.digits) ('e' :: _) _

theorem mem_mantissaText (h : s.Digital) {c : Char} (hc : c ∈ mantissaText s.digits) :
    c.isDigit = true ∨ c = '.' := by
  unfold mantissaText at hc
  split at hc
  · rename_i first second rest hdigits
    rcases List.mem_cons.mp hc with rfl | hc
    · exact .inl (h.2 _ (by simp [hdigits]))
    · rcases List.mem_cons.mp hc with rfl | hc
      · exact .inr rfl
      · exact .inl (h.2 _ (by rw [hdigits]; exact List.mem_cons_of_mem first hc))
  · exact .inl (h.2 c hc)

theorem pointValue_mantissaText (h : s.Digital) :
    pointValue (mantissaText s.digits) = number s.digits * 10 ^ (1 - s.digits.length : Int) := by
  have hpoint : '.' ∉ s.digits := not_mem_digits h rfl
  unfold mantissaText
  split
  · rename_i first second rest hdigits
    rw [hdigits] at hpoint ⊢
    have hfirst : '.' ∉ [first] := fun hc => hpoint (List.mem_cons.mpr (.inl (by simpa using hc)))
    have hexponent : (1 - (first :: second :: rest).length : Int) =
        -((second :: rest).length : Nat) := by
      simp only [List.length_cons]
      push_cast
      ring
    rw [← List.singleton_append, pointValue_point hfirst, hexponent, zpow_neg, zpow_natCast,
      div_eq_mul_inv]
    rfl
  · rename_i hdigits
    have hlength : s.digits.length = 1 := by
      cases hd : s.digits with
      | nil => exact absurd hd h.1
      | cons first rest =>
        cases rest with
        | nil => rfl
        | cons second rest => exact absurd hd (hdigits first second rest)
    rw [pointValue_no_point hpoint, hlength]
    simp

theorem textValue_exponentText (h : s.Digital) (plusSign : Bool) :
    textValue (exponentText plusSign s) = s.value := by
  have hmark : 'e' ∉ mantissaText s.digits := fun hc => by
    have := mem_mantissaText h hc
    revert this
    decide
  rw [exponentText_eq, textValue_mark hmark, pointValue_mantissaText h, intValue?_sign,
    Option.getD_some, mul_assoc, ← zpow_add₀ (by norm_num), Scientific.value]
  congr 2
  ring

/-! ## Texts of doubles -/

variable (layout : Layout)

/-- The text of a finite double without its sign. -/
def magnitudeText (x : Double.Finite) : List Char :=
  let s := scientific layout.tie x
  if layout.positional s.exponent then positionalText layout.keepsPoint s
  else exponentText layout.plusSign s

theorem finiteText_eq (x : Double.Finite) :
    layout.finiteText x =
      if x.negative then '-' :: layout.magnitudeText x else layout.magnitudeText x := rfl

/-- The text stands for the decimal that was found. -/
theorem textValue_magnitudeText (x : Double.Finite) :
    textValue (layout.magnitudeText x) = (scientific layout.tie x).value := by
  have h := digital_scientific layout.tie x
  unfold magnitudeText
  dsimp only
  split
  · exact textValue_positionalText h layout.keepsPoint
  · exact textValue_exponentText h layout.plusSign

/-- The first character of a magnitude is a digit. -/
theorem magnitudeText_eq_cons (x : Double.Finite) :
    ∃ d rest, layout.magnitudeText x = d :: rest ∧ d.isDigit = true := by
  obtain ⟨hne, hdigits⟩ := digital_scientific layout.tie x
  obtain ⟨first, others, hfirst⟩ := List.exists_cons_of_ne_nil hne
  have hd : first.isDigit = true := hdigits first (hfirst ▸ List.mem_cons_self)
  unfold magnitudeText
  dsimp only
  split
  · unfold positionalText
    split
    · exact ⟨'0', _, rfl, rfl⟩
    · rw [hfirst]
      dsimp only
      split
      · exact ⟨first, _, rfl, hd⟩
      · exact ⟨first, _, rfl, hd⟩
  · rw [exponentText_eq, hfirst]
    cases others with
    | nil => exact ⟨first, _, rfl, hd⟩
    | cons second rest => exact ⟨first, _, rfl, hd⟩

theorem magnitudeText_ne_minus (x : Double.Finite) (rest : List Char) :
    layout.magnitudeText x ≠ '-' :: rest := by
  intro h
  obtain ⟨d, others, hx, hd⟩ := layout.magnitudeText_eq_cons x
  rw [(List.cons.inj (hx.symm.trans h)).1] at hd
  exact absurd hd (by decide)

/-- In every layout finite doubles are told from their texts. -/
theorem finiteText_injective : Function.Injective layout.finiteText := by
  intro x y h
  have hsign : x.negative = y.negative ∧ layout.magnitudeText x = layout.magnitudeText y := by
    rw [finiteText_eq, finiteText_eq] at h
    by_cases hx : x.negative = true
    · by_cases hy : y.negative = true
      · rw [if_pos hx, if_pos hy] at h
        exact ⟨hx.trans hy.symm, (List.cons.inj h).2⟩
      · rw [if_pos hx, if_neg hy] at h
        exact absurd h.symm (layout.magnitudeText_ne_minus y _)
    · by_cases hy : y.negative = true
      · rw [if_neg hx, if_pos hy] at h
        exact absurd h (layout.magnitudeText_ne_minus x _)
      · rw [if_neg hx, if_neg hy] at h
        exact ⟨(eq_false_of_ne_true hx).trans (eq_false_of_ne_true hy).symm, h⟩
  refine Double.Finite.eq_of_index hsign.1 (index_eq_of_value layout.tie ?_)
  rw [← textValue_magnitudeText, ← textValue_magnitudeText, hsign.2]

/-- A digit, a sign, a point, or the mark of an exponent. -/
def isNumberChar (c : Char) : Bool :=
  c.isDigit || ['+', '-', '.', 'e'].contains c

theorem isNumberChar_of_isDigit {c : Char} (h : c.isDigit = true) : isNumberChar c = true := by
  simp [isNumberChar, h]

theorem isNumberChar_of_mem_ofInt {n : Int} {c : Char} (h : c ∈ Numeral.ofInt n) :
    isNumberChar c = true := by
  rcases Numeral.mem_ofInt h with rfl | h
  · rfl
  · exact isNumberChar_of_isDigit h

theorem isNumberChar_of_mem_finiteText {layout : Layout} {x : Double.Finite} {c : Char}
    (hc : c ∈ layout.finiteText x) : isNumberChar c = true := by
  have hpoint (h : c.isDigit = true ∨ c = '.') : isNumberChar c = true := by
    rcases h with h | rfl
    · exact isNumberChar_of_isDigit h
    · rfl
  have hdigital := digital_scientific layout.tie x
  have hmagnitude (h : c ∈ layout.magnitudeText x) : isNumberChar c = true := by
    unfold magnitudeText at h
    dsimp only at h
    split at h
    · exact hpoint (mem_positionalText hdigital h)
    · rw [exponentText_eq] at h
      rcases List.mem_append.mp h with h | h
      · exact hpoint (mem_mantissaText hdigital h)
      · rcases List.mem_cons.mp h with rfl | h
        · rfl
        · rcases List.mem_append.mp h with h | h
          · split at h
            · rw [List.mem_singleton.mp h]
              rfl
            · cases h
          · exact isNumberChar_of_mem_ofInt h
  rw [finiteText_eq] at hc
  split at hc
  · rcases List.mem_cons.mp hc with rfl | hc
    · rfl
    · exact hmagnitude hc
  · exact hmagnitude hc

/-- The first character is a minus sign or a digit. -/
theorem finiteText_eq_cons (x : Double.Finite) :
    ∃ c rest, layout.finiteText x = c :: rest ∧ (c = '-' ∨ c.isDigit = true) := by
  obtain ⟨d, rest, hd, hdigit⟩ := layout.magnitudeText_eq_cons x
  rw [finiteText_eq]
  split
  · exact ⟨'-', _, rfl, .inl rfl⟩
  · exact ⟨d, rest, hd, .inr hdigit⟩

/-- With points kept, no text of a double reads as an integer. -/
theorem mark_mem_finiteText {layout : Layout} (h : layout.keepsPoint = true)
    (x : Double.Finite) : '.' ∈ layout.finiteText x ∨ 'e' ∈ layout.finiteText x := by
  have hmagnitude : '.' ∈ layout.magnitudeText x ∨ 'e' ∈ layout.magnitudeText x := by
    unfold magnitudeText
    dsimp only
    split
    · refine .inl ?_
      unfold positionalText
      split
      · simp
      · dsimp only
        split <;> simp
    · rw [exponentText_eq]
      exact .inr (List.mem_append_right _ List.mem_cons_self)
  rw [finiteText_eq]
  split
  · exact hmagnitude.imp (List.mem_cons_of_mem _) (List.mem_cons_of_mem _)
  · exact hmagnitude

/-- In every layout doubles are told from their texts. -/
theorem text_injective : Function.Injective layout.text := by
  -- A special value is a word, and a finite one has a digit where that has a letter.
  have hfinite (x : Double.Finite) : layout.finiteText x ≠ ['N', 'a', 'N'] ∧
      layout.finiteText x ≠ ['i', 'n', 'f'] ∧ layout.finiteText x ≠ ['-', 'i', 'n', 'f'] := by
    have hne {word : List Char} (hword : 'n' ∈ word ∨ 'N' ∈ word) :
        layout.finiteText x ≠ word := by
      intro heq
      subst heq
      rcases hword with hc | hc
      · exact absurd (isNumberChar_of_mem_finiteText hc) (by decide)
      · exact absurd (isNumberChar_of_mem_finiteText hc) (by decide)
    exact ⟨hne (by decide), hne (by decide), hne (by decide)⟩
  intro x y h
  cases x with
  | nan =>
    cases y with
    | nan => rfl
    | infinite s => cases s <;> simp [text] at h
    | finite y => exact absurd h.symm (hfinite y).1
  | infinite s =>
    cases y with
    | nan => cases s <;> simp [text] at h
    | infinite t => cases s <;> cases t <;> simp [text] at h ⊢
    | finite y =>
      cases s with
      | true => exact absurd h.symm (hfinite y).2.2
      | false => exact absurd h.symm (hfinite y).2.1
  | finite x =>
    cases y with
    | nan => exact absurd h (hfinite x).1
    | infinite s =>
      cases s with
      | true => exact absurd h (hfinite x).2.2
      | false => exact absurd h (hfinite x).2.1
    | finite y => rw [layout.finiteText_injective h]

theorem isTokenChar_of_isNumberChar {c : Char} (h : isNumberChar c = true) :
    isTokenChar c = true := by
  simp only [isNumberChar, Bool.or_eq_true, List.contains_iff_mem] at h
  rcases h with h | h
  · exact isTokenChar_of_isDigit h
  · fin_cases h <;> rfl

theorem isTokenChar_of_mem_text {layout : Layout} {x : Double} {c : Char}
    (h : c ∈ layout.text x) : isTokenChar c = true := by
  cases x with
  | nan =>
    have hall : ∀ d ∈ ['N', 'a', 'N'], isTokenChar d = true := List.all_eq_true.mp rfl
    exact hall c h
  | infinite s =>
    have hall : ∀ d ∈ ['-', 'i', 'n', 'f'], isTokenChar d = true := List.all_eq_true.mp rfl
    cases s with
    | true => exact hall c h
    | false => exact hall c (List.mem_cons_of_mem _ h)
  | finite x => exact isTokenChar_of_isNumberChar (isNumberChar_of_mem_finiteText h)

end Layout
end BoundSql
