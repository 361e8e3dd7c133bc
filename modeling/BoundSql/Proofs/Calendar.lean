import BoundSql.Calendar
import BoundSql.Proofs.Number.Digits

/-
Dates and moments told from their texts.

`dayCount` counts the days up to a date of the calendar, so `civil` gives no date
twice.  A date ends in two fields of two digits, and a moment is cut at the
letter between its date and its time; what is left has fields of fixed widths.
-/

namespace BoundSql
namespace Calendar

/-! ## Days and dates -/

/-- The year of an era in which a day of it lies. -/
def yearOfEra (day : Nat) : Nat :=
  (day - day / 1460 + day / 36524 - day / 146096) / 365

/-- The days of an era before one of its years. -/
def yearStart (year : Nat) : Nat :=
  365 * year + year / 4 - year / 100

/-- A day of an era lies within its year. -/
theorem yearStart_yearOfEra {d : Nat} (hd : d < 146097) :
    yearOfEra d < 400 ∧ yearStart (yearOfEra d) ≤ d ∧ d ≤ yearStart (yearOfEra d) + 365 := by
  -- The last day of an era is the only one of its fifth century.
  by_cases hlast : d = 146096
  · subst hlast
    decide
  obtain ⟨c, hc⟩ : ∃ c, c = d / 36524 := ⟨_, rfl⟩
  obtain ⟨q, hq⟩ : ∃ q, q = d / 1460 := ⟨_, rfl⟩
  obtain ⟨y, hy⟩ : ∃ y, y = yearOfEra d := ⟨_, rfl⟩
  have hyear : y = (d - q + c) / 365 := by
    rw [hy, yearOfEra, ← hc, ← hq, show d / 146096 = 0 by omega, Nat.sub_zero]
  have hcentury : c = 0 ∨ c = 1 ∨ c = 2 ∨ c = 3 := by omega
  have hlow : 36500 * c ≤ d - q + c := by
    rcases hcentury with rfl | rfl | rfl | rfl <;> omega
  have hhigh : d - q + c < 36500 * (c + 1) := by
    rcases hcentury with rfl | rfl | rfl | rfl <;> omega
  have hhundred : y / 100 = c := by omega
  have hcycle : 4 * q ≤ y + 1 ∧ y ≤ 4 * q + 3 := by
    rcases hcentury with rfl | rfl | rfl | rfl <;> omega
  have hfour : y / 4 = q ∨ (y + 1 = 4 * q ∧ y / 4 + 1 = q) := by omega
  rw [← hy, yearStart, hhundred]
  rcases hfour with hfour | ⟨hend, hfour⟩ <;> omega

/-- A day by its era, the year of the era, the month counted from March, and the
day of the month counted from zero. -/
theorem exists_civil_eq (count : Int) :
    ∃ (era : Int) (y m d : Nat), y < 400 ∧ m < 12 ∧ d ≤ 30 ∧
      count = era * 146097 + (yearStart y + (153 * m + 2) / 5 + d : Nat) - 719468 ∧
      civil count =
        let month := if m < 10 then m + 3 else m - 9
        ((y : Int) + era * 400 + if month ≤ 2 then 1 else 0, month, d + 1) := by
  obtain ⟨day, hday⟩ : ∃ day, day = ((count + 719468) % 146097).toNat := ⟨_, rfl⟩
  obtain ⟨hyear, hstart, hend⟩ := yearStart_yearOfEra (d := day) (by omega)
  obtain ⟨m, hm⟩ : ∃ m, m = (5 * (day - yearStart (yearOfEra day)) + 2) / 153 := ⟨_, rfl⟩
  refine ⟨(count + 719468) / 146097, yearOfEra day, m,
    day - yearStart (yearOfEra day) - (153 * m + 2) / 5, hyear, by omega, by omega, by omega, ?_⟩
  rw [hm, hday]
  rfl

/-- The number of the day with this date. -/
def dayCount : Int × Nat × Nat → Int
  | (year, month, day) =>
    let start := if month ≤ 2 then year - 1 else year
    let marchMonth : Nat := if month ≤ 2 then month + 9 else month - 3
    365 * start + start / 4 - start / 100 + start / 400 + ((153 * marchMonth + 2) / 5 : Nat) + day
      - 719469

theorem dayCount_civil (count : Int) : dayCount (civil count) = count := by
  obtain ⟨era, y, m, d, hy, hm, -, hcount, hcivil⟩ := exists_civil_eq count
  have hfour : ((y : Int) + era * 400) / 4 = (y / 4 : Nat) + era * 100 := by omega
  have hhundred : ((y : Int) + era * 400) / 100 = (y / 100 : Nat) + era * 4 := by omega
  have hera : ((y : Int) + era * 400) / 400 = era := by omega
  rw [hcivil]
  unfold yearStart at hcount
  dsimp only [dayCount]
  by_cases hmarch : m < 10
  · have hmonth : ¬m + 3 ≤ 2 := by omega
    simp only [hmarch, if_true, hmonth, if_false, Nat.add_sub_cancel, Int.add_zero, hfour,
      hhundred, hera]
    omega
  · have hmonth : m - 9 ≤ 2 := by omega
    have hnine : m - 9 + 9 = m := by omega
    simp only [hmarch, if_false, hmonth, if_true, hnine, Int.add_sub_cancel, hfour, hhundred,
      hera]
    omega

theorem civil_injective : Function.Injective civil := fun a b h => by
  rw [← dayCount_civil a, h, dayCount_civil]

theorem civil_lt (count : Int) : (civil count).2.1 < 100 ∧ (civil count).2.2 < 100 := by
  obtain ⟨era, y, m, d, -, hm, hd, -, hcivil⟩ := exists_civil_eq count
  rw [hcivil]
  dsimp only
  split <;> omega

/-! ## Texts of dates -/

theorem mem_yearText {year : Int} {c : Char} (h : c ∈ yearText year) :
    c = '-' ∨ c = '+' ∨ c.isDigit = true := by
  unfold yearText at h
  split at h
  · exact .inr (.inr (Numeral.isDigit_of_mem_padded h))
  · rcases List.mem_cons.mp h with rfl | h
    · split
      · exact .inl rfl
      · exact .inr (.inl rfl)
    · exact .inr (.inr (Numeral.isDigit_of_mem_padded h))

theorem yearText_injective : Function.Injective yearText := by
  have hmark (y : Int) : (if y < 0 then '-' else '+').isDigit = false := by
    split <;> rfl
  have hsign (width n : Nat) {c : Char} (hc : c.isDigit = false) (xs : List Char) :
      Numeral.padded width n ≠ c :: xs := fun h =>
    Numeral.not_mem_padded hc width n (h ▸ List.mem_cons_self)
  intro a b h
  unfold yearText at h
  by_cases ha : 0 ≤ a ∧ a ≤ 9999
  · rw [if_pos ha] at h
    by_cases hb : 0 ≤ b ∧ b ≤ 9999
    · rw [if_pos hb] at h
      have := Numeral.padded_inj h
      omega
    · rw [if_neg hb] at h
      exact absurd h (hsign _ _ (hmark b) _)
  · rw [if_neg ha] at h
    by_cases hb : 0 ≤ b ∧ b ≤ 9999
    · rw [if_pos hb] at h
      exact absurd h.symm (hsign _ _ (hmark a) _)
    · rw [if_neg hb] at h
      obtain ⟨hsame, hdigits⟩ := List.cons.inj h
      have hnumber := Numeral.padded_inj hdigits
      have hiff : a < 0 ↔ b < 0 := by
        by_cases hna : a < 0 <;> by_cases hnb : b < 0 <;> simp [hna, hnb] at hsame ⊢
      omega

theorem dateText_inj {y y' : Int} {m m' d d' : Nat} (hm : m < 100) (hd : d < 100) (hm' : m' < 100)
    (hd' : d' < 100) (h : dateText y m d = dateText y' m' d') : (y, m, d) = (y', m', d') := by
  have htwo {n : Nat} (hn : n < 100) : (Numeral.padded 2 n).length = 2 :=
    Numeral.length_padded (by decide) hn
  simp only [dateText, List.append_assoc, List.cons_append] at h
  obtain ⟨hy, h⟩ := List.append_inj' h (by simp [htwo hm, htwo hd, htwo hm', htwo hd'])
  obtain ⟨hmonth, h⟩ := List.append_inj (List.cons.inj h).2 (by rw [htwo hm, htwo hm'])
  rw [yearText_injective hy, Numeral.padded_inj hmonth,
    Numeral.padded_inj (List.cons.inj h).2]

theorem mem_dateText {y : Int} {m d : Nat} {c : Char} (h : c ∈ dateText y m d) :
    c = '-' ∨ c = '+' ∨ c.isDigit = true := by
  simp only [dateText, List.append_assoc, List.cons_append, List.mem_append, List.mem_cons] at h
  rcases h with h | h | h | h | h
  · exact mem_yearText h
  · exact .inl h
  · exact .inr (.inr (Numeral.isDigit_of_mem_padded h))
  · exact .inl h
  · exact .inr (.inr (Numeral.isDigit_of_mem_padded h))

theorem isTokenChar_of_mem_dateText {y : Int} {m d : Nat} {c : Char} (h : c ∈ dateText y m d) :
    isTokenChar c = true := by
  rcases mem_dateText h with rfl | rfl | h
  · rfl
  · rfl
  · exact isTokenChar_of_isDigit h

end Calendar

namespace Date

theorem monthLength_lt (year : Int) (month : Nat) : Calendar.monthLength year month < 100 := by
  unfold Calendar.monthLength
  split
  · split <;> decide
  all_goals decide

theorem text_injective : Function.Injective text := by
  intro a b h
  have ha := Nat.lt_of_le_of_lt a.day_le (monthLength_lt a.year a.month)
  have hb := Nat.lt_of_le_of_lt b.day_le (monthLength_lt b.year b.month)
  have hma := a.month_le
  have hmb := b.month_le
  have hfields := Calendar.dateText_inj (by omega) ha (by omega) hb h
  cases a
  cases b
  cases hfields
  rfl

theorem isTokenChar_of_mem_text {d : Date} {c : Char} (h : c ∈ d.text) : isTokenChar c = true :=
  Calendar.isTokenChar_of_mem_dateText h

end Date
/-! ## Texts of moments -/

namespace Timestamp

open Calendar Numeral

/-- The nanoseconds of a fraction that is a point and at most nine digits. -/
def fractionValue (cs : List Char) : Nat :=
  number cs.tail * 10 ^ (9 - cs.tail.length)

theorem fractionValue_fractionText {n : Nat} (hn : n < 1000000000) :
    fractionValue (fractionText n) = n := by
  unfold fractionText
  split
  · rename_i hzero
    rw [hzero]
    rfl
  · split
    · rw [fractionValue, List.tail_cons, number_padded, length_padded (by decide) (by omega)]
      omega
    · split
      · rw [fractionValue, List.tail_cons, number_padded, length_padded (by decide) (by omega)]
        omega
      · rw [fractionValue, List.tail_cons, number_padded, length_padded (by decide) (by omega)]
        omega

theorem fractionText_inj {m n : Nat} (hm : m < 1000000000) (hn : n < 1000000000)
    (h : fractionText m = fractionText n) : m = n := by
  rw [← fractionValue_fractionText hm, h, fractionValue_fractionText hn]

/-- The hour, minute, second and nanosecond of the day.  A leap second is second
60. -/
def clock (t : Timestamp) : Nat × Nat × Nat × Nat :=
  let secondOfDay := (t.seconds % 86400).toNat
  let isLeapSecond : Bool := 1000000000 ≤ t.nanos
  (secondOfDay / 3600, secondOfDay / 60 % 60,
    secondOfDay % 60 + (if isLeapSecond then 1 else 0),
    if isLeapSecond then t.nanos - 1000000000 else t.nanos)

def clockText : Nat × Nat × Nat × Nat → List Char
  | (hour, minute, second, nanos) =>
    padded 2 hour ++ ':' :: padded 2 minute ++ ':' :: padded 2 second ++ fractionText nanos

theorem localText_eq (t : Timestamp) :
    t.localText = dateText (civil (t.seconds / 86400)).1 (civil (t.seconds / 86400)).2.1
      (civil (t.seconds / 86400)).2.2 ++ 'T' :: clockText t.clock := by
  simp only [localText, clockText, clock, List.append_assoc, List.cons_append]

theorem clock_lt (t : Timestamp) : t.clock.1 < 100 ∧ t.clock.2.1 < 100 ∧ t.clock.2.2.1 < 100 ∧
    t.clock.2.2.2 < 1000000000 := by
  have hday : (t.seconds % 86400).toNat < 86400 := by omega
  have hnanos := t.nanos_lt
  by_cases hleap : 1000000000 ≤ t.nanos
  · simp only [clock, hleap, decide_true, if_true]
    omega
  · simp only [clock, hleap, decide_false, Bool.false_eq_true, if_false]
    omega

theorem clockText_inj {s t : Timestamp} (h : clockText s.clock = clockText t.clock) :
    s.clock = t.clock := by
  obtain ⟨hs1, hs2, hs3, hs4⟩ := s.clock_lt
  obtain ⟨ht1, ht2, ht3, ht4⟩ := t.clock_lt
  generalize s.clock = a at *
  generalize t.clock = b at *
  obtain ⟨hour, minute, second, nanos⟩ := a
  obtain ⟨hour', minute', second', nanos'⟩ := b
  have htwo {n : Nat} (hn : n < 100) : (padded 2 n).length = 2 := length_padded (by decide) hn
  simp only [clockText, List.append_assoc, List.cons_append] at h
  obtain ⟨hhour, h⟩ := List.append_inj h (by rw [htwo hs1, htwo ht1])
  obtain ⟨hminute, h⟩ := List.append_inj (List.cons.inj h).2 (by rw [htwo hs2, htwo ht2])
  obtain ⟨hsecond, h⟩ := List.append_inj (List.cons.inj h).2 (by rw [htwo hs3, htwo ht3])
  have hnanos : nanos = nanos' := fractionText_inj hs4 ht4 h
  rw [padded_inj hhour, padded_inj hminute, padded_inj hsecond, hnanos]

/-- Only a leap second is second 60, so the clock tells it. -/
theorem eq_of_clock {s t : Timestamp} (hday : s.seconds / 86400 = t.seconds / 86400)
    (h : s.clock = t.clock) : s = t := by
  have hfields : s.seconds = t.seconds ∧ s.nanos = t.nanos := by
    have hs := s.leap
    have ht := t.leap
    simp only [clock, Prod.mk.injEq] at h
    obtain ⟨hhour, hminute, hsecond, hnanos⟩ := h
    by_cases hsl : 1000000000 ≤ s.nanos <;> by_cases htl : 1000000000 ≤ t.nanos <;>
      simp only [hsl, htl, decide_true, decide_false, if_true, Bool.false_eq_true, if_false]
        at hsecond hnanos <;> omega
  cases s
  cases t
  cases hfields.1
  cases hfields.2
  rfl

theorem not_mem_dateText {y : Int} {m d : Nat} : 'T' ∉ dateText y m d := fun h => by
  have := mem_dateText h
  revert this
  decide

theorem localText_injective : Function.Injective localText := by
  intro s t h
  rw [localText_eq, localText_eq] at h
  obtain ⟨hdate, hclock⟩ := cut_unique_of_not_mem not_mem_dateText not_mem_dateText h
  obtain ⟨hms, hds⟩ := civil_lt (s.seconds / 86400)
  obtain ⟨hmt, hdt⟩ := civil_lt (t.seconds / 86400)
  exact eq_of_clock (civil_injective (dateText_inj hms hds hmt hdt hdate)) (clockText_inj hclock)

theorem text_injective : Function.Injective text := fun _ _ h =>
  localText_injective (List.append_cancel_right h)

theorem isTokenChar_of_mem_text {t : Timestamp} {c : Char} (h : c ∈ t.text) :
    isTokenChar c = true := by
  have hdigits {w n : Nat} (hc : c ∈ padded w n) : isTokenChar c = true :=
    isTokenChar_of_isDigit (isDigit_of_mem_padded hc)
  have hfraction {n : Nat} (hc : c ∈ fractionText n) : isTokenChar c = true := by
    unfold fractionText at hc
    split at hc
    · cases hc
    · split at hc
      · rcases List.mem_cons.mp hc with rfl | hc
        · rfl
        · exact hdigits hc
      · split at hc
        · rcases List.mem_cons.mp hc with rfl | hc
          · rfl
          · exact hdigits hc
        · rcases List.mem_cons.mp hc with rfl | hc
          · rfl
          · exact hdigits hc
  rw [text, localText_eq, clockText] at h
  simp only [List.append_assoc, List.cons_append, List.mem_append, List.mem_cons] at h
  rcases h with h | rfl | h | rfl | h | rfl | h | h | h
  · exact isTokenChar_of_mem_dateText h
  · rfl
  · exact hdigits h
  · rfl
  · exact hdigits h
  · rfl
  · exact hdigits h
  · exact hfraction h
  · revert h
    rintro (rfl | rfl | rfl | rfl | rfl | rfl | h)
    all_goals first | rfl | cases h

end Timestamp
end BoundSql
