import BoundSql.Text.Numeral

/-
Dates of the Gregorian calendar, carried on before its start and past year 9999,
and moments of universal time, to the nanosecond.

Days are counted from 1970-01-01.  `civil` turns a count into year, month and
day, with the year taken to begin in March so that the leap day is its last day.
A year of four digits is written as it is; any other has a sign and at least
four digits.

A leap second has no second of its own: it is the one before it with a billion
nanoseconds or more, and can only follow the last second of a minute.  After any
other second so many nanoseconds are left out, since a moment with them has the text
of one in the second that follows.
-/

namespace BoundSql

/-! ## Dates -/

namespace Calendar

def isLeap (year : Int) : Bool :=
  year % 4 == 0 && (year % 100 != 0 || year % 400 == 0)

/-- The number of days of a month, counted from 1. -/
def monthLength (year : Int) (month : Nat) : Nat :=
  match month with
  | 2 => if isLeap year then 29 else 28
  | 4 | 6 | 9 | 11 => 30
  | _ => 31

/-- Year, month and day of the day `count` days after 1970-01-01.  Eras of 400
years begin on 1 March of a year divisible by 400. -/
def civil (count : Int) : Int × Nat × Nat :=
  let shifted := count + 719468
  let era := shifted / 146097
  let dayOfEra := (shifted % 146097).toNat
  let yearOfEra := (dayOfEra - dayOfEra / 1460 + dayOfEra / 36524 - dayOfEra / 146096) / 365
  let dayOfYear := dayOfEra - (365 * yearOfEra + yearOfEra / 4 - yearOfEra / 100)
  let marchMonth := (5 * dayOfYear + 2) / 153
  let day := dayOfYear - (153 * marchMonth + 2) / 5 + 1
  let month := if marchMonth < 10 then marchMonth + 3 else marchMonth - 9
  let year := (yearOfEra : Int) + era * 400 + if month ≤ 2 then 1 else 0
  (year, month, day)

def yearText (year : Int) : List Char :=
  if 0 ≤ year ∧ year ≤ 9999 then Numeral.padded 4 year.toNat
  else (if year < 0 then '-' else '+') :: Numeral.padded 4 year.natAbs

/-- `year-month-day`. -/
def dateText (year : Int) (month day : Nat) : List Char :=
  yearText year ++ '-' :: Numeral.padded 2 month ++ '-' :: Numeral.padded 2 day

end Calendar

structure Date where
  year : Int
  month : Nat
  day : Nat
  month_pos : 1 ≤ month
  month_le : month ≤ 12
  day_pos : 1 ≤ day
  day_le : day ≤ Calendar.monthLength year month
  deriving DecidableEq

namespace Date

def ofFields? (year : Int) (month day : Nat) : Option Date :=
  if h : (1 ≤ month ∧ month ≤ 12) ∧ 1 ≤ day ∧ day ≤ Calendar.monthLength year month then
    some ⟨year, month, day, h.1.1, h.1.2, h.2.1, h.2.2⟩
  else none

def text (d : Date) : List Char :=
  Calendar.dateText d.year d.month d.day

end Date

/-! ## Moments -/

structure Timestamp where
  /-- Seconds since the start of 1970. -/
  seconds : Int
  nanos : Nat
  nanos_lt : nanos < 2000000000
  leap : 1000000000 ≤ nanos → seconds % 60 = 59
  deriving DecidableEq

namespace Timestamp

def ofFields? (seconds : Int) (nanos : Nat) : Option Timestamp :=
  if h : nanos < 2000000000 ∧ (1000000000 ≤ nanos → seconds % 60 = 59) then
    some ⟨seconds, nanos, h.1, h.2⟩
  else none

/-- The fraction of a second in the least of no, three, six and nine digits
that is exact. -/
def fractionText (nanos : Nat) : List Char :=
  if nanos = 0 then []
  else if nanos % 1000000 = 0 then '.' :: Numeral.padded 3 (nanos / 1000000)
  else if nanos % 1000 = 0 then '.' :: Numeral.padded 6 (nanos / 1000)
  else '.' :: Numeral.padded 9 nanos

/-- Date and time of day, without a zone.  A leap second is second 60. -/
def localText (t : Timestamp) : List Char :=
  let (year, month, day) := Calendar.civil (t.seconds / 86400)
  let secondOfDay := (t.seconds % 86400).toNat
  let isLeapSecond : Bool := 1000000000 ≤ t.nanos
  let second := secondOfDay % 60 + if isLeapSecond then 1 else 0
  let nanos := if isLeapSecond then t.nanos - 1000000000 else t.nanos
  Calendar.dateText year month day ++ 'T' :: Numeral.padded 2 (secondOfDay / 3600) ++
    ':' :: Numeral.padded 2 (secondOfDay / 60 % 60) ++ ':' :: Numeral.padded 2 second ++
    fractionText nanos

/-- The moment with its offset from universal time. -/
def text (t : Timestamp) : List Char :=
  t.localText ++ ['+', '0', '0', ':', '0', '0']

/-- The moment with universal time named by its letter. -/
def zuluText (t : Timestamp) : List Char :=
  t.localText ++ ['Z']

end Timestamp
end BoundSql
