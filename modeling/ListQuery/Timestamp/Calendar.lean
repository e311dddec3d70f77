/-!
# The calendar

Dates of the years 1 to 9999 in the Gregorian calendar, extended backward.  Days are numbered from 1, the first of
January of the year 1, which is a Monday.
-/
namespace ListQuery

def isLeapYear (year : Nat) : Bool := year % 4 == 0 && (year % 100 != 0 || year % 400 == 0)

def daysInMonth (year month : Nat) : Nat :=
  match month with
  | 2 => if isLeapYear year then 29 else 28
  | 4 | 6 | 9 | 11 => 30
  | _ => 31

structure Date where
  year : Nat
  month : Nat
  day : Nat
  inCalendar : (1 ≤ year ∧ year ≤ 9999) ∧ (1 ≤ month ∧ month ≤ 12) ∧ 1 ≤ day ∧ day ≤ daysInMonth year month
  deriving DecidableEq

def Date.of? (year month day : Nat) : Option Date :=
  if h : (1 ≤ year ∧ year ≤ 9999) ∧ (1 ≤ month ∧ month ≤ 12) ∧ 1 ≤ day ∧ day ≤ daysInMonth year month then
    some ⟨year, month, day, h⟩
  else none

/-! ## Numbering the days -/

def daysBeforeYear (year : Nat) : Nat :=
  let past := year - 1
  365 * past + past / 4 - past / 100 + past / 400

def daysBeforeMonth (year : Nat) : (month : Nat) → Nat
  | 0 | 1 => 0
  | month + 2 => daysBeforeMonth year (month + 1) + daysInMonth year (month + 1)

def Date.ordinal (d : Date) : Nat := daysBeforeYear d.year + daysBeforeMonth d.year d.month + d.day

/-- The year of a numbered day.  400 years have 146097 days, which gives the year or a neighbour of it. -/
def yearOfOrdinal (n : Nat) : Nat :=
  let guess := (n - 1) * 400 / 146097 + 1
  if n ≤ daysBeforeYear guess then guess - 1
  else if daysBeforeYear (guess + 1) < n then guess + 1
  else guess

def monthOfDay (year : Nat) : (monthsLeft month day : Nat) → Nat × Nat
  | 0, month, day => (month, day)
  | monthsLeft + 1, month, day =>
    if day ≤ daysInMonth year month then (month, day)
    else monthOfDay year monthsLeft (month + 1) (day - daysInMonth year month)

def Date.ofOrdinal? (n : Nat) : Option Date :=
  let year := yearOfOrdinal n
  let (month, day) := monthOfDay year 11 1 (n - daysBeforeYear year)
  Date.of? year month day

/-! ## Weeks

A week begins on Monday, and the first week of a year is the one that holds its first Thursday. -/

/-- The weekday of the first of January, counted from Monday as 0. -/
def weekdayOfNewYear (year : Nat) : Nat := daysBeforeYear year % 7

/-- Years have 52 weeks, and 53 if they begin on a Thursday or are leap years that begin on a Wednesday. -/
def weeksInYear (year : Nat) : Nat :=
  if weekdayOfNewYear year = 3 ∨ (weekdayOfNewYear year = 2 ∧ isLeapYear year) then 53 else 52

/-- The number of the day before the first week's Monday.  It is negative for no year after 0: the year 1 begins on a
Monday. -/
def daysBeforeFirstWeek (year : Nat) : Nat :=
  let weekday := weekdayOfNewYear year
  if 3 < weekday then daysBeforeYear year - weekday + 7 else daysBeforeYear year - weekday

def Date.ofWeek? (year week day : Nat) : Option Date :=
  if 1 ≤ year ∧ 1 ≤ week ∧ week ≤ weeksInYear year ∧ 1 ≤ day ∧ day ≤ 7 then
    Date.ofOrdinal? (daysBeforeFirstWeek year + 7 * (week - 1) + day)
  else none

end ListQuery
