/-!
# The calendar

Days are counted from 1970-01-01 in the Gregorian calendar, extended without limit in
both directions. A date is turned into its day number and back by counting in years
that begin in March, so that the leap day comes last.
-/

namespace SkyCatalog.Time

/-- A date of the calendar. -/
structure Date where
  year : Int
  month : Nat
  day : Nat
deriving DecidableEq, Repr

/-- Has a year a leap day? -/
def isLeapYear (year : Int) : Bool :=
  year % 4 == 0 && (year % 100 != 0 || year % 400 == 0)

/-- The number of days of a month. -/
def daysInMonth (year : Int) (month : Nat) : Nat :=
  if month = 2 then if isLeapYear year then 29 else 28
  else if month = 4 ∨ month = 6 ∨ month = 9 ∨ month = 11 then 30
  else 31

/-- Is it a date that exists? -/
def Date.isValid (d : Date) : Bool :=
  1 ≤ d.month && d.month ≤ 12 && 1 ≤ d.day && d.day ≤ daysInMonth d.year d.month

/-- The number of days in four hundred years. -/
def daysPerEra : Int := 146097

/-- The day from 0000-03-01 to 1970-01-01. -/
def epochShift : Int := 719468

/-- The day of the year that begins in March on which a month begins, March being the
month 0. -/
def monthStart (month : Nat) : Nat :=
  (153 * month + 2) / 5

/-- The number of a day. -/
def Date.toDays (d : Date) : Int :=
  let year := if d.month ≤ 2 then d.year - 1 else d.year
  let era := year.fdiv 400
  let yearOfEra := year - era * 400
  let dayOfYear : Int := monthStart ((d.month + 9) % 12) + (d.day - 1 : Nat)
  let dayOfEra := yearOfEra * 365 + yearOfEra / 4 - yearOfEra / 100 + dayOfYear
  era * daysPerEra + dayOfEra - epochShift

/-- The date of a day number. -/
def Date.ofDays (days : Int) : Date :=
  let shifted := days + epochShift
  let era := shifted.fdiv daysPerEra
  let dayOfEra := shifted - era * daysPerEra
  let yearOfEra := (dayOfEra - dayOfEra / 1460 + dayOfEra / 36524 - dayOfEra / 146096) / 365
  let dayOfYear := (dayOfEra - (365 * yearOfEra + yearOfEra / 4 - yearOfEra / 100)).toNat
  let month := (5 * dayOfYear + 2) / 153
  let year := yearOfEra + era * 400
  if month < 10 then ⟨year, month + 3, dayOfYear - monthStart month + 1⟩
  else ⟨year + 1, month - 9, dayOfYear - monthStart month + 1⟩

end SkyCatalog.Time
