/-!
# Calendar

The lengths of months in the Gregorian calendar, and the date of a day by its number. Days
are counted in spans of four hundred years, which all have the same length, and years from
March on, so that a leap day ends its year.
-/

set_option autoImplicit false

namespace LocaleLint.Calendar

/-- A leap year. -/
def isLeap (year : Nat) : Bool :=
  year % 4 = 0 && (year % 100 ≠ 0 || year % 400 = 0)

/-- The number of days of a month, counted from one; zero for a number that is no month. -/
def monthLength (year month : Nat) : Nat :=
  if month = 2 then (if isLeap year then 29 else 28)
  else if month = 4 ∨ month = 6 ∨ month = 9 ∨ month = 11 then 30
  else if 1 ≤ month ∧ month ≤ 12 then 31
  else 0

/-- Whether a day is a day of its month. -/
def isDate (year month day : Nat) : Bool :=
  1 ≤ day && day ≤ monthLength year month

/-- The days of four hundred years. -/
def daysOfSpan : Nat := 146097

/-- The days from the first of March of the year zero to the first of January of 1970. -/
def daysToEpoch : Nat := 719468

/-- The year, counted from March, of a day of a span. -/
def yearOfSpanDay (day : Nat) : Nat :=
  (day - day / 1460 + day / 36524 - day / 146096) / 365

/-- The date of a day, counted from the first of January of 1970: year, month and day. -/
def ofDays (days : Nat) : Nat × Nat × Nat :=
  let shifted := days + daysToEpoch
  let spanDay := shifted % daysOfSpan
  let spanYear := yearOfSpanDay spanDay
  let yearDay := spanDay - (365 * spanYear + spanYear / 4 - spanYear / 100)
  let marchMonth := (5 * yearDay + 2) / 153
  let day := yearDay - (153 * marchMonth + 2) / 5 + 1
  let month := if marchMonth < 10 then marchMonth + 3 else marchMonth - 9
  let year := shifted / daysOfSpan * 400 + spanYear
  (if month ≤ 2 then year + 1 else year, month, day)

end LocaleLint.Calendar
