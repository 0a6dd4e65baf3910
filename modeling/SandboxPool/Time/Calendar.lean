/-!
# Calendar days

Days of the Gregorian calendar, extended to all years, are counted from 1 January of the year 1.

* `dayNumber` counts the days before a date, `dateOfDay` finds the date of a day.
* `validDate` says which days a month has and which years the calendar covers.
-/

namespace SandboxPool.Time

/-- A year, a month from 1 to 12 and a day from 1. -/
structure Date where
  year : Int
  month : Nat
  day : Nat
  deriving Repr, DecidableEq

/-- The year has 29 February. -/
def isLeapYear (year : Int) : Bool :=
  year % 4 == 0 && (year % 100 != 0 || year % 400 == 0)

def daysInMonth (year : Int) (month : Nat) : Nat :=
  if month = 2 then (if isLeapYear year then 29 else 28)
  else if month = 4 || month = 6 || month = 9 || month = 11 then 30
  else 31

/-- The days between 1 January of the year 1 and 1 January of a year. -/
def daysBeforeYear (year : Int) : Int :=
  let p := year - 1
  365 * p + p / 4 - p / 100 + p / 400

/-- The days of the first `months` months of a year. -/
def daysBeforeMonth (year : Int) : Nat → Nat
  | 0 => 0
  | months + 1 => daysBeforeMonth year months + daysInMonth year (months + 1)

/-- The days before a date. -/
def dayNumber (d : Date) : Int :=
  daysBeforeYear d.year + Int.ofNat (daysBeforeMonth d.year (d.month - 1)) + Int.ofNat d.day - 1

/-- The year that a day falls in. The average length of a year gives it up to one. -/
def yearOfDay (day : Int) : Int :=
  let guess := day * 400 / 146097 + 1
  if day < daysBeforeYear guess then guess - 1
  else if daysBeforeYear (guess + 1) ≤ day then guess + 1
  else guess

/-- The month that the `rest`-th day after the start of `month` falls in, and its day there. -/
def monthOfDay (year : Int) : Nat → Nat → Nat → Nat × Nat
  | 0, month, rest => (month, rest + 1)
  | fuel + 1, month, rest =>
    let length := daysInMonth year month
    if rest < length then (month, rest + 1) else monthOfDay year fuel (month + 1) (rest - length)

def dateOfDay (day : Int) : Date :=
  let year := yearOfDay day
  let (month, inMonth) := monthOfDay year 11 1 (day - daysBeforeYear year).toNat
  ⟨year, month, inMonth⟩

def firstYear : Int := -262143

def lastYear : Int := 262142

/-- The date exists and the calendar covers it. -/
def validDate (d : Date) : Bool :=
  firstYear ≤ d.year && d.year ≤ lastYear && 1 ≤ d.month && d.month ≤ 12 && 1 ≤ d.day
    && d.day ≤ daysInMonth d.year d.month

end SandboxPool.Time
