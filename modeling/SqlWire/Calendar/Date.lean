import SqlWire.Scalar.Basic

/-!
# Dates

A `CivilDate` is a year, a month and a day of the Gregorian calendar, carried
on to all years before and after its introduction.  A `Date` is a day counted
from 2000-01-01; its largest and smallest numbers are the two infinities.

`CivilDate.julianDay` and `CivilDate.ofJulianDay` count the days of the
calendar through a year that begins in March, which puts the leap day last.
-/

namespace SqlWire

/-- A number with zeros in front, up to a width. -/
def zeroPadded (width n : Nat) : String :=
  let digits := toString n
  String.ofList (List.replicate (width - digits.length) '0') ++ digits

/-! ### The calendar -/

/-- A year, a month and a day.  Nothing is said of whether the calendar has such a day. -/
structure CivilDate where
  year : Int
  month : Nat
  day : Nat
  deriving Repr, DecidableEq, Inhabited

namespace CivilDate

/-- The year has a leap day. -/
def IsLeap (year : Int) : Prop := (year % 4 = 0 ∧ year % 100 ≠ 0) ∨ year % 400 = 0

instance (year : Int) : Decidable (IsLeap year) := by unfold IsLeap; infer_instance

/-- How many days a month has; none when there is no such month. -/
def daysInMonth (year : Int) (month : Nat) : Nat :=
  if month = 2 then if IsLeap year then 29 else 28
  else if month = 4 ∨ month = 6 ∨ month = 9 ∨ month = 11 then 30
  else if 1 ≤ month ∧ month ≤ 12 then 31
  else 0

/-- The calendar has this day. -/
def IsValid (c : CivilDate) : Prop :=
  1 ≤ c.month ∧ c.month ≤ 12 ∧ 1 ≤ c.day ∧ c.day ≤ daysInMonth c.year c.month

instance (c : CivilDate) : Decidable c.IsValid := by unfold IsValid; infer_instance

/-- The Julian day number.  Months are counted from March of the year before, at index 4. -/
def julianDay (c : CivilDate) : Int :=
  let y := if 2 < c.month then c.year + 4800 else c.year + 4799
  let m := if 2 < c.month then c.month + 1 else c.month + 13
  let century := y / 100
  y * 365 - 32167 + (y / 4 - century + century / 4) + (7834 * m / 256 : Nat) + c.day

/-- The civil date of a Julian day number. -/
def ofJulianDay (number : Nat) : CivilDate :=
  let shifted := number + 32044
  let cycles := shifted / 146097
  let quarters := (shifted - cycles * 146097) * 4 + 3
  let days := shifted + 60 + cycles * 3 + quarters / 146097
  let leaps := days / 1461
  let dayOfLeap := days - leaps * 1461
  let yearOfLeap := dayOfLeap * 4 / 1461
  let dayOfYear :=
    (if yearOfLeap = 0 then (dayOfLeap + 306) % 366 else (dayOfLeap + 305) % 365) + 123
  let index := dayOfYear * 2141 / 65536
  ⟨(yearOfLeap + leaps * 4 : Nat) - 4800, (index + 10) % 12 + 1, dayOfYear - 7834 * index / 256⟩

/-- The date as text: a year, and two digits each for month and day. -/
def text (c : CivilDate) : String :=
  toString c.year ++ "-" ++ zeroPadded 2 c.month ++ "-" ++ zeroPadded 2 c.day

end CivilDate

/-! ### Dates as numbers -/

/-- A day, counted from 2000-01-01. -/
structure Date where
  days : Int32
  deriving Repr, DecidableEq, Inhabited

namespace Date

/-- The Julian day number of 2000-01-01. -/
def epoch : Int := 2451545

/-- The day after all others. -/
def infinity : Date := ⟨Int32.maxValue⟩

/-- The day before all others. -/
def negInfinity : Date := ⟨Int32.minValue⟩

def isFinite (d : Date) : Bool := d != infinity && d != negInfinity

/-- The Julian day number of a date. -/
def julianDay (d : Date) : Int := d.days.toInt + epoch

/-- The date of a civil date.  Refused is what the calendar does not have, then what lies before the
first Julian day or is no finite date. -/
def ofCivil (c : CivilDate) : Except Error Date :=
  let days := c.julianDay - epoch
  if ¬c.IsValid then .error (.outOfRange "date" (c.text ++ " is not a calendar date"))
  else if c.julianDay < 0 ∨ infinity.days.toInt ≤ days ∨ days ≤ negInfinity.days.toInt then
    .error (.outOfRange "date" ("year " ++ toString c.year ++ " out of range"))
  else .ok ⟨Int32.ofInt days⟩

/-- The civil date of a finite date on or after the first Julian day. -/
def toCivil? (d : Date) : Option CivilDate :=
  if d.isFinite && decide (0 ≤ d.julianDay) then some (CivilDate.ofJulianDay d.julianDay.toNat)
  else none

end Date

instance : Scalar Date where
  dataType := .date
  encode d := Word.toBytes d.days
  decode bytes := (Scalar.decodeWord Int32 "date" bytes).map Date.mk

end SqlWire
