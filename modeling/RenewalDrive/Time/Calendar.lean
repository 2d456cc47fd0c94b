/-!
# Calendar dates

Dates of the Gregorian calendar, extended to all years, and their numbering by
days from 1970-01-01. `ofDays` and `toDays` work on years that begin in March,
so that the leap day is the last one of its year.
-/

namespace RenewalDrive

/-- A year, a month from 1 to 12 and a day of the month from 1. -/
structure Date where
  year : Int
  month : Nat
  day : Nat
deriving DecidableEq

namespace Date

def isLeapYear (year : Int) : Bool :=
  year % 4 = 0 && (year % 100 ≠ 0 || year % 400 = 0)

def daysInMonth (year : Int) (month : Nat) : Nat :=
  if month = 2 then if isLeapYear year then 29 else 28
  else if month = 4 ∨ month = 6 ∨ month = 9 ∨ month = 11 then 30
  else 31

def Valid (date : Date) : Prop :=
  1 ≤ date.month ∧ date.month ≤ 12 ∧ 1 ≤ date.day ∧
    date.day ≤ daysInMonth date.year date.month

instance (date : Date) : Decidable date.Valid :=
  inferInstanceAs (Decidable (_ ∧ _ ∧ _ ∧ _))

/-- Days from 0000-03-01 to 1970-01-01. -/
def epochDays : Int := 719468

/-- The number of a date, counted in days from 1970-01-01. -/
def toDays (date : Date) : Int :=
  let year := if date.month ≤ 2 then date.year - 1 else date.year
  let month := if date.month ≤ 2 then date.month + 9 else date.month - 3
  let dayOfYear := (153 * month + 2) / 5 + date.day - 1
  365 * year + year / 4 - year / 100 + year / 400 + dayOfYear - epochDays

def ofDays (days : Int) : Date :=
  let shifted := days + epochDays
  let cycle := shifted / 146097
  let dayOfCycle := shifted % 146097
  let yearOfCycle :=
    (dayOfCycle - dayOfCycle / 1460 + dayOfCycle / 36524 - dayOfCycle / 146096) / 365
  let dayOfYear := dayOfCycle - (365 * yearOfCycle + yearOfCycle / 4 - yearOfCycle / 100)
  let month := (5 * dayOfYear + 2) / 153
  let day := dayOfYear - (153 * month + 2) / 5 + 1
  let year := yearOfCycle + 400 * cycle
  if month < 10 then ⟨year, (month + 3).toNat, day.toNat⟩
  else ⟨year + 1, (month - 9).toNat, day.toNat⟩

/-- The day of the week of a numbered day, from 0 for Sunday. -/
def weekday (days : Int) : Nat :=
  ((days + 4) % 7).toNat

end Date
end RenewalDrive
