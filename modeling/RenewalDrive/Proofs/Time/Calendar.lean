import Mathlib.Tactic.IntervalCases
import RenewalDrive.Time.Calendar

/-!
# Numbered days

`Date.ofDays` gives the date with a number: it is one that the calendar has, and
`Date.toDays` gives the number back. A day is found by its place in a cycle of 400 years.
-/

namespace RenewalDrive

namespace Date

/-!
## Days of a cycle
-/

/-- The place of a day in a cycle of 400 years that begins in March: its century, its four
years within the century, its year within these, and its day within the year. The leap day
is the last one of four years, but not of a century other than the last one. -/
structure Place (dayOfCycle century four year day : Int) : Prop where
  sum : dayOfCycle = 36524 * century + 1461 * four + 365 * year + day
  century_nonneg : 0 ≤ century
  century_le : century ≤ 3
  four_nonneg : 0 ≤ four
  four_le : four ≤ 24
  year_nonneg : 0 ≤ year
  year_le : year ≤ 3
  day_nonneg : 0 ≤ day
  day_le : day ≤ 365
  leap : day = 365 -> year = 3 ∧ (four < 24 ∨ century = 3)

theorem exists_place {dayOfCycle : Int} (hnonneg : 0 ≤ dayOfCycle) (hlt : dayOfCycle < 146097) :
    exists century four year day, Place dayOfCycle century four year day := by
  let century := min (dayOfCycle / 36524) 3
  let dayOfCentury := dayOfCycle - 36524 * century
  let year := min (dayOfCentury % 1461 / 365) 3
  refine ⟨century, dayOfCentury / 1461, year, dayOfCentury % 1461 - 365 * year, ?_⟩
  constructor <;> omega

section

variable {dayOfCycle century four year day : Int}

/-- The number of days before March of a year is found by counting leap days off. -/
theorem Place.yearOfCycle_eq (h : Place dayOfCycle century four year day) :
    (dayOfCycle - dayOfCycle / 1460 + dayOfCycle / 36524 - dayOfCycle / 146096) / 365 =
      100 * century + 4 * four + year := by
  rcases h with ⟨hsum, hcentury, hcentury', hfour, hfour', hyear, hyear', hday, hday', hleap⟩
  have hfours : dayOfCycle / 1460 = 25 * century + four +
      (if 1460 ≤ 24 * century + four + 365 * year + day then 1 else 0) := by omega
  have hcenturies : dayOfCycle / 36524 = century +
      (if 36524 ≤ 1461 * four + 365 * year + day then 1 else 0) := by omega
  have hcycle : dayOfCycle / 146096 = if 146096 ≤ dayOfCycle then 1 else 0 := by omega
  rw [hfours, hcenturies, hcycle]
  omega

theorem Place.dayOfYear_eq (h : Place dayOfCycle century four year day) :
    dayOfCycle - (365 * (100 * century + 4 * four + year) + (100 * century + 4 * four + year) / 4 -
      (100 * century + 4 * four + year) / 100) = day := by
  rcases h with ⟨hsum, _, _, hfour, hfour', hyear, hyear', _, _, _⟩
  have hfours : (100 * century + 4 * four + year) / 4 = 25 * century + four := by omega
  have hcenturies : (100 * century + 4 * four + year) / 100 = century := by omega
  rw [hfours, hcenturies]
  omega

/-- A year that begins in March has a leap day at its end just if the calendar year in which
it ends has one. -/
theorem Place.isLeapYear (h : Place dayOfCycle century four year day) (hday : day = 365)
    (cycle : Int) : isLeapYear (100 * century + 4 * four + year + 400 * cycle + 1) = true := by
  rcases h with ⟨_, _, _, hfour, hfour', _, _, _, _, hleap⟩
  rcases hleap hday with ⟨rfl, hlast⟩
  simp only [Date.isLeapYear, Bool.and_eq_true, Bool.or_eq_true, decide_eq_true_eq, ne_eq]
  omega

end

/-!
## Dates
-/

/-- The date of a day that is numbered within a year which begins in March. -/
def ofDayOfYear (year day : Int) : Date :=
  if (5 * day + 2) / 153 < 10 then
    ⟨year, ((5 * day + 2) / 153 + 3).toNat,
      (day - (153 * ((5 * day + 2) / 153) + 2) / 5 + 1).toNat⟩
  else
    ⟨year + 1, ((5 * day + 2) / 153 - 9).toNat,
      (day - (153 * ((5 * day + 2) / 153) + 2) / 5 + 1).toNat⟩

theorem ofDays_eq (days : Int) :
    exists century four year day,
      Place ((days + epochDays) % 146097) century four year day ∧
      ofDays days = ofDayOfYear
        (100 * century + 4 * four + year + 400 * ((days + epochDays) / 146097)) day := by
  rcases exists_place (Int.emod_nonneg (days + epochDays) (by decide : (146097 : Int) ≠ 0))
    (Int.emod_lt_of_pos _ (by decide)) with ⟨century, four, year, day, hplace⟩
  refine ⟨century, four, year, day, hplace, ?_⟩
  simp only [ofDays, hplace.yearOfCycle_eq, hplace.dayOfYear_eq]
  rfl

theorem toDays_ofDayOfYear {year day : Int} (hnonneg : 0 ≤ day) (hle : day ≤ 365) :
    (ofDayOfYear year day).toDays =
      365 * year + year / 4 - year / 100 + year / 400 + day - epochDays := by
  have hmonth : 0 ≤ (5 * day + 2) / 153 ∧ (5 * day + 2) / 153 ≤ 11 := by omega
  unfold ofDayOfYear
  generalize hindex : (5 * day + 2) / 153 = month at hmonth ⊢
  rcases hmonth with ⟨hlow, hhigh⟩
  interval_cases month <;> norm_num [toDays] <;> omega

theorem year_ofDays (days : Int) :
    400 * ((days + epochDays) / 146097) ≤ (ofDays days).year ∧
      (ofDays days).year ≤ 400 * ((days + epochDays) / 146097) + 400 := by
  rcases ofDays_eq days with ⟨century, four, year, day, hplace, heq⟩
  rcases hplace with ⟨_, hcentury, hcentury', hfour, hfour', hyear, hyear', _, _, _⟩
  rw [heq]
  unfold ofDayOfYear
  split
  · dsimp only
    omega
  · dsimp only
    omega

theorem toDays_ofDays (days : Int) : (ofDays days).toDays = days := by
  rcases ofDays_eq days with ⟨century, four, year, day, hplace, heq⟩
  rw [heq, toDays_ofDayOfYear hplace.day_nonneg hplace.day_le]
  rcases hplace with ⟨hsum, _, _, hfour, hfour', hyear, hyear', _, _, _⟩
  generalize hcycle : (days + epochDays) / 146097 = cycle
  have hfours : (100 * century + 4 * four + year + 400 * cycle) / 4 =
      25 * century + four + 100 * cycle := by omega
  have hcenturies : (100 * century + 4 * four + year + 400 * cycle) / 100 =
      century + 4 * cycle := by omega
  have hcycles : (100 * century + 4 * four + year + 400 * cycle) / 400 = cycle := by omega
  rw [hfours, hcenturies, hcycles]
  omega

theorem valid_ofDayOfYear {year day : Int} (hnonneg : 0 ≤ day) (hle : day ≤ 365)
    (hleap : day = 365 -> isLeapYear (year + 1) = true) : (ofDayOfYear year day).Valid := by
  have hmonth : 0 ≤ (5 * day + 2) / 153 ∧ (5 * day + 2) / 153 ≤ 11 := by omega
  unfold ofDayOfYear
  generalize hindex : (5 * day + 2) / 153 = month at hmonth ⊢
  rcases hmonth with ⟨hlow, hhigh⟩
  interval_cases month
  case «11» =>
    norm_num [Valid, daysInMonth]
    by_cases hlast : day = 365
    · rw [hleap hlast, if_pos rfl]
      omega
    · split <;> omega
  all_goals
    norm_num [Valid, daysInMonth]
    omega

theorem valid_ofDays (days : Int) : (ofDays days).Valid := by
  rcases ofDays_eq days with ⟨century, four, year, day, hplace, heq⟩
  rw [heq]
  exact valid_ofDayOfYear hplace.day_nonneg hplace.day_le fun hday => hplace.isLeapYear hday _

end Date
end RenewalDrive
