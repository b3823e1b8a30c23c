import Mathlib.Tactic
import SqlWire.Calendar.Date

/-!
# Counting the days of the calendar

`CivilDate.next` is the day after a day, by the lengths of the months alone.  Day numbers go
through a year that begins in March instead: `daysBefore` counts the days of the years before
it, `yearDay` those since its beginning, and `julianDay_eq` takes a day number apart into the
two.  `julianDay_next` says that the two ways agree: the next day has the next number.  Day by
day, every number from the first on is that of a day of the calendar
(`exists_julianDay_eq`).
-/

namespace SqlWire

namespace CivilDate

variable {c : CivilDate}

/-! ### Years that begin in March -/

/-- The year that has begun in March, counted from that of the year -4800. -/
def marchYear (c : CivilDate) : Int := if 2 < c.month then c.year + 4800 else c.year + 4799

/-- The number of the month in that year: March has 4, and February 15. -/
def monthIndex (c : CivilDate) : Nat := if 2 < c.month then c.month + 1 else c.month + 13

/-- The number of the day in that year: the first of March has 123. -/
def yearDay (c : CivilDate) : Nat := 7834 * c.monthIndex / 256 + c.day

/-- The days of the years before a year. -/
def daysBefore (y : Int) : Int := y * 365 + (y / 4 - y / 100 + y / 100 / 4)

theorem julianDay_eq (c : CivilDate) :
    c.julianDay = daysBefore c.marchYear + c.yearDay - 32167 := by
  simp only [julianDay, daysBefore, marchYear, monthIndex, yearDay]
  omega

/-- The leap day of a year is the last day of the year that has begun in the March before. -/
theorem daysBefore_succ (y : Int) :
    daysBefore (y + 4800) = daysBefore (y + 4799) + if IsLeap y then 366 else 365 := by
  unfold daysBefore
  by_cases hleap : IsLeap y
  · rw [if_pos hleap]
    unfold IsLeap at hleap
    omega
  · rw [if_neg hleap]
    unfold IsLeap at hleap
    omega

/-! ### The next day -/

/-- The day after: the next one of the month, or the first one of the next month. -/
def next (c : CivilDate) : CivilDate :=
  if c.day < daysInMonth c.year c.month then ⟨c.year, c.month, c.day + 1⟩
  else if c.month < 12 then ⟨c.year, c.month + 1, 1⟩
  else ⟨c.year + 1, 1, 1⟩

theorem daysInMonth_pos (year : Int) {month : Nat} (hfirst : 1 ≤ month) (hlast : month ≤ 12) :
    0 < daysInMonth year month := by
  unfold daysInMonth
  split_ifs <;> omega

/-- No month is longer than in a leap year, as the year 0 is. -/
theorem daysInMonth_le (year : Int) (month : Nat) :
    daysInMonth year month ≤ daysInMonth 0 month := by
  unfold daysInMonth
  rw [if_pos (show IsLeap 0 by decide)]
  split_ifs <;> omega

theorem IsValid.next (h : c.IsValid) : c.next.IsValid := by
  obtain ⟨hfirst, hlast, hpos, -⟩ := h
  unfold CivilDate.next
  split_ifs with hday hmonth
  · exact ⟨hfirst, hlast, Nat.succ_pos _, hday⟩
  · exact ⟨Nat.succ_pos _, hmonth, le_rfl, daysInMonth_pos _ (Nat.succ_pos _) hmonth⟩
  · have hdecember : 1 ≤ 12 := by decide
    exact ⟨le_rfl, hdecember, le_rfl, daysInMonth_pos _ le_rfl hdecember⟩

/-- The steps of the count from month to month are the lengths of the months. -/
theorem julianDay_next_month (year : Int) {month : Nat} (hfirst : 1 ≤ month) (hlast : month < 12) :
    julianDay ⟨year, month + 1, 1⟩ = julianDay ⟨year, month, daysInMonth year month⟩ + 1 := by
  simp only [julianDay_eq, marchYear, monthIndex, yearDay, daysInMonth]
  by_cases hfebruary : month = 2
  · subst hfebruary
    have hyear := daysBefore_succ year
    by_cases hleap : IsLeap year
    · norm_num [hleap] at hyear ⊢
      omega
    · norm_num [hleap] at hyear ⊢
      omega
  · interval_cases month <;> simp at hfebruary ⊢ <;> omega

theorem julianDay_next_year (year : Int) :
    julianDay ⟨year + 1, 1, 1⟩ = julianDay ⟨year, 12, 31⟩ + 1 := by
  have hyear : year + 1 + 4799 = year + 4800 := by omega
  norm_num [julianDay_eq, marchYear, monthIndex, yearDay, hyear]
  omega

/-- **The next day has the next number**, in every year, month and part of the calendar. -/
theorem julianDay_next (h : c.IsValid) : c.next.julianDay = c.julianDay + 1 := by
  obtain ⟨year, month, day⟩ := c
  obtain ⟨hfirst, hlast, -, hle⟩ := h
  dsimp only at hfirst hlast hle
  simp only [next]
  split_ifs with hday hmonth
  · simp only [julianDay_eq, marchYear, monthIndex, yearDay]
    omega
  · obtain rfl : day = daysInMonth year month := by omega
    exact julianDay_next_month year hfirst hmonth
  · obtain rfl : month = 12 := by omega
    obtain rfl : day = 31 := by
      have hdays : daysInMonth year 12 = 31 := by simp [daysInMonth]
      omega
    exact julianDay_next_year year

theorem exists_julianDay_eq (number : Nat) :
    ∃ c : CivilDate, c.IsValid ∧ c.julianDay = number := by
  induction number with
  | zero => exact ⟨⟨-4713, 11, 24⟩, by decide, by decide⟩
  | succ number ih =>
    obtain ⟨c, hc, hnumber⟩ := ih
    exact ⟨c.next, hc.next, by rw [julianDay_next hc, hnumber, Nat.cast_succ]⟩

end CivilDate

end SqlWire
