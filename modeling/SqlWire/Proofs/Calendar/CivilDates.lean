import SqlWire.Proofs.Calendar.DayCount

/-!
# Dates are the days of the calendar

A day has its `Place` among the years that begin in March: the cycles of 400 years before it,
then in its cycle the centuries, in its century the groups of four years, and so on down to
the days.  `Place.InRange` is what makes a place unique, and it is where the leap years come
in: only a leap year has a day 365, and only the last century of a cycle ends with one.

`ofJulianDay` finds these parts again from the number of the day (`ofJulianDay_of_place`), by
divisions that are only right for places in range.  So it undoes `julianDay`
(`ofJulianDay_julianDay`), and since every number is that of a day, it is undone by it as well
(`julianDay_ofJulianDay`).

`Date.Names` is what a date and a day of the calendar have to do with each other.  The two
conversions are both this relation (`Date.ofCivil_eq_ok_iff`, `Date.toCivil?_eq_some_iff`), and
`Date.civil_dates_inverse` says where it is one to one.
-/

namespace SqlWire

namespace CivilDate

variable {c : CivilDate}

/-! ### The day in its year -/

theorem IsValid.monthIndex_bounds (h : c.IsValid) : 4 ≤ c.monthIndex ∧ c.monthIndex ≤ 15 := by
  obtain ⟨hfirst, hlast, -⟩ := h
  unfold monthIndex
  split_ifs <;> omega

theorem IsValid.yearDay_bounds (h : c.IsValid) : 7834 * c.monthIndex / 256 < c.yearDay ∧
    c.yearDay ≤ 7834 * (c.monthIndex + 1) / 256 ∧ c.yearDay ≤ 488 := by
  obtain ⟨year, month, day⟩ := c
  obtain ⟨hfirst, hlast, hpos, hle⟩ := h
  have hday := hle.trans (daysInMonth_le year month)
  dsimp only [yearDay, monthIndex] at *
  interval_cases month <;> norm_num [daysInMonth, IsLeap] at hday ⊢ <;> omega

theorem IsValid.late_iff (h : c.IsValid) : 429 ≤ c.yearDay ↔ c.month ≤ 2 := by
  obtain ⟨hlow, hhigh, -⟩ := h.yearDay_bounds
  obtain ⟨hfirst, hlast, -⟩ := h
  unfold monthIndex at hlow hhigh
  split_ifs at hlow hhigh <;> omega

/-- One fraction finds the month again from the number that the other has made of it. -/
theorem IsValid.monthIndex_of_yearDay (h : c.IsValid) :
    c.yearDay * 2141 / 65536 = c.monthIndex := by
  obtain ⟨hlow, hhigh, hlast⟩ := h.yearDay_bounds
  obtain ⟨hmarch, hfebruary⟩ := h.monthIndex_bounds
  interval_cases c.monthIndex <;> omega

theorem IsValid.month_of_monthIndex (h : c.IsValid) : (c.monthIndex + 10) % 12 + 1 = c.month := by
  obtain ⟨hfirst, hlast, -⟩ := h
  unfold monthIndex
  split_ifs <;> omega

theorem day_of_yearDay (c : CivilDate) : c.yearDay - 7834 * c.monthIndex / 256 = c.day :=
  Nat.add_sub_cancel_left _ _

theorem IsValid.isLeap_of_yearDay (h : c.IsValid) (hlast : c.yearDay = 488) : IsLeap c.year := by
  have hindex := h.monthIndex_of_yearDay
  have hmonth := h.month_of_monthIndex
  have hday := c.day_of_yearDay
  rw [← hindex, hlast] at hmonth hday
  by_contra hleap
  obtain ⟨-, -, -, hle⟩ := h
  rw [← hmonth, ← hday] at hle
  norm_num [daysInMonth, hleap] at hle

/-! ### The place of a day -/

/-- What has gone by since a first of March: cycles of 400 years, then centuries, groups of four
years, years and days. -/
structure Place where
  cycles : Nat
  century : Nat
  group : Nat
  year : Nat
  day : Nat

namespace Place

variable {p : Place}

def years (p : Place) : Nat := 400 * p.cycles + 100 * p.century + 4 * p.group + p.year

def days (p : Place) : Nat :=
  146097 * p.cycles + 36524 * p.century + 1461 * p.group + 365 * p.year + p.day

/-- No part is as much as one of the part before, and there is a day 365 only in a leap year, the
fourth of a group, but not of the last group in a century that is not the last of a cycle. -/
structure InRange (p : Place) : Prop where
  century_lt : p.century < 4
  group_lt : p.group < 25
  year_lt : p.year < 4
  day_lt : p.day < 365 ∨ p.day = 365 ∧ p.year = 3 ∧ (p.group ≠ 24 ∨ p.century = 3)

theorem InRange.daysBefore_years (h : p.InRange) : daysBefore p.years + p.day = p.days := by
  obtain ⟨cycles, century, group, year, day⟩ := p
  obtain ⟨hcentury, hgroup, hyear, -⟩ := h
  dsimp only [years, days, daysBefore] at *
  omega

theorem InRange.cycles_eq (h : p.InRange) : p.days / 146097 = p.cycles := by
  obtain ⟨cycles, century, group, year, day⟩ := p
  obtain ⟨hcentury, hgroup, hyear, hday⟩ := h
  dsimp only [days] at *
  omega

theorem InRange.century_eq (h : p.InRange) :
    ((p.days - p.cycles * 146097) * 4 + 3) / 146097 = p.century := by
  obtain ⟨cycles, century, group, year, day⟩ := p
  obtain ⟨hcentury, hgroup, hyear, hday⟩ := h
  dsimp only [days] at *
  omega

/-! #### Years that begin in January -/

/-- The day since the first of March, from the days since the first of January of a leap year and
the years among them. -/
def marchDay (year days : Nat) : Nat :=
  if year = 0 then (days + 306) % 366 else (days + 305) % 365

/-- A group of four years may as well begin with the January of a leap year, 60 days earlier.  Days
from the 306th on are in the next year then, and those of the last year in the next group. -/
theorem exists_january {year day : Nat} (hyear : year < 4)
    (hday : day < 365 ∨ day = 365 ∧ year = 3) :
    ∃ groups days, 365 * year + day + 60 = 1461 * groups + days ∧ days < 1461 ∧
      days * 4 / 1461 + groups * 4 = year + (if day < 306 then 0 else 1) ∧
      marchDay (days * 4 / 1461) days = day := by
  by_cases hearly : day < 306
  · have hsame : (365 * year + day + 60) * 4 / 1461 = year := by omega
    refine ⟨0, 365 * year + day + 60, by omega, by omega, ?_⟩
    rw [hsame, if_pos hearly, marchDay]
    refine ⟨rfl, ?_⟩
    split_ifs <;> omega
  rw [if_neg hearly]
  by_cases hlast : year = 3
  · have hzero : (day - 306) * 4 / 1461 = 0 := by omega
    refine ⟨1, day - 306, by omega, by omega, ?_⟩
    rw [hzero, marchDay, if_pos rfl]
    omega
  · have hnext : (365 * year + day + 60) * 4 / 1461 = year + 1 := by omega
    refine ⟨0, 365 * year + day + 60, by omega, by omega, ?_⟩
    rw [hnext, marchDay, if_neg (Nat.succ_ne_zero year)]
    omega

/-- With the leap days that the centuries leave out, all groups of four years are alike. -/
theorem InRange.exists_january (h : p.InRange) : ∃ groups days,
    (p.days + 60 + p.cycles * 3 + p.century) / 1461 = groups ∧
    p.days + 60 + p.cycles * 3 + p.century - groups * 1461 = days ∧
    days * 4 / 1461 + groups * 4 = p.years + (if p.day < 306 then 0 else 1) ∧
    marchDay (days * 4 / 1461) days = p.day := by
  obtain ⟨cycles, century, group, year, day⟩ := p
  obtain ⟨-, -, hyear, hday⟩ := h
  obtain ⟨more, days, hsum, hlt, hyears, hmarch⟩ :=
    Place.exists_january hyear (hday.imp_right fun hleap => ⟨hleap.1, hleap.2.1⟩)
  have htotal : Place.days ⟨cycles, century, group, year, day⟩ + 60 + cycles * 3 + century =
      1461 * (100 * cycles + 25 * century + group + more) + days := by
    dsimp only [Place.days] at *
    omega
  refine ⟨100 * cycles + 25 * century + group + more, days, ?_, ?_, ?_, hmarch⟩
  · rw [htotal]
    omega
  · rw [htotal]
    omega
  · dsimp only [years] at *
    omega

end Place

theorem exists_place (h : c.IsValid) (hpos : 0 ≤ c.marchYear) :
    ∃ p : Place, p.InRange ∧ p.years = c.marchYear ∧ p.day + 123 = c.yearDay := by
  obtain ⟨hlow, -, hhigh⟩ := h.yearDay_bounds
  obtain ⟨hmarch, -⟩ := h.monthIndex_bounds
  obtain ⟨y, hy⟩ := Int.eq_ofNat_of_zero_le hpos
  refine ⟨⟨y / 400, y / 100 % 4, y / 4 % 25, y % 4, c.yearDay - 123⟩, ⟨?_, ?_, ?_, ?_⟩, ?_, ?_⟩
  · exact Nat.mod_lt _ (by decide)
  · exact Nat.mod_lt _ (by decide)
  · exact Nat.mod_lt _ (by decide)
  · dsimp only
    by_cases hlast : c.yearDay = 488
    · have hleap := h.isLeap_of_yearDay hlast
      have hlate := h.late_iff
      have hyear : c.year = y - 4799 := by
        rw [marchYear, if_neg (by omega)] at hy
        omega
      rw [IsLeap, hyear] at hleap
      omega
    · omega
  · rw [hy]
    dsimp only [Place.years]
    omega
  · dsimp only
    omega

/-! ### Numbers and days -/

theorem ofJulianDay_of_place {p : Place} (h : p.InRange) {number : Nat}
    (hnumber : number + 32044 = p.days) :
    ofJulianDay number =
      ⟨(p.years + (if p.day < 306 then 0 else 1) : Nat) - 4800,
        ((p.day + 123) * 2141 / 65536 + 10) % 12 + 1,
        p.day + 123 - 7834 * ((p.day + 123) * 2141 / 65536) / 256⟩ := by
  obtain ⟨groups, days, hgroups, hdays, hyears, hmarch⟩ := h.exists_january
  simp only [ofJulianDay, hnumber, h.cycles_eq, h.century_eq, hgroups, hdays, hyears]
  rw [← Place.marchDay, hmarch]

/-- **The day with the number of a day is that day.** -/
theorem ofJulianDay_julianDay (h : c.IsValid) {number : Nat} (hnumber : c.julianDay = number) :
    ofJulianDay number = c := by
  have hpos : 0 ≤ c.marchYear := by
    obtain ⟨-, -, hlast⟩ := h.yearDay_bounds
    rw [julianDay_eq, daysBefore] at hnumber
    omega
  obtain ⟨p, hp, hyears, hyearDay⟩ := exists_place h hpos
  have hdays : number + 32044 = p.days := by
    have hsum := hp.daysBefore_years
    rw [julianDay_eq, ← hyears, ← hyearDay] at hnumber
    omega
  have hyear : ((p.years + if p.day < 306 then 0 else 1 : Nat) : Int) - 4800 = c.year := by
    have hlate := h.late_iff
    rw [marchYear] at hyears
    split_ifs at hyears ⊢ <;> omega
  rw [ofJulianDay_of_place hp hdays, hyear, hyearDay, h.monthIndex_of_yearDay,
    h.month_of_monthIndex, day_of_yearDay]

/-- **Every number is that of a day of the calendar**, the one that is found for it. -/
theorem julianDay_ofJulianDay (number : Nat) :
    (ofJulianDay number).IsValid ∧ (ofJulianDay number).julianDay = number := by
  obtain ⟨c, hc, hnumber⟩ := exists_julianDay_eq number
  rw [ofJulianDay_julianDay hc hnumber]
  exact ⟨hc, hnumber⟩

theorem year_bounds (h : c.IsValid) (hpos : 0 ≤ c.julianDay) (hle : c.julianDay ≤ 2149935191) :
    -4713 ≤ c.year ∧ c.year ≤ 5881610 := by
  obtain ⟨hlow, -, hhigh⟩ := h.yearDay_bounds
  have hlate := h.late_iff
  rw [julianDay_eq, marchYear, daysBefore] at hpos hle
  split_ifs at hpos hle <;> omega

end CivilDate

namespace Date

variable {c : CivilDate} {d e : Date}

theorem eq_iff_toInt_eq : d = e ↔ d.days.toInt = e.days.toInt := by
  obtain ⟨days⟩ := d
  obtain ⟨others⟩ := e
  rw [Date.mk.injEq, Int32.toInt_inj]

theorem isFinite_iff : d.isFinite = true ↔ -2 ^ 31 < d.days.toInt ∧ d.days.toInt < 2 ^ 31 - 1 := by
  have hlow := d.days.le_toInt
  have hhigh := d.days.toInt_lt
  have hlast : infinity.days.toInt = 2 ^ 31 - 1 := rfl
  have hfirst : negInfinity.days.toInt = -2 ^ 31 := rfl
  rw [isFinite, Bool.and_eq_true, bne_iff_ne, bne_iff_ne, ne_eq, ne_eq, eq_iff_toInt_eq,
    eq_iff_toInt_eq, hlast, hfirst]
  omega

/-- The date and the day of the calendar are the same day. -/
structure Names (c : CivilDate) (d : Date) : Prop where
  isValid : c.IsValid
  isFinite : d.isFinite = true
  nonneg : 0 ≤ c.julianDay
  julianDay_eq : d.julianDay = c.julianDay

theorem names_ofInt (hvalid : c.IsValid) (hpos : 0 ≤ c.julianDay)
    (hlt : c.julianDay - 2451545 < 2 ^ 31 - 1) :
    Names c ⟨Int32.ofInt (c.julianDay - 2451545)⟩ := by
  have hdays : (Int32.ofInt (c.julianDay - 2451545)).toInt = c.julianDay - 2451545 :=
    Int32.toInt_ofInt_of_le (by omega) (by omega)
  refine ⟨hvalid, ?_, hpos, ?_⟩
  · rw [isFinite_iff, hdays]
    omega
  · rw [julianDay, hdays, epoch]
    omega

theorem ofCivil_eq_ok_iff : ofCivil c = .ok d ↔ Names c d := by
  have hlast : infinity.days.toInt = 2 ^ 31 - 1 := rfl
  have hfirst : negInfinity.days.toInt = -2 ^ 31 := rfl
  unfold ofCivil
  constructor
  · intro h
    dsimp only at h
    split_ifs at h with hvalid hrange
    rw [hlast, hfirst, epoch] at hrange
    cases h
    exact names_ofInt hvalid (by omega) (by omega)
  · rintro ⟨hvalid, hfinite, hpos, hnumber⟩
    rw [isFinite_iff] at hfinite
    rw [julianDay, epoch] at hnumber
    dsimp only
    rw [hlast, hfirst, epoch, if_neg (not_not.2 hvalid), if_neg (by omega), ← hnumber,
      Int.add_sub_cancel, Int32.ofInt_toInt]

theorem toCivil?_eq_some_iff : d.toCivil? = some c ↔ Names c d := by
  unfold toCivil?
  constructor
  · intro h
    split_ifs at h with hrange
    rw [Bool.and_eq_true, decide_eq_true_eq] at hrange
    obtain ⟨hvalid, hnumber⟩ := CivilDate.julianDay_ofJulianDay d.julianDay.toNat
    cases h
    exact ⟨hvalid, hrange.1, by omega, by omega⟩
  · rintro ⟨hvalid, hfinite, hpos, hnumber⟩
    have hday : CivilDate.ofJulianDay d.julianDay.toNat = c :=
      CivilDate.ofJulianDay_julianDay hvalid (by omega)
    rw [hday, if_pos]
    rw [hfinite, Bool.true_and, decide_eq_true_eq]
    omega

theorem Names.toInt_eq (h : Names c d) : d.days.toInt = c.julianDay - 2451545 := by
  have hnumber := h.julianDay_eq
  rw [julianDay, epoch] at hnumber
  omega

theorem exists_names_iff : (∃ d, Names c d) ↔
    c.IsValid ∧ 0 ≤ c.julianDay ∧ c.julianDay - 2451545 < 2 ^ 31 - 1 := by
  constructor
  · rintro ⟨d, h⟩
    exact ⟨h.isValid, h.nonneg, h.toInt_eq ▸ (isFinite_iff.1 h.isFinite).2⟩
  · rintro ⟨hvalid, hpos, hlt⟩
    exact ⟨_, names_ofInt hvalid hpos hlt⟩

theorem exists_names (hfinite : d.isFinite = true) (hfirst : -2451545 ≤ d.days.toInt) :
    ∃ c, Names c d := by
  have hpos : 0 ≤ d.julianDay := by
    rw [julianDay, epoch]
    omega
  obtain ⟨hvalid, hnumber⟩ := CivilDate.julianDay_ofJulianDay d.julianDay.toNat
  rw [Int.toNat_of_nonneg hpos] at hnumber
  exact ⟨_, hvalid, hfinite, by omega, hnumber.symm⟩

theorem Names.year_bounds (h : Names c d) : -4713 ≤ c.year ∧ c.year ≤ 5881610 := by
  have hlt := (isFinite_iff.1 h.isFinite).2
  have hdays := h.toInt_eq
  exact CivilDate.year_bounds h.isValid h.nonneg (by omega)

/-- **Dates and the days of the calendar are the same.**  A civil date has a date when the calendar
has that day and its number is one of a finite date, not before the first Julian day; that date is
finite and gives the civil date back.  From the first Julian day on, every finite date has a day of
the calendar, with a year of few digits, whose date it is; no other date has one. -/
theorem civil_dates_inverse :
    (∀ c : CivilDate, (∃ d, ofCivil c = .ok d) ↔
      c.IsValid ∧ 0 ≤ c.julianDay ∧ c.julianDay - 2451545 < 2 ^ 31 - 1) ∧
    (∀ (c : CivilDate) (d : Date), ofCivil c = .ok d → d.isFinite = true ∧ d.toCivil? = some c) ∧
    (∀ d : Date, d.isFinite = true → -2451545 ≤ d.days.toInt → ∃ c : CivilDate,
      d.toCivil? = some c ∧ c.IsValid ∧ (-4713 ≤ c.year ∧ c.year ≤ 5881610) ∧
        ofCivil c = .ok d) ∧
    ∀ d : Date, ¬(d.isFinite = true ∧ -2451545 ≤ d.days.toInt) → d.toCivil? = none := by
  refine ⟨fun c => ?_, fun c d h => ?_, fun d hfinite hfirst => ?_, fun d hnot => ?_⟩
  · simp only [ofCivil_eq_ok_iff, exists_names_iff]
  · have hnames := ofCivil_eq_ok_iff.1 h
    exact ⟨hnames.isFinite, toCivil?_eq_some_iff.2 hnames⟩
  · obtain ⟨c, hnames⟩ := exists_names hfinite hfirst
    exact ⟨c, toCivil?_eq_some_iff.2 hnames, hnames.isValid, hnames.year_bounds,
      ofCivil_eq_ok_iff.2 hnames⟩
  · rw [Option.eq_none_iff_forall_ne_some]
    intro c hc
    have hnames := toCivil?_eq_some_iff.1 hc
    have hdays := hnames.toInt_eq
    have hpos := hnames.nonneg
    exact hnot ⟨hnames.isFinite, by omega⟩

/-- The leap day of a year before the first, the last of its century and of a cycle of 400, and the
last finite date. -/
theorem civil_dates_of_leap_day_and_last :
    (∃ d : Date, ofCivil ⟨-400, 2, 29⟩ = .ok d ∧ d.isFinite = true ∧
      d.toCivil? = some ⟨-400, 2, 29⟩) ∧
    ∃ c : CivilDate, toCivil? ⟨2147483646⟩ = some c ∧ c.IsValid ∧ ofCivil c = .ok ⟨2147483646⟩ := by
  obtain ⟨hdates, hback, hcivil, -⟩ := civil_dates_inverse
  obtain ⟨d, hd⟩ := (hdates ⟨-400, 2, 29⟩).2 (by decide)
  obtain ⟨c, hc, hvalid, -, hdate⟩ := hcivil ⟨2147483646⟩ (by decide) (by decide)
  exact ⟨⟨d, hd, hback _ _ hd⟩, c, hc, hvalid, hdate⟩

end Date

end SqlWire
