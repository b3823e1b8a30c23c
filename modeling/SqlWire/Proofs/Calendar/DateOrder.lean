import SqlWire.Proofs.Calendar.CivilDates

/-!
# Dates in calendar order

Days of the calendar come in the order of their years, then of their months, then of their days.
`next` is the step of this order: between a day and the next there is no other
(`IsValid.next_eq_or_next_lt`).  So a later day is reached in some number of steps
(`exists_iterate_next`), and as each step adds one to the day number, a later day has a greater
number (`julianDay_lt_iff`).  Dates are in the order of their own numbers, which makes it the same
order (`Names.lt_iff`).
-/

namespace SqlWire

namespace CivilDate

variable {c d : CivilDate}

/-- The order of the calendar: by year, then by month, then by day. -/
instance : LT CivilDate where
  lt c d := c.year < d.year ∨
    c.year = d.year ∧ (c.month < d.month ∨ c.month = d.month ∧ c.day < d.day)

instance (c d : CivilDate) : Decidable (c < d) := inferInstanceAs (Decidable (_ ∨ _))

theorem lt_iff : c < d ↔ c.year < d.year ∨
    c.year = d.year ∧ (c.month < d.month ∨ c.month = d.month ∧ c.day < d.day) :=
  Iff.rfl

theorem lt_trichotomy (c d : CivilDate) : c < d ∨ c = d ∨ d < c := by
  obtain ⟨year, month, day⟩ := c
  obtain ⟨year', month', day'⟩ := d
  simp only [lt_iff, CivilDate.mk.injEq]
  omega

/-! ### The step of the order -/

theorem IsValid.lt_next (h : c.IsValid) : c < c.next := by
  obtain ⟨-, hlast, -, -⟩ := h
  unfold CivilDate.next
  rw [lt_iff]
  split_ifs <;> dsimp only <;> omega

/-- Nothing comes between a day and the next. -/
theorem IsValid.next_eq_or_next_lt (hd : d.IsValid) (h : c < d) : c.next = d ∨ c.next < d := by
  obtain ⟨year, month, day⟩ := c
  obtain ⟨year', month', day'⟩ := d
  obtain ⟨hfirst, hlast, hpos, hle⟩ := hd
  have hsame : year = year' → month = month' → day' ≤ daysInMonth year month := by
    rintro rfl rfl
    exact hle
  dsimp only at hfirst hlast hpos
  simp only [lt_iff] at h
  simp only [CivilDate.next]
  -- behind the last day of a month there is no other of it, and behind December none of the year
  split_ifs with hday hmonth
  all_goals
    simp only [lt_iff, CivilDate.mk.injEq]
    omega

/-- The number of a day if every month had 32 days. -/
def slot (c : CivilDate) : Int := (c.year * 12 + c.month) * 32 + c.day

theorem IsValid.day_le (h : c.IsValid) : c.day ≤ 31 := by
  obtain ⟨-, -, -, hle⟩ := h
  unfold daysInMonth at hle
  split_ifs at hle <;> omega

theorem slot_lt_of_lt (hc : c.IsValid) (hd : d.IsValid) (h : c < d) : c.slot < d.slot := by
  have hday := hc.day_le
  obtain ⟨hfirst, hlast, -, -⟩ := hc
  obtain ⟨hfirst', hlast', hpos', -⟩ := hd
  rw [lt_iff] at h
  unfold slot
  omega

theorem exists_iterate_next (hc : c.IsValid) (hd : d.IsValid) (h : c < d) :
    ∃ n, next^[n + 1] c = d := by
  -- the slots bound the steps, for each step goes to a greater one
  induction hgap : (d.slot - c.slot).toNat using Nat.strong_induction_on generalizing c with
  | _ gap ih =>
    rcases hd.next_eq_or_next_lt h with hnext | hlt
    · exact ⟨0, hnext⟩
    · have hstep := slot_lt_of_lt hc hc.next hc.lt_next
      have hrest := slot_lt_of_lt hc.next hd hlt
      obtain ⟨n, hn⟩ := ih _ (by omega) hc.next hlt rfl
      exact ⟨n + 1, hn⟩

theorem julianDay_iterate_next (hc : c.IsValid) (n : Nat) :
    (next^[n] c).julianDay = c.julianDay + n := by
  induction n generalizing c with
  | zero => simp
  | succ n ih =>
    rw [Function.iterate_succ_apply, ih hc.next, julianDay_next hc]
    omega

theorem julianDay_lt_of_lt (hc : c.IsValid) (hd : d.IsValid) (h : c < d) :
    c.julianDay < d.julianDay := by
  obtain ⟨n, rfl⟩ := exists_iterate_next hc hd h
  rw [julianDay_iterate_next hc]
  omega

/-- **A later day has a greater number**, and an earlier one a smaller. -/
theorem julianDay_lt_iff (hc : c.IsValid) (hd : d.IsValid) :
    c.julianDay < d.julianDay ↔ c < d := by
  refine ⟨fun h => ?_, julianDay_lt_of_lt hc hd⟩
  rcases lt_trichotomy c d with hlater | rfl | hearlier
  · exact hlater
  · exact absurd h (Int.lt_irrefl _)
  · exact absurd h (Int.lt_asymm (julianDay_lt_of_lt hd hc hearlier))

end CivilDate

namespace Date

variable {c c' : CivilDate} {d d' : Date}

/-- Dates are in the order of their days. -/
instance : LT Date := ⟨fun d e => d.days < e.days⟩

theorem lt_iff_toInt_lt : d < d' ↔ d.days.toInt < d'.days.toInt := Int32.lt_iff_toInt_lt

theorem Names.lt_iff (h : Names c d) (h' : Names c' d') : d < d' ↔ c < c' := by
  rw [lt_iff_toInt_lt, h.toInt_eq, h'.toInt_eq, ← CivilDate.julianDay_lt_iff h.isValid h'.isValid]
  omega

/-- **Day numbers count the days of the calendar.**  After each day of the calendar the next one
comes at once, and it has the next number; 2000-01-01 has the number 2451545.  So of any two days
the later has the greater number, and the dates of two days are in the order of the days. -/
theorem days_counted_in_order :
    (∀ c : CivilDate, c.IsValid → c.next.IsValid ∧ c < c.next ∧
      (∀ d : CivilDate, d.IsValid → c < d → c.next = d ∨ c.next < d) ∧
      c.next.julianDay = c.julianDay + 1) ∧
    CivilDate.julianDay ⟨2000, 1, 1⟩ = 2451545 ∧
    (∀ c d : CivilDate, c.IsValid → d.IsValid → (c.julianDay < d.julianDay ↔ c < d)) ∧
    ∀ (c c' : CivilDate) (d d' : Date), ofCivil c = .ok d → ofCivil c' = .ok d' →
      (d < d' ↔ c < c') := by
  refine ⟨fun c hc => ?_, by decide, fun c d hc hd => ?_, fun c c' d d' hd hd' => ?_⟩
  · exact ⟨hc.next, hc.lt_next, fun d hd => hd.next_eq_or_next_lt, CivilDate.julianDay_next hc⟩
  · exact CivilDate.julianDay_lt_iff hc hd
  · exact (ofCivil_eq_ok_iff.1 hd).lt_iff (ofCivil_eq_ok_iff.1 hd')

/-- The day after the leap day of the year 0, the turn of a year before -4800, and the turn to the
year 0. -/
theorem days_counted_across_years :
    CivilDate.julianDay ⟨0, 3, 1⟩ = CivilDate.julianDay ⟨0, 2, 29⟩ + 1 ∧
    CivilDate.julianDay ⟨-4801, 12, 31⟩ < CivilDate.julianDay ⟨-4800, 1, 1⟩ ∧
    ∃ d d' : Date, ofCivil ⟨-1, 12, 31⟩ = .ok d ∧ ofCivil ⟨0, 1, 1⟩ = .ok d' ∧ d < d' := by
  obtain ⟨hnext, -, hnumbers, hdates⟩ := days_counted_in_order
  have hleap := (hnext ⟨0, 2, 29⟩ (by decide)).2.2.2
  have hturn := (hnumbers ⟨-4801, 12, 31⟩ ⟨-4800, 1, 1⟩ (by decide) (by decide)).2 (by decide)
  have hlast : ofCivil ⟨-1, 12, 31⟩ = .ok ⟨-730486⟩ := rfl
  have hfirst : ofCivil ⟨0, 1, 1⟩ = .ok ⟨-730485⟩ := rfl
  exact ⟨hleap, hturn, _, _, hlast, hfirst, (hdates _ _ _ _ hlast hfirst).2 (by decide)⟩

end Date

end SqlWire
