import Mathlib.Tactic
import SqlWire.Calendar.Timestamp

/-!
# Timestamps and Unix time

A Unix time and a number of microseconds since 2000 are the same moment (`UnixTime.Names`) when
the number is that of the Unix time, counted without bounds.  As the microseconds are fewer than a
second has, a moment has one Unix time, and `ofMicros?` finds it for each finite number
(`ofMicros?_eq_some_iff`).

The way back keeps to 64 bits in each step, and the whole seconds are one of the steps.  They are
rounded down, so those of the first finite moments lie below all numbers, though the moments do
not (`toMicros?_eq_some_iff`).  `unix_trip_except_first_second` says which moments come back from
their Unix time, and `unix_times_exact_in_order` that what comes back is right.
-/

namespace SqlWire

namespace UnixTime

variable {u v : UnixTime} {micros micros' : Int64} {typeName : String}

/-- Unix times are in the order of their seconds, and then of their microseconds. -/
instance : LT UnixTime where
  lt u v := u.seconds < v.seconds ∨ u.seconds = v.seconds ∧ u.micros < v.micros

theorem lt_iff : u < v ↔ u.seconds.toInt < v.seconds.toInt ∨
    u.seconds.toInt = v.seconds.toInt ∧ u.micros < v.micros := by
  rw [← Int64.lt_iff_toInt_lt, Int64.toInt_inj]
  rfl

/-- The microseconds from 2000-01-01 00:00:00 to the last whole second. -/
def wholeSinceEpoch (u : UnixTime) : Int := (u.seconds.toInt - 946684800) * 1000000

/-- The microseconds since 2000-01-01 00:00:00, counted without bounds. -/
def sinceEpoch (u : UnixTime) : Int := u.wholeSinceEpoch + u.micros

theorem isFinite_iff :
    isFinite micros = true ↔ -2 ^ 63 < micros.toInt ∧ micros.toInt < 2 ^ 63 - 1 := by
  have hlow := micros.le_toInt
  have hhigh := micros.toInt_lt
  have hlast : Int64.maxValue.toInt = 2 ^ 63 - 1 := rfl
  have hfirst : Int64.minValue.toInt = -2 ^ 63 := rfl
  rw [isFinite, Bool.and_eq_true, bne_iff_ne, bne_iff_ne, ne_eq, ne_eq, ← Int64.toInt_inj,
    ← Int64.toInt_inj, hlast, hfirst]
  omega

/-! ### The same moment -/

/-- The Unix time and the number of microseconds since 2000 are the same moment. -/
structure Names (u : UnixTime) (micros : Int64) : Prop where
  isFinite : isFinite micros = true
  micros_lt : u.micros < 1000000
  toInt_eq : micros.toInt = u.sinceEpoch

theorem ofMicros?_eq_some_iff : ofMicros? micros = some u ↔ Names u micros := by
  obtain ⟨seconds, rest⟩ := u
  have hlow := micros.le_toInt
  have hhigh := micros.toInt_lt
  have hseconds : (Int64.ofInt (946684800 + micros.toInt / 1000000)).toInt =
      946684800 + micros.toInt / 1000000 :=
    Int64.toInt_ofInt_of_le (by omega) (by omega)
  unfold ofMicros?
  simp only [epoch, TimeOfDay.microsPerSecond, Nat.cast_ofNat]
  constructor
  · intro h
    split_ifs at h with hfinite
    cases h
    refine ⟨hfinite, ?_, ?_⟩
    · dsimp only
      omega
    · simp only [sinceEpoch, wholeSinceEpoch, hseconds]
      omega
  · rintro ⟨hfinite, hlt, heq⟩
    rw [sinceEpoch, wholeSinceEpoch] at heq
    dsimp only at hlt heq
    rw [if_pos hfinite, Option.some.injEq, UnixTime.mk.injEq, ← Int64.toInt_inj, hseconds]
    omega

theorem Names.lt_iff (h : Names u micros) (h' : Names v micros') : micros < micros' ↔ u < v := by
  have hlt := h.micros_lt
  have hlt' := h'.micros_lt
  rw [Int64.lt_iff_toInt_lt, h.toInt_eq, h'.toInt_eq, UnixTime.lt_iff]
  unfold sinceEpoch wholeSinceEpoch
  omega

theorem exists_names_iff : (∃ micros, Names u micros) ↔
    u.micros < 1000000 ∧ -2 ^ 63 < u.sinceEpoch ∧ u.sinceEpoch < 2 ^ 63 - 1 := by
  constructor
  · rintro ⟨micros, hfinite, hlt, heq⟩
    exact ⟨hlt, heq ▸ isFinite_iff.1 hfinite⟩
  · rintro ⟨hlt, hlow, hhigh⟩
    have hmicros : (Int64.ofInt u.sinceEpoch).toInt = u.sinceEpoch :=
      Int64.toInt_ofInt_of_le (by omega) (by omega)
    refine ⟨Int64.ofInt u.sinceEpoch, ?_, hlt, hmicros⟩
    rw [isFinite_iff, hmicros]
    exact ⟨hlow, hhigh⟩

theorem exists_names (hfinite : isFinite micros = true) : ∃ u, Names u micros :=
  ⟨_, ofMicros?_eq_some_iff.1 (if_pos hfinite)⟩

/-! ### From Unix time -/

theorem checked_eq_some_iff {n m : Int} :
    checked n = some m ↔ n = m ∧ -2 ^ 63 ≤ n ∧ n ≤ 2 ^ 63 - 1 := by
  have hlast : Int64.maxValue.toInt = 2 ^ 63 - 1 := rfl
  have hfirst : Int64.minValue.toInt = -2 ^ 63 := rfl
  rw [checked, hlast, hfirst, Option.ite_none_right_eq_some, Option.some.injEq]
  exact and_comm

/-- Of the steps only that to the whole seconds can leave the numbers when the last one does not,
and only downwards. -/
theorem toMicros?_eq_some_iff : u.toMicros? = some micros ↔
    isFinite micros = true ∧ micros.toInt = u.sinceEpoch ∧ -2 ^ 63 ≤ u.wholeSinceEpoch := by
  simp only [toMicros?, Option.bind_eq_bind, Option.bind_eq_some_iff, checked_eq_some_iff, epoch,
    TimeOfDay.microsPerSecond, Nat.cast_ofNat]
  constructor
  · rintro ⟨seconds, ⟨rfl, -⟩, whole, ⟨rfl, hwhole, -⟩, sum, ⟨rfl, hlow, hhigh⟩, h⟩
    split_ifs at h with hfinite
    cases h
    exact ⟨hfinite, Int64.toInt_ofInt_of_le (by omega) (by omega), hwhole⟩
  · rintro ⟨hfinite, heq, hwhole⟩
    have hbounds := isFinite_iff.1 hfinite
    have hmicros : Int64.ofInt (u.wholeSinceEpoch + u.micros) = micros := by
      rw [← sinceEpoch, ← heq, Int64.ofInt_toInt]
    rw [heq, sinceEpoch] at hbounds
    rw [wholeSinceEpoch] at hwhole hmicros hbounds
    refine ⟨_, ⟨rfl, by omega, by omega⟩, _, ⟨rfl, hwhole, by omega⟩, _,
      ⟨rfl, by omega, by omega⟩, ?_⟩
    rw [hmicros, if_pos hfinite]

/-- **A Unix time has the number of its moment**, if its whole seconds do not lie below all
numbers. -/
theorem toMicros_eq_ok_iff : u.toMicros typeName = .ok micros ↔
    Names u micros ∧ -2 ^ 63 ≤ u.wholeSinceEpoch := by
  unfold toMicros
  rw [show TimeOfDay.microsPerSecond = 1000000 from rfl]
  constructor
  · intro h
    split_ifs at h with hmicros
    split at h
    next found hfound =>
      cases h
      obtain ⟨hfinite, heq, hwhole⟩ := toMicros?_eq_some_iff.1 hfound
      exact ⟨⟨hfinite, Nat.lt_of_not_le hmicros, heq⟩, hwhole⟩
    next => cases h
  · rintro ⟨⟨hfinite, hlt, heq⟩, hwhole⟩
    rw [if_neg (Nat.not_le.2 hlt), toMicros?_eq_some_iff.2 ⟨hfinite, heq, hwhole⟩]

theorem Names.wholeSinceEpoch_iff (h : Names u micros) :
    -2 ^ 63 ≤ u.wholeSinceEpoch ↔ -9223372036854000000 ≤ micros.toInt := by
  have hlt := h.micros_lt
  rw [h.toInt_eq]
  unfold sinceEpoch wholeSinceEpoch
  omega

/-- A number comes back from its Unix time, unless it lies in the second that the numbers begin
in. -/
theorem Names.toMicros_eq (h : Names u micros) (typeName : String) : u.toMicros typeName =
    if -9223372036854000000 ≤ micros.toInt then .ok micros
    else .error (.outOfRange typeName "timestamp out of range") := by
  by_cases hfirst : -9223372036854000000 ≤ micros.toInt
  · rw [if_pos hfirst]
    exact toMicros_eq_ok_iff.2 ⟨h, h.wholeSinceEpoch_iff.2 hfirst⟩
  · have hnone : u.toMicros? = none := by
      rw [Option.eq_none_iff_forall_ne_some]
      intro found hfound
      exact hfirst (h.wholeSinceEpoch_iff.1 (toMicros?_eq_some_iff.1 hfound).2.2)
    have hmicros : ¬ TimeOfDay.microsPerSecond ≤ u.micros := Nat.not_le.2 h.micros_lt
    rw [if_neg hfirst, toMicros, if_neg hmicros, hnone]

theorem exists_names_whole_iff : (∃ micros, Names u micros ∧ -2 ^ 63 ≤ u.wholeSinceEpoch) ↔
    u.micros < 1000000 ∧ -2 ^ 63 ≤ u.wholeSinceEpoch ∧ u.sinceEpoch < 2 ^ 63 - 1 := by
  have hwhole : -2 ^ 63 ≤ u.wholeSinceEpoch → -2 ^ 63 < u.sinceEpoch := by
    unfold sinceEpoch wholeSinceEpoch
    omega
  rw [exists_and_right, exists_names_iff]
  tauto

end UnixTime

/-! ### Timestamps -/

namespace Timestamp

variable {t : Timestamp} {u : UnixTime}

/-- Timestamps are in the order of their numbers. -/
instance : LT Timestamp := ⟨fun s t => s.micros < t.micros⟩

theorem ofUnix_eq_ok_iff :
    ofUnix u = .ok t ↔ u.Names t.micros ∧ -2 ^ 63 ≤ u.wholeSinceEpoch := by
  obtain ⟨micros⟩ := t
  simp only [ofUnix, Except.map_eq_ok_iff, Timestamp.mk.injEq, exists_eq_right,
    UnixTime.toMicros_eq_ok_iff]

theorem toUnix?_eq_some_iff : t.toUnix? = some u ↔ u.Names t.micros :=
  UnixTime.ofMicros?_eq_some_iff

end Timestamp

namespace ZonedTimestamp

variable {t : ZonedTimestamp} {u : UnixTime}

/-- Zoned timestamps are in the order of their numbers. -/
instance : LT ZonedTimestamp := ⟨fun s t => s.micros < t.micros⟩

theorem ofUnix_eq_ok_iff :
    ofUnix u = .ok t ↔ u.Names t.micros ∧ -2 ^ 63 ≤ u.wholeSinceEpoch := by
  obtain ⟨micros⟩ := t
  simp only [ofUnix, Except.map_eq_ok_iff, ZonedTimestamp.mk.injEq, exists_eq_right,
    UnixTime.toMicros_eq_ok_iff]

theorem toUnix?_eq_some_iff : t.toUnix? = some u ↔ u.Names t.micros :=
  UnixTime.ofMicros?_eq_some_iff

end ZonedTimestamp

/-- **Moments come back from their Unix time, except those of the first second.**  Each finite
timestamp has a Unix time, and comes back from it, unless it lies in the second that the numbers
begin in: there the whole seconds lie below all numbers, and the Unix time is refused.  Any Unix
time is taken just if its microseconds are fewer than a second has, its whole seconds do not lie
below all numbers, and both together lie below infinity. -/
theorem unix_trip_except_first_second (micros : Int64) (u : UnixTime) :
    (UnixTime.isFinite micros = true → ∃ v : UnixTime, v.micros < 1000000 ∧
      Timestamp.toUnix? ⟨micros⟩ = some v ∧ ZonedTimestamp.toUnix? ⟨micros⟩ = some v ∧
      Timestamp.ofUnix v = (if -9223372036854000000 ≤ micros.toInt then .ok ⟨micros⟩
        else .error (.outOfRange Timestamp.typeName "timestamp out of range")) ∧
      ZonedTimestamp.ofUnix v = (if -9223372036854000000 ≤ micros.toInt then .ok ⟨micros⟩
        else .error (.outOfRange ZonedTimestamp.typeName "timestamp out of range"))) ∧
    ((∃ t, Timestamp.ofUnix u = .ok t) ↔
      u.micros < 1000000 ∧ -2 ^ 63 ≤ u.wholeSinceEpoch ∧ u.sinceEpoch < 2 ^ 63 - 1) ∧
    ((∃ t, ZonedTimestamp.ofUnix u = .ok t) ↔
      u.micros < 1000000 ∧ -2 ^ 63 ≤ u.wholeSinceEpoch ∧ u.sinceEpoch < 2 ^ 63 - 1) := by
  rw [← UnixTime.exists_names_whole_iff]
  refine ⟨fun hfinite => ?_, ?_, ?_⟩
  · obtain ⟨v, hnames⟩ := UnixTime.exists_names hfinite
    refine ⟨v, hnames.micros_lt, Timestamp.toUnix?_eq_some_iff.2 hnames,
      ZonedTimestamp.toUnix?_eq_some_iff.2 hnames, ?_, ?_⟩
    · rw [Timestamp.ofUnix, hnames.toMicros_eq]
      split_ifs <;> rfl
    · rw [ZonedTimestamp.ofUnix, hnames.toMicros_eq]
      split_ifs <;> rfl
  · exact ⟨fun ⟨t, h⟩ => ⟨t.micros, Timestamp.ofUnix_eq_ok_iff.1 h⟩,
      fun ⟨micros, h⟩ => ⟨⟨micros⟩, Timestamp.ofUnix_eq_ok_iff.2 h⟩⟩
  · exact ⟨fun ⟨t, h⟩ => ⟨t.micros, ZonedTimestamp.ofUnix_eq_ok_iff.1 h⟩,
      fun ⟨micros, h⟩ => ⟨⟨micros⟩, ZonedTimestamp.ofUnix_eq_ok_iff.2 h⟩⟩

/-- The first whole second of the numbers, and the last microsecond before infinity. -/
theorem unix_trip_of_first_whole_second :
    UnixTime.isFinite (-9223372036854000000) = true ∧
    (∃ u, Timestamp.toUnix? ⟨-9223372036854000000⟩ = some u ∧
      Timestamp.ofUnix u = .ok ⟨-9223372036854000000⟩) ∧
    ∃ t, ZonedTimestamp.ofUnix ⟨9224318721654, 775806⟩ = .ok t := by
  have hfinite : UnixTime.isFinite (-9223372036854000000) = true := by decide
  obtain ⟨htrip, -, haccepted⟩ :=
    unix_trip_except_first_second (-9223372036854000000) ⟨9224318721654, 775806⟩
  obtain ⟨u, -, hunix, -, hback, -⟩ := htrip hfinite
  rw [if_pos (by decide)] at hback
  exact ⟨hfinite, ⟨u, hunix, hback⟩, haccepted.2 (by decide)⟩

/-- The first finite moment has a Unix time, which is refused, though both together are a finite
number. -/
theorem first_moment_refused :
    let t : Timestamp := ⟨-9223372036854775807⟩
    let u : UnixTime := ⟨-9222425352055, 224193⟩
    t.isFinite = true ∧ t.toUnix? = some u ∧ u.micros < 1000000 ∧
      (-2 ^ 63 < u.sinceEpoch ∧ u.sinceEpoch < 2 ^ 63 - 1) ∧
      Timestamp.ofUnix u = .error (.outOfRange "timestamp" "timestamp out of range") := by
  exact ⟨by decide, by decide, by decide, by decide, rfl⟩

/-- **What a Unix time is taken for is exact, and in order.**  A timestamp that comes from a Unix
time is finite, has exactly the microseconds of that since 2000, and gives it back; of two such
timestamps the first is earlier just if its Unix time is. -/
theorem unix_times_exact_in_order :
    (∀ (u : UnixTime) (t : Timestamp), Timestamp.ofUnix u = .ok t → t.isFinite = true ∧
      u.micros < 1000000 ∧ t.micros.toInt = u.sinceEpoch ∧ t.toUnix? = some u) ∧
    (∀ (u v : UnixTime) (s t : Timestamp), Timestamp.ofUnix u = .ok s →
      Timestamp.ofUnix v = .ok t → (s < t ↔ u < v)) ∧
    (∀ (u : UnixTime) (t : ZonedTimestamp), ZonedTimestamp.ofUnix u = .ok t → t.isFinite = true ∧
      u.micros < 1000000 ∧ t.micros.toInt = u.sinceEpoch ∧ t.toUnix? = some u) ∧
    ∀ (u v : UnixTime) (s t : ZonedTimestamp), ZonedTimestamp.ofUnix u = .ok s →
      ZonedTimestamp.ofUnix v = .ok t → (s < t ↔ u < v) := by
  refine ⟨fun u t h => ?_, fun u v s t hs ht => ?_, fun u t h => ?_, fun u v s t hs ht => ?_⟩
  · have hnames := (Timestamp.ofUnix_eq_ok_iff.1 h).1
    exact ⟨hnames.isFinite, hnames.micros_lt, hnames.toInt_eq,
      Timestamp.toUnix?_eq_some_iff.2 hnames⟩
  · exact (Timestamp.ofUnix_eq_ok_iff.1 hs).1.lt_iff (Timestamp.ofUnix_eq_ok_iff.1 ht).1
  · have hnames := (ZonedTimestamp.ofUnix_eq_ok_iff.1 h).1
    exact ⟨hnames.isFinite, hnames.micros_lt, hnames.toInt_eq,
      ZonedTimestamp.toUnix?_eq_some_iff.2 hnames⟩
  · exact (ZonedTimestamp.ofUnix_eq_ok_iff.1 hs).1.lt_iff (ZonedTimestamp.ofUnix_eq_ok_iff.1 ht).1

/-- Moments before 1970, of different seconds and of the same. -/
theorem unix_times_exact_before_1970 :
    (Timestamp.ofUnix ⟨-2, 250000⟩ = .ok ⟨-946684801750000⟩ ∧
      (⟨-946684801750000⟩ : Timestamp).toUnix? = some ⟨-2, 250000⟩) ∧
    (Timestamp.ofUnix ⟨-1, 1⟩ = .ok ⟨-946684800999999⟩ ∧
      (⟨-946684801750000⟩ : Timestamp) < ⟨-946684800999999⟩) ∧
    ZonedTimestamp.ofUnix ⟨-1, 2⟩ = .ok ⟨-946684800999998⟩ ∧
      ZonedTimestamp.ofUnix ⟨-1, 1⟩ = .ok ⟨-946684800999999⟩ ∧
      (⟨-946684800999999⟩ : ZonedTimestamp) < ⟨-946684800999998⟩ := by
  obtain ⟨hexact, horder, -, horderZoned⟩ := unix_times_exact_in_order
  have hearly : Timestamp.ofUnix ⟨-2, 250000⟩ = .ok ⟨-946684801750000⟩ := rfl
  have hnext : Timestamp.ofUnix ⟨-1, 1⟩ = .ok ⟨-946684800999999⟩ := rfl
  have hzoned : ZonedTimestamp.ofUnix ⟨-1, 1⟩ = .ok ⟨-946684800999999⟩ := rfl
  have hlater : ZonedTimestamp.ofUnix ⟨-1, 2⟩ = .ok ⟨-946684800999998⟩ := rfl
  have hseconds := (horder _ _ _ _ hearly hnext).2 (.inl (by decide))
  have hmicros := (horderZoned _ _ _ _ hzoned hlater).2 (.inr (by decide))
  exact ⟨⟨hearly, (hexact _ _ hearly).2.2.2⟩, ⟨hnext, hseconds⟩, hlater, hzoned, hmicros⟩

end SqlWire
