import SqlWire.Calendar.Date

/-!
# Times of day

A time of day is a number of microseconds since midnight, from 0 to the whole
length of a day: 24:00:00 is a time of its own.  The fields of any other number
are those of its remainder within a day.  A zoned time adds how many seconds
its zone lies west of UTC.
-/

namespace SqlWire

/-- Microseconds since midnight. -/
structure TimeOfDay where
  micros : Int64
  deriving Repr, DecidableEq, Inhabited

namespace TimeOfDay

/-- How many microseconds a second has. -/
def microsPerSecond : Nat := 1000000

def microsPerDay : Nat := 86400 * microsPerSecond

/-- The hour, minute, second and microsecond of a time. -/
structure Fields where
  hour : Nat
  minute : Nat
  second : Nat
  micro : Nat
  deriving Repr, DecidableEq, Inhabited

namespace Fields

/-- The fields are those of a time of day, 24:00:00 included. -/
def IsValid (f : Fields) : Prop :=
  f.minute < 60 ∧ f.second < 60 ∧ f.micro < microsPerSecond ∧
    (f.hour < 24 ∨ f.hour = 24 ∧ f.minute = 0 ∧ f.second = 0 ∧ f.micro = 0)

instance (f : Fields) : Decidable f.IsValid := by unfold IsValid; infer_instance

/-- The microseconds that the fields count. -/
def micros (f : Fields) : Nat :=
  ((f.hour * 60 + f.minute) * 60 + f.second) * microsPerSecond + f.micro

def text (f : Fields) : String :=
  zeroPadded 2 f.hour ++ ":" ++ zeroPadded 2 f.minute ++ ":" ++ zeroPadded 2 f.second ++ "." ++
    zeroPadded 6 f.micro

end Fields

/-- The time that the fields name. -/
def ofFields (f : Fields) : Except Error TimeOfDay :=
  if f.IsValid then .ok ⟨Int64.ofInt f.micros⟩ else .error (.outOfRange "time" f.text)

/-- The microseconds within the day.  The end of a day is not the start of the next. -/
def dayMicros (t : TimeOfDay) : Nat :=
  if t.micros.toInt = microsPerDay then microsPerDay else (t.micros.toInt % microsPerDay).toNat

def hour (t : TimeOfDay) : Nat := t.dayMicros / (3600 * microsPerSecond)

def minute (t : TimeOfDay) : Nat := t.dayMicros / (60 * microsPerSecond) % 60

def second (t : TimeOfDay) : Nat := t.dayMicros / microsPerSecond % 60

def micro (t : TimeOfDay) : Nat := t.dayMicros % microsPerSecond

def fields (t : TimeOfDay) : Fields := ⟨t.hour, t.minute, t.second, t.micro⟩

/-- The time of a number of microseconds that has to lie within a day. -/
def checked (typeName : String) (micros : Int64) : Except Error TimeOfDay :=
  if 0 ≤ micros.toInt ∧ micros.toInt ≤ microsPerDay then .ok ⟨micros⟩
  else .error (.invalidBinary typeName "time out of range")

/-- The time lies within a day, from its start to its end. -/
def WithinDay (t : TimeOfDay) : Prop := 0 ≤ t.micros.toInt ∧ t.micros.toInt ≤ microsPerDay

theorem checked_eq_ok_iff (typeName : String) (micros : Int64) (t : TimeOfDay) :
    checked typeName micros = .ok t ↔ t.micros = micros ∧ t.WithinDay := by
  unfold checked
  constructor
  · intro h
    split at h
    next hday =>
      cases h
      exact ⟨rfl, hday⟩
    next => cases h
  · rintro ⟨rfl, hday⟩
    exact if_pos hday

end TimeOfDay

instance : Scalar TimeOfDay where
  dataType := .time
  encode t := Word.toBytes t.micros
  decode bytes := Scalar.decodeWord Int64 "time" bytes >>= TimeOfDay.checked "time"

/-! ### Zoned times -/

/-- A time of day, and how many seconds its zone lies west of UTC. -/
structure ZonedTime where
  time : TimeOfDay
  zone : Int32
  deriving Repr, DecidableEq, Inhabited

namespace ZonedTime

def typeName : String := "time with time zone"

/-- The farthest that a zone lies from UTC. -/
def maxZone : Int := (15 * 60 + 59) * 60

def encode (t : ZonedTime) : Bytes := Word.toBytes t.time.micros ++ Word.toBytes t.zone

def decode (bytes : Bytes) : Except Error ZonedTime := do
  let bytes ← Scalar.exactly typeName 12 bytes
  let (micros, r) ← (Reader.start typeName bytes).read Int64
  let time ← TimeOfDay.checked typeName micros
  let (zone, _) ← r.read Int32
  let seconds := zone.toInt
  if seconds < -maxZone ∨ maxZone < seconds then
    throw (.invalidBinary typeName s!"time zone displacement {seconds} out of range")
  return ⟨time, zone⟩

/-- The time lies within a day, and its zone not too far from UTC. -/
structure Acceptable (t : ZonedTime) : Prop where
  withinDay : t.time.WithinDay
  le_zone : -maxZone ≤ t.zone.toInt
  zone_le : t.zone.toInt ≤ maxZone

theorem decode_encode {t : ZonedTime} (h : t.Acceptable) : decode t.encode = .ok t := by
  have hlength : t.encode.length = 12 := by simp [encode, Word.width]
  have htime : TimeOfDay.checked typeName t.time.micros = .ok t.time :=
    (TimeOfDay.checked_eq_ok_iff _ _ _).2 ⟨rfl, h.withinDay⟩
  have hzone : ¬(t.zone.toInt < -maxZone ∨ maxZone < t.zone.toInt) := by
    have hle := h.le_zone
    have hge := h.zone_le
    omega
  rw [decode, Scalar.exactly_eq_ok hlength]
  simp only [encode, Reader.start, bind, Except.bind, Reader.read_append, Reader.read_toBytes,
    htime, if_neg hzone]
  rfl

theorem acceptable_of_decode {bytes : Bytes} {t : ZonedTime} (h : decode bytes = .ok t) :
    t.Acceptable := by
  obtain ⟨exact, -, h⟩ := Except.bind_eq_ok_iff.1 h
  obtain ⟨⟨micros, r₁⟩, -, h⟩ := Except.bind_eq_ok_iff.1 h
  obtain ⟨time, htime, h⟩ := Except.bind_eq_ok_iff.1 h
  obtain ⟨⟨zone, r₂⟩, -, h⟩ := Except.bind_eq_ok_iff.1 h
  by_cases hzone : zone.toInt < -maxZone ∨ maxZone < zone.toInt
  · simp only [if_pos hzone] at h
    cases h
  · simp only [if_neg hzone] at h
    cases h
    rw [not_or, Int.not_lt, Int.not_lt] at hzone
    exact ⟨((TimeOfDay.checked_eq_ok_iff _ _ _).1 htime).2, hzone.1, hzone.2⟩

end ZonedTime

instance : Scalar ZonedTime where
  dataType := .timetz
  encode := ZonedTime.encode
  decode := ZonedTime.decode

end SqlWire
