import SqlWire.Calendar.TimeOfDay

/-!
# Timestamps

A timestamp is a number of microseconds since 2000-01-01 00:00:00; the largest
and the smallest are the two infinities.  `UnixTime` is the same moment as
seconds since 1970-01-01 00:00:00 and microseconds beyond.

Going to Unix time rounds the seconds down, so the microseconds are never
negative.  Coming from it, each step has to stay within 64 bits.
-/

namespace SqlWire

/-- Seconds since 1970-01-01 00:00:00, and microseconds beyond them. -/
structure UnixTime where
  seconds : Int64
  micros : Nat
  deriving Repr, DecidableEq, Inhabited

namespace UnixTime

/-- The second of 2000-01-01 00:00:00. -/
def epoch : Int := 946684800

/-- A number of microseconds that is no infinity. -/
def isFinite (micros : Int64) : Bool := micros != Int64.maxValue && micros != Int64.minValue

/-- The number, if it fits 64 bits. -/
def checked (n : Int) : Option Int :=
  if Int64.minValue.toInt ≤ n ∧ n ≤ Int64.maxValue.toInt then some n else none

/-- Microseconds since 2000.  None when a step on the way leaves 64 bits, or at an infinity. -/
def toMicros? (u : UnixTime) : Option Int64 := do
  let seconds ← checked (u.seconds.toInt - epoch)
  let whole ← checked (seconds * TimeOfDay.microsPerSecond)
  let micros ← checked (whole + u.micros)
  if isFinite (Int64.ofInt micros) then some (Int64.ofInt micros) else none

/-- The moment of a finite number of microseconds since 2000. -/
def ofMicros? (micros : Int64) : Option UnixTime :=
  if isFinite micros then
    some ⟨Int64.ofInt (epoch + micros.toInt / TimeOfDay.microsPerSecond),
      (micros.toInt % TimeOfDay.microsPerSecond).toNat⟩
  else none

/-- Microseconds since 2000, or why there are none. -/
def toMicros (typeName : String) (u : UnixTime) : Except Error Int64 :=
  if TimeOfDay.microsPerSecond ≤ u.micros then
    .error (.outOfRange typeName "microseconds out of range")
  else match u.toMicros? with
    | some micros => .ok micros
    | none => .error (.outOfRange typeName "timestamp out of range")

end UnixTime

/-- A moment of no known time zone. -/
structure Timestamp where
  micros : Int64
  deriving Repr, DecidableEq, Inhabited

namespace Timestamp

def typeName : String := "timestamp"

def isFinite (t : Timestamp) : Bool := UnixTime.isFinite t.micros

def ofUnix (u : UnixTime) : Except Error Timestamp := (u.toMicros typeName).map mk

def toUnix? (t : Timestamp) : Option UnixTime := UnixTime.ofMicros? t.micros

end Timestamp

instance : Scalar Timestamp where
  dataType := .timestamp
  encode t := Word.toBytes t.micros
  decode bytes := (Scalar.decodeWord Int64 Timestamp.typeName bytes).map Timestamp.mk

/-- A moment in UTC. -/
structure ZonedTimestamp where
  micros : Int64
  deriving Repr, DecidableEq, Inhabited

namespace ZonedTimestamp

def typeName : String := "timestamp with time zone"

def isFinite (t : ZonedTimestamp) : Bool := UnixTime.isFinite t.micros

def ofUnix (u : UnixTime) : Except Error ZonedTimestamp := (u.toMicros typeName).map mk

def toUnix? (t : ZonedTimestamp) : Option UnixTime := UnixTime.ofMicros? t.micros

end ZonedTimestamp

instance : Scalar ZonedTimestamp where
  dataType := .timestamptz
  encode t := Word.toBytes t.micros
  decode bytes := (Scalar.decodeWord Int64 ZonedTimestamp.typeName bytes).map ZonedTimestamp.mk

end SqlWire
