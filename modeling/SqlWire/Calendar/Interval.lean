import SqlWire.Scalar.Basic

/-!
# Intervals

An interval keeps its months, days and microseconds apart, for none is a fixed
number of the next.
-/

namespace SqlWire

/-- A span of time. -/
structure Interval where
  micros : Int64
  days : Int32
  months : Int32
  deriving Repr, DecidableEq, Inhabited

namespace Interval

def typeName : String := "interval"

def encode (i : Interval) : Bytes :=
  Word.toBytes i.micros ++ Word.toBytes i.days ++ Word.toBytes i.months

def decode (bytes : Bytes) : Except Error Interval := do
  let bytes ← Scalar.exactly typeName 16 bytes
  let (micros, r) ← (Reader.start typeName bytes).read Int64
  let (days, r) ← r.read Int32
  let (months, _) ← r.read Int32
  return ⟨micros, days, months⟩

@[simp] theorem length_encode (i : Interval) : i.encode.length = 16 := by
  simp [encode, Word.width]

theorem decode_encode (i : Interval) : decode i.encode = .ok i := by
  rw [decode, Scalar.exactly_eq_ok i.length_encode]
  simp only [encode, Reader.start, bind, Except.bind, List.append_assoc, Reader.read_append,
    Reader.read_toBytes]
  rfl

end Interval

instance : Scalar Interval where
  dataType := .interval
  encode := Interval.encode
  decode := Interval.decode

end SqlWire
