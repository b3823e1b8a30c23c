import SqlWire.Value.Basic

/-!
# Comparing values

Two values are the same when they have the same type and the same contents,
with one exception: floating-point numbers are compared as numbers.  So the two
zeros are the same, and a NaN is not even the same as itself.
-/

namespace SqlWire

namespace Binary32

/-- The bits without the sign. -/
def magnitude (x : Binary32) : UInt32 := x.bits &&& 0x7FFFFFFF

def isNaN (x : Binary32) : Bool := decide (0x7F800000 < x.magnitude)

/-- The two stand for the same number. -/
def sameNumber (x y : Binary32) : Bool :=
  !x.isNaN && !y.isNaN && (x.bits == y.bits || (x.magnitude == 0 && y.magnitude == 0))

end Binary32

namespace Binary64

/-- The bits without the sign. -/
def magnitude (x : Binary64) : UInt64 := x.bits &&& 0x7FFFFFFFFFFFFFFF

def isNaN (x : Binary64) : Bool := decide (0x7FF0000000000000 < x.magnitude)

/-- The two stand for the same number. -/
def sameNumber (x y : Binary64) : Bool :=
  !x.isNaN && !y.isNaN && (x.bits == y.bits || (x.magnitude == 0 && y.magnitude == 0))

end Binary64

namespace Value

/-- The two values are the same. -/
def same : Value → Value → Bool
  | float4 x, float4 y => x.sameNumber y
  | float8 x, float8 y => x.sameNumber y
  | v, w => v == w

end Value

end SqlWire
