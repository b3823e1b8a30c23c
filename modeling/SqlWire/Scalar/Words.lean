import SqlWire.Scalar.Basic

/-!
# Truth values, integers and floating-point numbers

Each travels as a word.  Reading takes any byte but zero for true, and looks at
the lowest bit alone of a single-bit string.
-/

namespace SqlWire

/-- A bit string of one bit. -/
structure Bit where
  isSet : Bool
  deriving Repr, DecidableEq, Inhabited

instance : Sentinel Bool where
  dataType := .bool
  encode b := [if b then 1 else 0]
  decode bytes := (Scalar.decodeWord UInt8 "boolean" bytes).map fun w => w != 0
  sentinel := false

instance : Sentinel Bit where
  dataType := .bit
  encode b := [if b.isSet then 1 else 0]
  decode bytes := (Scalar.decodeWord UInt8 "bit" bytes).map fun w => ⟨w &&& 1 != 0⟩
  sentinel := ⟨false⟩

instance : Sentinel Int16 where
  dataType := .int2
  encode := Word.toBytes
  decode := Scalar.decodeWord Int16 "smallint"
  sentinel := Int16.minValue

instance : Sentinel Int32 where
  dataType := .int4
  encode := Word.toBytes
  decode := Scalar.decodeWord Int32 "integer"
  sentinel := Int32.minValue

instance : Sentinel Int64 where
  dataType := .int8
  encode := Word.toBytes
  decode := Scalar.decodeWord Int64 "bigint"
  sentinel := Int64.minValue

instance : Sentinel UInt32 where
  dataType := .oid
  encode := Word.toBytes
  decode := Scalar.decodeWord UInt32 "oid"
  sentinel := 0xFFFFFFFF

/-- The least positive number of full precision stands for a missing one. -/
instance : Sentinel Binary32 where
  dataType := .float4
  encode := Word.toBytes
  decode := Scalar.decodeWord Binary32 "real"
  sentinel := ⟨0x00800000⟩

/-- The least positive number of full precision stands for a missing one. -/
instance : Sentinel Binary64 where
  dataType := .float8
  encode := Word.toBytes
  decode := Scalar.decodeWord Binary64 "double precision"
  sentinel := ⟨0x0010000000000000⟩

end SqlWire
