import SqlWire.Bytes.Nullable
import SqlWire.Value.Basic

/-!
# Values from native ones

The types whose values are taken for values of a data type, and those numeric
codecs that go through floating point.
-/

namespace SqlWire

/-- A type each of whose values is a value of some data type. -/
class ToValue (α : Type) where
  toValue : α → Value

export ToValue (toValue)

instance : ToValue Bool := ⟨.bool⟩
instance : ToValue Int16 := ⟨.int2⟩
instance : ToValue Int32 := ⟨.int4⟩
instance : ToValue Int64 := ⟨.int8⟩
instance : ToValue Binary32 := ⟨.float4⟩
instance : ToValue Binary64 := ⟨.float8⟩
instance : ToValue String := ⟨.text⟩
instance : ToValue Bytes := ⟨.bytea⟩
instance : ToValue Numeric := ⟨.numeric⟩
instance : ToValue Date := ⟨.date⟩
instance : ToValue ZonedTimestamp := ⟨.timestamptz⟩

namespace Numeric

/-- The wire form of the numeric of a floating-point number. -/
def encodeBinary64 (x : Binary64) : Except Error Bytes := ofBinary64 x >>= encode

/-- The floating-point number of a numeric in wire form, made to conform to a type modifier; the
value that stands for a missing number when there are no bytes. -/
def decodeBinary64 (word : Int32) : Nullable → Except Error Binary64
  | some bytes => (decodeConforming bytes word).map toBinary64
  | none => .ok Sentinel.sentinel

end Numeric

end SqlWire
