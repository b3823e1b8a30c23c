import SqlWire.Bytes.Reader
import SqlWire.Catalog.DataType

/-!
# Scalars

A scalar type is one whose every value takes the same number of bytes.  Its
bytes carry no length of their own: whatever holds them supplies it, and bytes
of any other length are refused.
-/

namespace SqlWire

/-- A type whose values have a wire form of fixed length. -/
class Scalar (α : Type) where
  /-- The data type of the values. -/
  dataType : DataType
  encode : α → Bytes
  decode : Bytes → Except Error α

/-- A scalar type with a value that stands for a missing one. -/
class Sentinel (α : Type) extends Scalar α where
  sentinel : α

namespace Scalar

/-- The bytes, which have to be exactly `n`. -/
def exactly (typeName : String) (n : Nat) (bytes : Bytes) : Except Error Bytes :=
  let size := bytes.length
  if size < n then .error (.truncated typeName n size)
  else if n < size then .error (.invalidBinary typeName s!"expected {n} bytes, got {size}")
  else .ok bytes

theorem exactly_eq_ok {typeName : String} {n : Nat} {bytes : Bytes} (h : bytes.length = n) :
    exactly typeName n bytes = .ok bytes := by
  simp [exactly, h]

/-- The word whose bytes these have to be. -/
def decodeWord (α : Type) [Word α] (typeName : String) (bytes : Bytes) : Except Error α :=
  (exactly typeName (Word.width α) bytes).map (Word.ofBytes α)

/-- The value of the bytes, or the one that stands for a missing value when there are none. -/
def decodeOrSentinel (α : Type) [Sentinel α] : Option Bytes → Except Error α
  | some bytes => decode bytes
  | none => .ok Sentinel.sentinel

@[simp] theorem decodeWord_toBytes {α : Type} [Word α] (typeName : String) (x : α) :
    decodeWord α typeName (Word.toBytes x) = .ok x := by
  simp [decodeWord, exactly_eq_ok, Except.map]

end Scalar

end SqlWire
