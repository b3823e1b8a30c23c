import SqlWire.Bytes.Nullable
import SqlWire.Value.Basic

/-!
# Array elements

An element is a value that may be missing.  Its type is not written with it:
the header of the array says it for all of them.
-/

namespace SqlWire

namespace ArrayItem

/-- The element at the front of some bytes, and the bytes after it. -/
def decode (bytes : Bytes) : Except Error (Nullable × Bytes) := do
  let (item, r) ← Nullable.read
    (fun length => .invalidBinary "array" s!"invalid element length {length}")
    (Reader.start "array element" bytes)
  return (item, r.rest)

theorem decode_append {item : Nullable} (h : item.Fits) (rest : Bytes) :
    decode (item.encode ++ rest) = .ok (item, rest) := by
  rw [decode, Reader.start, Nullable.read_append _ _ _ h]
  rfl

theorem of_decode_eq_ok {bytes rest : Bytes} {item : Nullable}
    (h : decode bytes = .ok (item, rest)) : item.Fits ∧ bytes = item.encode ++ rest := by
  obtain ⟨⟨value, r⟩, hread, h⟩ := Except.bind_eq_ok_iff.1 h
  cases h
  exact Nullable.of_read_eq_ok hread

def value (t : DataType) : Nullable → Except Error (Option Value)
  | some bytes => (Value.decode t bytes).map some
  | none => .ok none

end ArrayItem

end SqlWire
