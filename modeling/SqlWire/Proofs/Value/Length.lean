import SqlWire.Proofs.Numeric.WireRoundTrip
import SqlWire.Value.Basic

/-!
# The length of a value is known beforehand

Records and parameter lists write or reserve the length of a value before its wire form is
made.  `length_of_encode` says that it is the right one.
-/

namespace SqlWire

theorem Bytes.length_ofText (s : String) : (ofText s).length = s.utf8ByteSize := by
  rw [ofText, Array.length_toList]
  rfl

theorem Value.length_of_encode {v : Value} {bytes : Bytes} (h : v.encode = .ok bytes) :
    bytes.length = v.encodedLength := by
  cases v with
  | numeric n =>
    obtain ⟨-, rfl⟩ := (Numeric.encode_eq_ok_iff n bytes).1 h
    exact n.length_wireForm
  | name s | text s | bpchar s | varchar s =>
    cases h
    exact Bytes.length_ofText s
  | interval i =>
    cases h
    exact i.length_encode
  | _ =>
    cases h
    rfl

end SqlWire
