import SqlWire.Bytes.Nullable
import SqlWire.Value.Basic

/-!
# Record columns

A column of a record is the type of its value and the value, which may be
missing.
-/

namespace SqlWire

/-- A column of a record. -/
structure Column where
  oid : Oid
  data : Nullable
  deriving Repr, DecidableEq, Inhabited

namespace Column

def encode (c : Column) : Bytes := Word.toBytes c.oid ++ c.data.encode

/-- The column at the front of some bytes, and the bytes after it. -/
def decode (bytes : Bytes) : Except Error (Column × Bytes) := do
  let (oid, r) ← (Reader.start "record column" bytes).read Oid
  let (data, r) ← r |> Nullable.read fun length =>
    .invalidBinary "record" s!"invalid column length {length}"
  return (⟨oid, data⟩, r.rest)

theorem decode_append {c : Column} (h : c.data.Fits) (rest : Bytes) :
    decode (c.encode ++ rest) = .ok (c, rest) := by
  rw [decode, Reader.start, encode, List.append_assoc, Reader.read_append]
  simp only [bind, Except.bind, Nullable.read_append _ _ _ h]
  rfl

theorem of_decode_eq_ok {bytes rest : Bytes} {c : Column} (h : decode bytes = .ok (c, rest)) :
    c.data.Fits ∧ bytes = c.encode ++ rest := by
  obtain ⟨⟨oid, r₁⟩, hoid, h⟩ := Except.bind_eq_ok_iff.1 h
  obtain ⟨⟨data, r₂⟩, hdata, h⟩ := Except.bind_eq_ok_iff.1 h
  cases h
  obtain ⟨hfits, hrest⟩ := Nullable.of_read_eq_ok hdata
  refine ⟨hfits, ?_⟩
  rw [encode, List.append_assoc, ← hrest]
  exact Reader.rest_of_read hoid

def value (c : Column) : Except Error (Option Value) :=
  match c.data with
  | some bytes => (Value.decodeOid c.oid bytes).map some
  | none => .ok none

end Column

end SqlWire
