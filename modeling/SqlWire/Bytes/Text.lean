import SqlWire.Bytes.Word

/-!
# Text as bytes

Text travels as UTF-8.  `ofText` and `toText` are the two directions, and
`toText_ofText` says that text survives the trip.  Bytes that are no UTF-8 are
refused with a `Utf8Fault`, which tells where the first ill-formed character
begins and how much of it could have begun a well-formed one.
-/

namespace SqlWire

/-- The first place where bytes stop being UTF-8. -/
structure Utf8Fault where
  /-- How many bytes before it are well-formed. -/
  validUpTo : Nat
  /-- How many bytes the ill-formed part has; none when the input ends inside a character that is
  well-formed so far. -/
  width : Option Nat
  deriving Repr, DecidableEq, Inhabited

namespace Utf8Fault

/-- The wording of a fault. -/
def message (f : Utf8Fault) : String :=
  let index := f.validUpTo
  match f.width with
  | some width => s!"invalid utf-8 sequence of {width} bytes from index {index}"
  | none => s!"incomplete utf-8 byte sequence from index {index}"

/-- What the first byte of a character demands: how many bytes follow it, and the bounds of the
first of them.  The bounds rule out overlong forms, surrogates and code points past the last. -/
structure Lead where
  tail : Nat
  low : UInt8
  high : UInt8
  deriving Repr, DecidableEq

/-- The demand of a first byte, if a character can begin with it. -/
def Lead.of (b : UInt8) : Option Lead :=
  if b < 0x80 then some ⟨0, 0x80, 0xBF⟩
  else if b < 0xC2 then none
  else if b < 0xE0 then some ⟨1, 0x80, 0xBF⟩
  else if b = 0xE0 then some ⟨2, 0xA0, 0xBF⟩
  else if b = 0xED then some ⟨2, 0x80, 0x9F⟩
  else if b < 0xF0 then some ⟨2, 0x80, 0xBF⟩
  else if b = 0xF0 then some ⟨3, 0x90, 0xBF⟩
  else if b < 0xF4 then some ⟨3, 0x80, 0xBF⟩
  else if b = 0xF4 then some ⟨3, 0x80, 0x8F⟩
  else none

/-- How many of the following bytes meet the demand, at most as many as it asks for. -/
def Lead.run (lead : Lead) (following : Bytes) : Nat :=
  match following.take lead.tail with
  | [] => 0
  | b :: rest =>
    if lead.low ≤ b ∧ b ≤ lead.high then
      1 + (rest.takeWhile fun c => decide (0x80 ≤ c ∧ c ≤ 0xBF)).length
    else 0

/-- The first fault in bytes of which `position` well-formed ones have gone before. -/
def find (position : Nat) : Bytes → Option Utf8Fault
  | [] => none
  | b :: rest =>
    match Lead.of b with
    | none => some ⟨position, some 1⟩
    | some lead =>
      let run := lead.run rest
      if run = lead.tail then find (position + 1 + run) (rest.drop run)
      else if run = rest.length then some ⟨position, none⟩
      else some ⟨position, some (1 + run)⟩
  termination_by bytes => bytes.length
  decreasing_by
    simp only [List.length_drop, List.length_cons]
    omega

end Utf8Fault

namespace Bytes

/-- The bytes of a text. -/
def ofText (s : String) : Bytes := s.toByteArray.data.toList

/-- The text that bytes spell. -/
def toText (bytes : Bytes) : Except Utf8Fault String :=
  match String.fromUTF8? ⟨bytes.toArray⟩ with
  | some s => .ok s
  | none => .error ((Utf8Fault.find 0 bytes).getD ⟨bytes.length, none⟩)

@[simp] theorem toText_ofText (s : String) : toText (ofText s) = .ok s := by
  have hb : (⟨(ofText s).toArray⟩ : ByteArray) = s.toByteArray := by simp [ofText]
  have h : String.fromUTF8? ⟨(ofText s).toArray⟩ = some s := by
    rw [hb, String.fromUTF8?, dif_pos s.isValidUTF8]
    rfl
  rw [toText, h]

theorem ofText_of_toText_eq_ok {bytes : Bytes} {s : String} (h : toText bytes = .ok s) :
    ofText s = bytes := by
  unfold toText String.fromUTF8? at h
  split at h
  next s' hs =>
    cases h
    split at hs
    · cases hs
      rfl
    · cases hs
  next => cases h

theorem ofText_eq (s : String) : ofText s = s.toList.flatMap String.utf8EncodeChar := by
  rw [ofText, ← String.utf8Encode_toList, List.utf8Encode, List.toList_data_toByteArray]

end Bytes

end SqlWire
