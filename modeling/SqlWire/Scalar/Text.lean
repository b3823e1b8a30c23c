import SqlWire.Bytes.Text

/-!
# Texts and byte strings

A text travels as its bytes, with or without a zero byte behind it.  Reading
stops at the first zero byte, so both forms read as the same text.  No character
but the zero character has a zero byte, so a text without it is read back whole
(`decodeText_ofText`), and no other text is ever read.
-/

namespace SqlWire

namespace Bytes

/-- The bytes of a text, followed by a zero byte. -/
def ofTextTerminated (s : String) : Bytes := ofText s ++ [0]

/-- The text up to the first zero byte. -/
def decodeText (bytes : Bytes) : Except Error String :=
  match toText (bytes.takeWhile (· != 0)) with
  | .ok s => .ok s
  | .error fault => .error (.invalidBinary "text" ("invalid UTF-8: " ++ fault.message))

/-! ### Zero bytes -/

theorem zero_eq_ofNat_iff (n : Nat) : (0 : UInt8) = UInt8.ofNat n ↔ n % 256 = 0 := by
  rw [← UInt8.toNat_inj, UInt8.toNat_ofNat']
  exact eq_comm

theorem zero_mem_utf8EncodeChar_iff (c : Char) :
    (0 : UInt8) ∈ String.utf8EncodeChar c ↔ c = '\x00' := by
  have hchar : c = '\x00' ↔ c.val.toNat = 0 := by
    rw [← Char.val_inj, ← UInt32.toNat_inj]
    rfl
  rw [hchar]
  unfold String.utf8EncodeChar
  dsimp only
  repeat' split
  -- each byte of a longer form has its marker bits
  all_goals
    simp only [List.mem_cons, List.not_mem_nil, or_false, zero_eq_ofNat_iff]
    omega

theorem zero_mem_ofText_iff (s : String) : 0 ∈ ofText s ↔ '\x00' ∈ s.toList := by
  simp only [ofText_eq, List.mem_flatMap, zero_mem_utf8EncodeChar_iff, exists_eq_right]

theorem decodeText_eq_ok_iff (bytes : Bytes) (s : String) :
    decodeText bytes = .ok s ↔ bytes.takeWhile (· != 0) = ofText s := by
  unfold decodeText
  constructor
  · intro h
    split at h
    next s' hs =>
      cases h
      exact (ofText_of_toText_eq_ok hs).symm
    next => cases h
  · intro h
    rw [h, toText_ofText]

theorem decodeText_ofText {s : String} (h : '\x00' ∉ s.toList) :
    decodeText (ofText s) = .ok s := by
  have hne : ∀ b ∈ ofText s, (b != 0) = true := by
    intro b hb
    rw [bne_iff_ne]
    rintro rfl
    exact h ((zero_mem_ofText_iff s).1 hb)
  have hall : (ofText s ++ []).takeWhile (· != 0) = ofText s ++ [].takeWhile (· != 0) :=
    List.takeWhile_append_of_pos hne
  rw [decodeText_eq_ok_iff]
  simpa using hall

theorem zero_not_mem_of_decodeText {bytes : Bytes} {s : String} (h : decodeText bytes = .ok s) :
    '\x00' ∉ s.toList := by
  rw [← zero_mem_ofText_iff, ← (decodeText_eq_ok_iff bytes s).1 h]
  intro hmem
  have hne := List.all_eq_true.1 (List.all_takeWhile (p := (· != 0)) (l := bytes)) 0 hmem
  exact absurd hne (by decide)

end Bytes

end SqlWire
