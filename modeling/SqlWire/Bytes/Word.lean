import SqlWire.Error

/-!
# Words on the wire

Every word travels most significant byte first.  `bigEndian w n` is the `w`-byte
form of a natural number and `Bytes.value` reads it back; `value_bigEndian` says
the trip keeps the number modulo `256 ^ w`.

A `Word` is a type whose values are numbers below `256 ^ width` in disguise:
signed words are their two's complement, floating-point words their bit
pattern.  `ofBytes_toBytes` is the law every codec in this library rests on, and
`toBytes_ofBytes` says that no other bytes spell a word.
-/

namespace SqlWire

-- powers are those of the core library, whatever else is in scope
attribute [local instance (2000)] instPowNat

/-- A run of bytes. -/
abbrev Bytes := List UInt8

namespace Bytes

/-- The `w` low bytes of `n`, most significant first. -/
def bigEndian : Nat → Nat → Bytes
  | 0, _ => []
  | w + 1, n => bigEndian w (n / 256) ++ [UInt8.ofNat n]

/-- The number that bytes spell, most significant first. -/
def value (bytes : Bytes) : Nat :=
  bytes.foldl (fun acc b => acc * 256 + b.toNat) 0

@[simp] theorem length_bigEndian (w n : Nat) : (bigEndian w n).length = w := by
  induction w generalizing n with
  | zero => rfl
  | succ w ih => simp [bigEndian, ih]

theorem value_append_byte (bytes : Bytes) (b : UInt8) :
    value (bytes ++ [b]) = value bytes * 256 + b.toNat := by
  simp [value, List.foldl_append]

/-- Reading a number back gives its low `w` bytes. -/
theorem value_bigEndian (w n : Nat) : value (bigEndian w n) = n % 256 ^ w := by
  induction w generalizing n with
  | zero => simp [bigEndian, value, Nat.mod_one]
  | succ w ih =>
    have hb : (UInt8.ofNat n).toNat = n % 256 := by simp
    rw [bigEndian, value_append_byte, ih, hb, Nat.pow_succ, Nat.mul_comm (256 ^ w) 256,
      Nat.mod_mul]
    omega

theorem value_lt (bytes : Bytes) : value bytes < 256 ^ bytes.length := by
  rw [← List.reverse_reverse bytes]
  induction bytes.reverse with
  | nil => decide
  | cons b bytes ih =>
    have hb := b.toNat_lt
    rw [List.reverse_cons, value_append_byte, List.length_append, List.length_singleton,
      Nat.pow_succ]
    omega

theorem bigEndian_value (bytes : Bytes) : bigEndian bytes.length (value bytes) = bytes := by
  rw [← List.reverse_reverse bytes]
  induction bytes.reverse with
  | nil => rfl
  | cons b bytes ih =>
    have hb := b.toNat_lt
    have hquotient : (value bytes.reverse * 256 + b.toNat) / 256 = value bytes.reverse := by omega
    have hbyte : UInt8.ofNat (value bytes.reverse * 256 + b.toNat) = b := by
      apply UInt8.toNat_inj.1
      rw [UInt8.toNat_ofNat']
      omega
    rw [List.reverse_cons, value_append_byte, List.length_append, List.length_singleton, bigEndian,
      hquotient, hbyte, ih]

/-- The most bytes a store in memory can hold. -/
def maxCapacity : Nat := 2 ^ (63 : Nat) - 1

/-- Room for `additional` bytes beside the `held` ones, if memory can be so large.  The size
refused is reported as a 64-bit number, which stays at its largest value. -/
def reserve (held additional : Nat) : Except Error Unit :=
  if held + additional ≤ maxCapacity then .ok ()
  else .error (.outOfMemory (min (held + additional) (2 ^ (64 : Nat) - 1)))

/-- Appends to a buffer a form that may have failed to be made; the buffer stays as it is then. -/
def appendForm (buffer : Bytes) (form : Except Error Bytes) : Except Error Unit × Bytes :=
  match form with
  | .ok bytes => (.ok (), buffer ++ bytes)
  | .error e => (.error e, buffer)

/-- Replaces the bytes from a position on, as many as the others are. -/
def overwrite (buffer : Bytes) (position : Nat) (bytes : Bytes) : Bytes :=
  buffer.take position ++ bytes ++ buffer.drop (position + bytes.length)

theorem overwrite_append (before : Bytes) {old bytes : Bytes} (h : old.length = bytes.length)
    (following : Bytes) :
    overwrite (before ++ (old ++ following)) before.length bytes =
      before ++ (bytes ++ following) := by
  have hdrop : (before ++ (old ++ following)).drop (before.length + bytes.length) = following := by
    rw [← List.drop_drop, List.drop_left, ← h, List.drop_left]
  rw [overwrite, List.take_left, hdrop, List.append_assoc]

end Bytes

/-! ### Floating-point words -/

/-- A 32-bit floating-point number, as its bit pattern. -/
structure Binary32 where
  bits : UInt32
  deriving Repr, DecidableEq, Inhabited

/-- A 64-bit floating-point number, as its bit pattern. -/
structure Binary64 where
  bits : UInt64
  deriving Repr, DecidableEq, Inhabited

/-! ### Words -/

/-- A type of words of a fixed number of bytes. -/
class Word (α : Type) where
  /-- How many bytes a word takes. -/
  width : Nat
  /-- The number whose big-endian bytes are the word's wire form. -/
  toNat : α → Nat
  /-- The word with those bytes. -/
  ofNat : Nat → α
  toNat_lt : ∀ x, toNat x < 256 ^ width
  ofNat_toNat : ∀ x, ofNat (toNat x) = x
  toNat_ofNat : ∀ n, n < 256 ^ width → toNat (ofNat n) = n

namespace Word

instance : Word UInt8 where
  width := 1
  toNat := UInt8.toNat
  ofNat := UInt8.ofNat
  toNat_lt x := x.toNat_lt
  ofNat_toNat _ := UInt8.ofNat_toNat
  toNat_ofNat _ h := UInt8.toNat_ofNat_of_lt h

instance : Word UInt16 where
  width := 2
  toNat := UInt16.toNat
  ofNat := UInt16.ofNat
  toNat_lt x := x.toNat_lt
  ofNat_toNat _ := UInt16.ofNat_toNat
  toNat_ofNat _ h := UInt16.toNat_ofNat_of_lt h

instance : Word UInt32 where
  width := 4
  toNat := UInt32.toNat
  ofNat := UInt32.ofNat
  toNat_lt x := x.toNat_lt
  ofNat_toNat _ := UInt32.ofNat_toNat
  toNat_ofNat _ h := UInt32.toNat_ofNat_of_lt h

instance : Word UInt64 where
  width := 8
  toNat := UInt64.toNat
  ofNat := UInt64.ofNat
  toNat_lt x := x.toNat_lt
  ofNat_toNat _ := UInt64.ofNat_toNat
  toNat_ofNat _ h := UInt64.toNat_ofNat_of_lt h

instance : Word Int16 where
  width := 2
  toNat x := x.toUInt16.toNat
  ofNat n := (UInt16.ofNat n).toInt16
  toNat_lt x := x.toUInt16.toNat_lt
  ofNat_toNat x := by simp
  toNat_ofNat n h := by simpa using h

instance : Word Int32 where
  width := 4
  toNat x := x.toUInt32.toNat
  ofNat n := (UInt32.ofNat n).toInt32
  toNat_lt x := x.toUInt32.toNat_lt
  ofNat_toNat x := by simp
  toNat_ofNat n h := by simpa using h

instance : Word Int64 where
  width := 8
  toNat x := x.toUInt64.toNat
  ofNat n := (UInt64.ofNat n).toInt64
  toNat_lt x := x.toUInt64.toNat_lt
  ofNat_toNat x := by simp
  toNat_ofNat n h := by simpa using h

instance : Word Binary32 where
  width := 4
  toNat x := x.bits.toNat
  ofNat n := ⟨UInt32.ofNat n⟩
  toNat_lt x := x.bits.toNat_lt
  ofNat_toNat x := by simp
  toNat_ofNat _ h := UInt32.toNat_ofNat_of_lt h

instance : Word Binary64 where
  width := 8
  toNat x := x.bits.toNat
  ofNat n := ⟨UInt64.ofNat n⟩
  toNat_lt x := x.bits.toNat_lt
  ofNat_toNat x := by simp
  toNat_ofNat _ h := UInt64.toNat_ofNat_of_lt h

variable {α : Type} [Word α]

/-- The wire form of a word. -/
def toBytes (x : α) : Bytes := Bytes.bigEndian (width α) (toNat x)

/-- The word that bytes spell. -/
def ofBytes (α : Type) [Word α] (bytes : Bytes) : α := ofNat bytes.value

@[simp] theorem length_toBytes (x : α) : (toBytes x).length = width α :=
  Bytes.length_bigEndian _ _

@[simp] theorem ofBytes_toBytes (x : α) : ofBytes α (toBytes x) = x := by
  rw [ofBytes, toBytes, Bytes.value_bigEndian, Nat.mod_eq_of_lt (toNat_lt x), ofNat_toNat]

theorem toBytes_ofBytes {bytes : Bytes} (h : bytes.length = width α) :
    toBytes (ofBytes α bytes) = bytes := by
  rw [toBytes, ofBytes, toNat_ofNat _ (h ▸ bytes.value_lt), ← h, Bytes.bigEndian_value]

end Word

end SqlWire
