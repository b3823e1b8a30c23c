import SqlWire.Bytes.Reader

/-!
# Values that may be missing

Array elements, record columns and copied fields all travel in one form: a
length word, then that many bytes.  A missing value has the length -1 and no
bytes, which keeps it apart from an empty one.  `read_append` says that what is
written is read back, for every length that fits the word, and `of_read_eq_ok`
that nothing else is read.
-/

namespace SqlWire

-- powers are those of the core library, whatever else is in scope
attribute [local instance (2000)] instPowNat

/-- The bytes of a value, or none when it is missing. -/
abbrev Nullable := Option Bytes

namespace Nullable

/-- The length word of a missing value. -/
def missing : Int32 := -1

/-- The length word. -/
def lengthWord : Nullable → Int32
  | none => missing
  | some bytes => Int32.ofNat bytes.length

/-- The length of a value fits the length word. -/
def Fits (value : Nullable) : Prop := ∀ bytes ∈ value, bytes.length < 2 ^ (31 : Nat)

instance (value : Nullable) : Decidable value.Fits :=
  inferInstanceAs (Decidable (∀ bytes ∈ value, _))

/-- The length word of so many bytes, unless they are too many for it. -/
def lengthWordOr (tooLong : Error) (length : Nat) : Except Error Int32 :=
  if length < 2 ^ (31 : Nat) then .ok (Int32.ofNat length) else .error tooLong

/-- The length word and the bytes. -/
def encode (value : Nullable) : Bytes := Word.toBytes value.lengthWord ++ value.getD []

/-- The next value.  A negative length other than that of a missing value is refused; `invalid`
makes the failure. -/
def read (invalid : Int → Error) (r : Reader) : Except Error (Nullable × Reader) := do
  let (word, r) ← r.read Int32
  if word = missing then return (none, r)
  let length := word.toInt
  if length < 0 then throw (invalid length)
  let (bytes, r) ← r.take length.toNat
  return (some bytes, r)

/-! ### Lengths that fit -/

section

variable {tooLong : Error} {bytes : Bytes}

theorem lengthWordOr_of_fits (h : Fits (some bytes)) :
    lengthWordOr tooLong bytes.length = .ok (lengthWord (some bytes)) := if_pos (h bytes rfl)

theorem lengthWordOr_of_not_fits (h : ¬ Fits (some bytes)) :
    lengthWordOr tooLong bytes.length = .error tooLong := by
  refine if_neg ?_
  intro hlength
  apply h
  rintro _ ⟨rfl⟩
  exact hlength

theorem toInt_of_lengthWordOr_eq_ok {length : Nat} {word : Int32}
    (h : lengthWordOr tooLong length = .ok word) : word.toInt = length := by
  unfold lengthWordOr at h
  split at h
  · next hlength =>
    cases h
    exact Int32.toInt_ofNat_of_lt hlength
  · cases h

end

/-! ### Reading back -/

theorem length_encode (value : Nullable) : value.encode.length = 4 + (value.getD []).length := by
  rw [encode, List.length_append, Word.length_toBytes]
  rfl

theorem read_lengthWord (invalid : Int → Error) (context : String) (position : Nat) {bytes : Bytes}
    (h : Fits (some bytes)) (rest : Bytes) :
    read invalid ⟨context, position, Word.toBytes (lengthWord (some bytes)) ++ rest⟩ =
      (Reader.take ⟨context, position + Word.width Int32, rest⟩ bytes.length).map
        fun (bytes, r) => (some bytes, r) := by
  have hlength : (lengthWord (some bytes)).toInt = bytes.length :=
    Int32.toInt_ofNat_of_lt (h bytes rfl)
  have hne : lengthWord (some bytes) ≠ missing := fun heq => by
    rw [heq, missing, show (-1 : Int32).toInt = -1 from rfl] at hlength
    omega
  have hneg : ¬(lengthWord (some bytes)).toInt < 0 := by omega
  have hnat : (lengthWord (some bytes)).toInt.toNat = bytes.length := by omega
  rw [read, Reader.read_append]
  simp only [bind, Except.bind, if_neg hne, if_neg hneg, hnat]
  cases Reader.take ⟨context, position + Word.width Int32, rest⟩ bytes.length <;> rfl

theorem read_append (invalid : Int → Error) (context : String) (position : Nat)
    {value : Nullable} (h : value.Fits) (rest : Bytes) :
    read invalid ⟨context, position, value.encode ++ rest⟩ =
      .ok (value, ⟨context, position + value.encode.length, rest⟩) := by
  rw [length_encode, encode, List.append_assoc]
  cases value with
  | none =>
    rw [read, Reader.read_append]
    rfl
  | some bytes =>
    rw [read_lengthWord _ _ _ h, Option.getD_some, Reader.take_append, ← Nat.add_assoc]
    rfl

theorem of_read_eq_ok {invalid : Int → Error} {r r' : Reader} {value : Nullable}
    (h : read invalid r = .ok (value, r')) : value.Fits ∧ r.rest = value.encode ++ r'.rest := by
  obtain ⟨⟨word, r₁⟩, hword, h⟩ := Except.bind_eq_ok_iff.1 h
  have hrest := Reader.rest_of_read hword
  by_cases hmissing : word = missing
  · simp only [hmissing, if_pos] at h hrest
    cases h
    exact ⟨nofun, hrest⟩
  by_cases hneg : word.toInt < 0
  · simp only [if_neg hmissing, if_pos hneg] at h
    cases h
  · simp only [if_neg hmissing, if_neg hneg] at h
    obtain ⟨⟨bytes, r₂⟩, htake, h⟩ := Except.bind_eq_ok_iff.1 h
    obtain ⟨hlength, htaken⟩ := Reader.rest_of_take htake
    cases h
    have hlt : word.toInt < 2 ^ (31 : Nat) := word.toInt_lt
    have hword : Int32.ofNat bytes.length = word := by
      apply Int32.toInt_inj.1
      rw [Int32.toInt_ofNat_of_lt (by omega)]
      omega
    refine ⟨?_, ?_⟩
    · rintro _ ⟨rfl⟩
      show bytes.length < 2 ^ (31 : Nat)
      omega
    · rw [hrest, htaken, encode, lengthWord, hword, Option.getD_some, List.append_assoc]

end Nullable

end SqlWire
