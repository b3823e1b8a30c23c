import SqlWire.Bytes.Nullable
import SqlWire.Catalog.DataType

/-!
# Array headers

An array begins with its number of dimensions, a flag word, the type of its
elements, and the size and lower bound of each dimension.  `Dimension.check` is
the rule for dimensions; writers and readers of headers apply the same one and
differ only in the kind of failure.  `decode_append` says that a header of
acceptable dimensions is read back.
-/

namespace SqlWire

-- powers and products are those of the core library, whatever else is in scope
attribute [local instance (2000)] instPowNat One.ofOfNat1

/-- One dimension of an array: how many indices it has, and the first of them. -/
structure Dimension where
  size : Int32
  lowerBound : Int32
  deriving Repr, DecidableEq, Inhabited

/-- Why a list of dimensions is refused. -/
inductive DimensionFault where
  | tooMany (number : Nat)
  | negativeSize (size : Int)
  | boundOverflow (lowerBound size : Int)
  | tooManyElements
  deriving Repr, DecidableEq

/-- What comes before the elements of an array. -/
structure ArrayHeader where
  flags : Int32
  element : Oid
  dimensions : List Dimension
  deriving Repr, DecidableEq, Inhabited

/-! ### Dimensions -/

namespace Dimension

/-- The most dimensions an array can have. -/
def maxNumber : Nat := 6

/-- The largest number a signed 32-bit word holds. -/
def maxWord : Int := 2 ^ (31 : Nat) - 1

/-- How many elements an array of some dimensions has; without dimensions it has none. -/
def elementCount : List Dimension → Nat
  | [] => 0
  | dims => (dims.map fun d => d.size.toInt.toNat).prod

/-- The product of `count` and the sizes of the dimensions.  The first dimension of a negative size,
of a last index beyond the largest word, or with which the product goes beyond it is refused. -/
def product (count : Nat) : List Dimension → Except DimensionFault Nat
  | [] => .ok count
  | d :: rest =>
    let size := d.size.toInt
    if size < 0 then .error (.negativeSize size)
    else if maxWord < d.lowerBound.toInt + size then
      .error (.boundOverflow d.lowerBound.toInt size)
    else if maxWord < count * size then .error .tooManyElements
    else product (count * size.toNat) rest

/-- The number of elements of an array of some dimensions, if they are acceptable. -/
def check (dims : List Dimension) : Except DimensionFault Nat :=
  if maxNumber < dims.length then .error (.tooMany dims.length)
  else match dims with
    | [] => .ok 0
    | dims => product 1 dims

end Dimension

def DimensionFault.message : DimensionFault → String
  | tooMany number =>
    let most := Dimension.maxNumber
    s!"number of dimensions ({number}) exceeds the maximum allowed ({most})"
  | negativeSize size => s!"negative dimension size {size}"
  | boundOverflow lowerBound size => s!"lower bound {lowerBound} plus size {size} overflows"
  | tooManyElements => "array size exceeds the maximum allowed"

/-! ### Headers -/

namespace ArrayHeader

/-- The flag of an array with missing elements. -/
def hasNulls : Int32 := 1

/-- The header of an array of the given dimensions. -/
def make (element : Oid) (dims : List Dimension) : Except Error ArrayHeader :=
  match Dimension.check dims with
  | .ok _ => .ok ⟨0, element, dims⟩
  | .error fault => .error (.invalidOperation fault.message)

/-- The header of an array of one dimension, its indices from 1. -/
def oneDimensional (element : Oid) (length : Nat) : Except Error ArrayHeader :=
  if Dimension.maxWord < length then .error (.outOfRange "array" "too many elements")
  else make element [⟨Int32.ofNat length, 1⟩]

/-- How many elements follow the header. -/
def elementCount (h : ArrayHeader) : Nat := Dimension.elementCount h.dimensions

def isEmpty (h : ArrayHeader) : Bool := h.elementCount == 0

def encodedLength (h : ArrayHeader) : Nat := 12 + 8 * h.dimensions.length

def encode (h : ArrayHeader) : Bytes :=
  Word.toBytes (Int32.ofNat h.dimensions.length) ++ Word.toBytes h.flags ++
    Word.toBytes h.element ++
    h.dimensions.flatMap fun d => Word.toBytes d.size ++ Word.toBytes d.lowerBound

/-- The failure of bytes that are no array. -/
def malformed (reason : String) : Error := .invalidBinary "array" reason

def readDimensions : Nat → Reader → Except Error (List Dimension × Reader)
  | 0, r => .ok ([], r)
  | number + 1, r => do
    let (size, r) ← r.read Int32
    let (lowerBound, r) ← r.read Int32
    let (dims, r) ← readDimensions number r
    return (⟨size, lowerBound⟩ :: dims, r)

/-- The header at the front of some bytes, and the bytes after it. -/
def decode (bytes : Bytes) : Except Error (ArrayHeader × Bytes) := do
  let (number, r) ← (Reader.start "array header" bytes).read Int32
  let number := number.toInt
  if number < 0 ∨ Dimension.maxNumber < number then
    throw (malformed s!"invalid number of dimensions: {number}")
  let (flags, r) ← r.read Int32
  let bits := flags.toInt
  if flags ≠ 0 ∧ flags ≠ hasNulls then throw (malformed s!"invalid array flags {bits}")
  let (element, r) ← r.read Oid
  let (dims, r) ← readDimensions number.toNat r
  match Dimension.check dims with
  | .ok _ => return (⟨flags, element, dims⟩, r.rest)
  | .error fault => throw (malformed fault.message)

/-! ### Reading back -/

theorem readDimensions_append (dims : List Dimension) (context : String) (position : Nat)
    (rest : Bytes) :
    readDimensions dims.length ⟨context, position,
        (dims.flatMap fun d => Word.toBytes d.size ++ Word.toBytes d.lowerBound) ++ rest⟩ =
      .ok (dims, ⟨context, position + 8 * dims.length, rest⟩) := by
  induction dims generalizing position with
  | nil => rfl
  | cons d dims ih =>
    simp only [List.length_cons, readDimensions, List.flatMap_cons, List.append_assoc,
      Reader.read_append, bind, Except.bind]
    rw [ih]
    simp only [pure, Except.pure]
    have : position + Word.width Int32 + Word.width Int32 + 8 * dims.length =
        position + 8 * (dims.length + 1) := by
      simp only [Word.width]
      omega
    rw [this]

theorem length_encode (h : ArrayHeader) : h.encode.length = h.encodedLength := by
  have hdims : ∀ dims : List Dimension,
      (dims.flatMap fun d => Word.toBytes d.size ++ Word.toBytes d.lowerBound).length =
        8 * dims.length := by
    intro dims
    induction dims with
    | nil => rfl
    | cons d dims ih =>
      simp only [List.flatMap_cons, List.length_append, Word.length_toBytes, ih, Word.width,
        List.length_cons]
      omega
  simp only [encode, encodedLength, List.length_append, Word.length_toBytes, hdims, Word.width]

theorem length_le_of_check {dims : List Dimension} {n : Nat} (h : Dimension.check dims = .ok n) :
    dims.length ≤ Dimension.maxNumber := by
  unfold Dimension.check at h
  split at h
  · cases h
  · omega

/-- A header of not too many dimensions is read back where it was written, if they pass the check;
the fault is the same for a reader. -/
theorem decode_encode_append {h : ArrayHeader} (hflags : h.flags = 0 ∨ h.flags = hasNulls)
    (hle : h.dimensions.length ≤ Dimension.maxNumber) (rest : Bytes) :
    decode (h.encode ++ rest) = match Dimension.check h.dimensions with
      | .ok _ => .ok (h, rest)
      | .error fault => .error (malformed fault.message) := by
  have hnumber : (Int32.ofNat h.dimensions.length).toInt = h.dimensions.length :=
    Int32.toInt_ofNat_of_lt (Nat.lt_of_le_of_lt hle (by decide))
  simp only [decode, Reader.start, encode, List.append_assoc, Reader.read_append, bind,
    Except.bind, hnumber]
  rw [if_neg (by omega), if_neg (by rcases hflags with hf | hf <;> simp [hf])]
  simp only [Int.toNat_natCast, readDimensions_append]
  cases Dimension.check h.dimensions <;> rfl

theorem decode_append {h : ArrayHeader} {n : Nat} (hflags : h.flags = 0 ∨ h.flags = hasNulls)
    (hdims : Dimension.check h.dimensions = .ok n) (rest : Bytes) :
    decode (h.encode ++ rest) = .ok (h, rest) := by
  rw [decode_encode_append hflags (length_le_of_check hdims), hdims]

theorem of_readDimensions_eq_ok {number : Nat} {r r' : Reader} {dims : List Dimension}
    (h : readDimensions number r = .ok (dims, r')) :
    dims.length = number ∧
      r.rest = (dims.flatMap fun d => Word.toBytes d.size ++ Word.toBytes d.lowerBound) ++
        r'.rest := by
  induction number generalizing r dims with
  | zero =>
    cases h
    exact ⟨rfl, rfl⟩
  | succ number ih =>
    obtain ⟨⟨size, r₁⟩, hsize, h⟩ := Except.bind_eq_ok_iff.1 h
    obtain ⟨⟨lowerBound, r₂⟩, hbound, h⟩ := Except.bind_eq_ok_iff.1 h
    obtain ⟨⟨others, r₃⟩, hothers, h⟩ := Except.bind_eq_ok_iff.1 h
    cases h
    obtain ⟨hlength, hrest⟩ := ih hothers
    refine ⟨congrArg Nat.succ hlength, ?_⟩
    rw [Reader.rest_of_read hsize, Reader.rest_of_read hbound, hrest, List.flatMap_cons]
    simp only [List.append_assoc]

theorem of_decode_eq_ok {bytes rest : Bytes} {header : ArrayHeader}
    (h : decode bytes = .ok (header, rest)) :
    (header.flags = 0 ∨ header.flags = hasNulls) ∧
      (∃ n, Dimension.check header.dimensions = .ok n) ∧ bytes = header.encode ++ rest := by
  obtain ⟨⟨number, r₁⟩, hnumber, h⟩ := Except.bind_eq_ok_iff.1 h
  by_cases hmany : number.toInt < 0 ∨ Dimension.maxNumber < number.toInt
  · simp only [if_pos hmany] at h
    cases h
  simp only [if_neg hmany] at h
  obtain ⟨⟨flags, r₂⟩, hflags, h⟩ := Except.bind_eq_ok_iff.1 h
  by_cases hbits : flags ≠ 0 ∧ flags ≠ hasNulls
  · simp only [if_pos hbits] at h
    cases h
  simp only [if_neg hbits] at h
  obtain ⟨⟨element, r₃⟩, helement, h⟩ := Except.bind_eq_ok_iff.1 h
  obtain ⟨⟨dims, r₄⟩, hdims, h⟩ := Except.bind_eq_ok_iff.1 h
  obtain ⟨hlength, hrest⟩ := of_readDimensions_eq_ok hdims
  cases hcheck : Dimension.check dims with
  | error fault =>
    simp only [hcheck] at h
    cases h
  | ok n =>
    simp only [hcheck] at h
    cases h
    have hword : Int32.ofNat dims.length = number := by
      apply Int32.toInt_inj.1
      rw [Int32.toInt_ofNat_of_lt (Nat.lt_of_le_of_lt (length_le_of_check hcheck) (by decide))]
      omega
    refine ⟨?_, ⟨n, hcheck⟩, ?_⟩
    · by_cases hzero : flags = 0
      · exact .inl hzero
      · exact .inr (Decidable.not_not.1 fun hnulls => hbits ⟨hzero, hnulls⟩)
    · show (Reader.start "array header" bytes).rest = _
      rw [Reader.rest_of_read hnumber, Reader.rest_of_read hflags, Reader.rest_of_read helement,
        hrest, encode, hword]
      simp only [List.append_assoc]

end ArrayHeader

end SqlWire
