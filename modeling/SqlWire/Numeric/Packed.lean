import SqlWire.Numeric.Wire

/-!
# The storage form of a numeric

A stored numeric is a header word, possibly a weight word, and a word for each
group.  The two top bits of the header tell the layouts apart:

    1 0 S D D D D D D W W W W W W W    short: sign, scale up to 63, weight from -64 to 63
    S S D D D D D D D D D D D D D D    long: sign tag and scale; the weight word follows
    1 1 0 0 0 0 0 0 0 0 0 0 0 0 0 0    NaN: nothing follows

`pack` takes the short layout whenever the value fits it, so a value is stored
in one way only.  Zero groups at the ends are left out, and the loops that pass
over them come to what stripping is (`trimmed_eq_strip`).
-/

namespace SqlWire

/-- A numeric in storage form. -/
structure PackedNumeric where
  header : UInt16
  /-- The words after the header. -/
  tail : List UInt16
  deriving Repr, DecidableEq, Inhabited

namespace PackedNumeric

/-! ### Reading the words -/

def words (p : PackedNumeric) : List UInt16 := p.header :: p.tail

/-- The two bits that tell the layouts apart. -/
def layout (p : PackedNumeric) : UInt16 := p.header &&& 0xC000

def isNaN (p : PackedNumeric) : Bool := p.layout == 0xC000

def isShort (p : PackedNumeric) : Bool := p.layout == 0x8000

def sign (p : PackedNumeric) : NumericSign :=
  if p.isShort then if p.header &&& 0x2000 = 0 then .positive else .negative
  else (NumericSign.ofTag? p.layout.toNat).getD .nan

/-- The weight of the first group; a short one has seven bits, the top one of value `-64`. -/
def weight (p : PackedNumeric) : Int :=
  if p.isShort then
    (p.header &&& 0x003F).toNat - (if p.header &&& 0x0040 = 0 then 0 else 64)
  else if p.isNaN then 0
  else (p.tail.headD 0).toInt16.toInt

def scale (p : PackedNumeric) : Nat :=
  if p.isShort then ((p.header &&& 0x1F80) >>> 7).toNat
  else if p.isNaN then 0
  else (p.header &&& 0x3FFF).toNat

def groups (p : PackedNumeric) : List Nat :=
  (if p.isShort || p.isNaN then p.tail else p.tail.drop 1).map UInt16.toNat

/-- The numeric in working form. -/
def unpack (p : PackedNumeric) : Numeric :=
  if p.isNaN then .nan else .finite ⟨p.sign == .negative, p.weight, p.scale, p.groups⟩

/-! ### Writing them -/

/-- Passes over the zeros in front, each of which takes one off the weight. -/
def passLeading : Int → List Nat → Int × List Nat
  | weight, 0 :: rest => passLeading (weight - 1) rest
  | weight, groups => (weight, groups)

/-- Passes over zeros, from the last group on. -/
def passTrailing : List Nat → List Nat
  | 0 :: rest => passTrailing rest
  | groups => groups

/-- A decimal without zero groups at its ends. -/
def trimmed (d : Decimal) : Decimal :=
  let (weight, groups) := passLeading d.weight d.groups
  let groups := (passTrailing groups.reverse).reverse
  if groups = [] then ⟨false, 0, d.scale, groups⟩ else ⟨d.negative, weight, d.scale, groups⟩

theorem passTrailing_eq (groups : List Nat) :
    passTrailing groups = groups.dropWhile (· == 0) := by
  induction groups with
  | nil => rfl
  | cons g rest ih =>
    cases g with
    | zero => exact ih
    | succ g => rfl

theorem passLeading_eq (weight : Int) (groups : List Nat) :
    passLeading weight groups =
      (weight - (groups.length - (groups.dropWhile (· == 0)).length : Nat),
        groups.dropWhile (· == 0)) := by
  induction groups generalizing weight with
  | nil => simp [passLeading]
  | cons g rest ih =>
    cases g with
    | zero =>
      have hle := (List.dropWhile_sublist (· == 0) (l := rest)).length_le
      rw [passLeading, ih, List.dropWhile_cons_of_pos rfl, List.length_cons]
      congr 1
      omega
    | succ g =>
      rw [passLeading, List.dropWhile_cons_of_neg (by simp), Nat.sub_self]
      · simp
      · simp

theorem trimmed_eq_strip (d : Decimal) : trimmed d = d.strip := by
  unfold trimmed Decimal.strip Decimal.trimEnd
  rw [passLeading_eq]
  dsimp only
  rw [passTrailing_eq]
  cases h : ((d.groups.dropWhile (· == 0)).reverse.dropWhile (· == 0)).reverse with
  | nil => rw [if_pos rfl]; rfl
  | cons g rest => rw [if_neg (List.cons_ne_nil g rest)]

/-- The short layout has room for the weight and the scale. -/
def fitsShort (d : Decimal) : Bool := decide (d.scale ≤ 63 ∧ -64 ≤ d.weight ∧ d.weight ≤ 63)

/-- The header of the short layout. -/
def shortHeader (d : Decimal) : UInt16 :=
  let signBit : UInt16 := if d.negative then 0x2000 else 0
  let weightSign : UInt16 := if d.weight < 0 then 0x0040 else 0
  (0x8000 : UInt16) ||| signBit ||| UInt16.ofNat d.scale <<< 7 ||| weightSign |||
    ((Int16.ofInt d.weight).toUInt16 &&& 0x003F)

/-- The header of the long layout.  A scale that has no room in it loses its high bits. -/
def longHeader (d : Decimal) : UInt16 :=
  let signBits : UInt16 := if d.negative then 0x4000 else 0x0000
  signBits ||| (UInt16.ofNat d.scale &&& 0x3FFF)

/-- A decimal in the short layout. -/
def shortForm (d : Decimal) : PackedNumeric := ⟨shortHeader d, d.groups.map UInt16.ofNat⟩

/-- A decimal in the long layout.  A weight that fits no word loses its high bits. -/
def longForm (d : Decimal) : PackedNumeric :=
  ⟨longHeader d, (Int16.ofInt d.weight).toUInt16 :: d.groups.map UInt16.ofNat⟩

/-- A decimal in the short layout if it fits it, in the long one if not. -/
def layOut (d : Decimal) : PackedNumeric := if fitsShort d then shortForm d else longForm d

/-- Stores a decimal that has no zero groups at its ends.  One that lost bits is not read back as it
was, and is refused. -/
def ofDecimal (d : Decimal) : Except Error PackedNumeric :=
  let p := layOut d
  if p.weight = d.weight ∧ p.scale = d.scale then .ok p
  else .error (.outOfRange "numeric" "value overflows numeric format")

/-- Stores a numeric. -/
def pack : Numeric → Except Error PackedNumeric
  | .nan => .ok ⟨0xC000, []⟩
  | .finite d => ofDecimal (trimmed d)

theorem pack_finite (d : Decimal) : pack (.finite d) = ofDecimal d.strip := by
  rw [pack, trimmed_eq_strip]

end PackedNumeric

end SqlWire
