import SqlWire.Bytes.Reader
import SqlWire.Numeric.TypeModifier

/-!
# The wire form of a numeric

Four words make the header (the number of groups, the weight of the first, the
sign tag and the display scale), and a word for each group follows.  Reading is
stricter than writing in the number of groups it takes, and it brings what it
reads to canonical form: groups that the display scale hides are truncated.
-/

namespace SqlWire

namespace Numeric

/-! ### Limits -/

/-- The most groups that are read. -/
def maxWireGroups : Nat := 2000

/-- The largest display scale of the binary forms. -/
def maxScale : Nat := 0x3FFF

/-- The number fits a signed 16-bit word. -/
def fitsWord (n : Int) : Bool := decide (-32768 ≤ n ∧ n ≤ 32767)

/-! ### Writing -/

/-- The bytes of a numeric.  Refused are more groups than a signed word counts, a weight that fits
no word and a display scale above the largest, in this order. -/
def encode (n : Numeric) : Except Error Bytes :=
  if 32767 < n.groups.length then
    .error (.outOfRange "numeric" "too many digits for wire format")
  else if !fitsWord n.weight then
    .error (.outOfRange "numeric" "weight overflows wire format")
  else if maxScale < n.scale then
    .error (.outOfRange "numeric" "display scale overflows wire format")
  else
    .ok (Word.toBytes (UInt16.ofNat n.groups.length) ++ Word.toBytes (Int16.ofInt n.weight) ++
      Word.toBytes (UInt16.ofNat n.sign.tag) ++ Word.toBytes (UInt16.ofNat n.scale) ++
      n.groups.flatMap fun g => Word.toBytes (UInt16.ofNat g))

def encodedLength (n : Numeric) : Nat := 8 + 2 * n.groups.length

/-! ### Reading -/

/-- The failure of bytes that are no numeric. -/
def malformed (reason : String) : Error := .invalidBinary "numeric" reason

/-- The four upper-case hexadecimal digits of a word. -/
def hexWord (n : Nat) : String :=
  String.ofList ([n / 4096 % 16, n / 256 % 16, n / 16 % 16, n % 16].map fun d =>
    (Nat.digitChar d).toUpper)

def readGroups : Nat → Reader → Except Error (List Nat × Reader)
  | 0, r => .ok ([], r)
  | count + 1, r => do
    let (word, r) ← r.read Int16
    let g := word.toInt
    if g < 0 ∨ 10000 ≤ g then throw (malformed s!"invalid digit {g}")
    let (groups, r) ← readGroups count r
    return (g.toNat :: groups, r)

/-- The parts of a numeric as they were sent: the sign, the weight, the display scale and the
groups. -/
structure Transmitted where
  sign : NumericSign
  weight : Int
  scale : Nat
  groups : List Nat
  deriving Repr, DecidableEq

/-- Reads the parts of a numeric off the front of some bytes. -/
def readParts (bytes : Bytes) : Except Error Transmitted := do
  let (count, r) ← (Reader.start "numeric" bytes).read UInt16
  let count := count.toNat
  if maxWireGroups < count then throw (malformed s!"invalid length {count}")
  let (weight, r) ← r.read Int16
  let (tag, r) ← r.read UInt16
  let tag := tag.toNat
  let some sign := NumericSign.ofTag? tag
    | throw (malformed ("invalid sign 0x" ++ hexWord tag))
  let (scale, r) ← r.read UInt16
  let scale := scale.toNat
  if maxScale < scale then throw (malformed s!"invalid scale {scale}")
  r.ensure (count * 2)
  let (groups, _) ← readGroups count r
  return ⟨sign, weight.toInt, scale, groups⟩

/-- The numeric that was sent, without what its display scale hides. -/
def Transmitted.toNumeric (t : Transmitted) : Numeric :=
  if t.sign = .nan then nan
  else finite (Decimal.truncate ⟨t.sign == .negative, t.weight, t.scale, t.groups⟩ t.scale)

/-- The numeric at the front of some bytes, made to conform to a type modifier. -/
def decodeConforming (bytes : Bytes) (word : Int32) : Except Error Numeric := do
  let t ← readParts bytes
  let (n, outcome) := t.toNumeric.conform word
  outcome
  return n

/-- The numeric at the front of some bytes. -/
def decode (bytes : Bytes) : Except Error Numeric := decodeConforming bytes (-1)

end Numeric

end SqlWire
