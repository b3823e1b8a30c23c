import SqlWire.Numeric.FixedWidth
import SqlWire.Numeric.Literal

/-!
# Reading a literal into a buffer

A machine goes through a literal from left to right and puts its digits into a buffer, behind four
zeros.  Two words of 32 bits keep the power of ten that the first digit counts and the number of
places behind the point.  The digits of an exponent are summed up in 64 bits, and a sum too large
for them stays at the largest word.  Three more zeros close the buffer.  When a text is refused the
steps go through as well, and come to `some none`.

Each group of four digits is then a slice of the buffer.  The power of ten that the first digit
counts and the number of digits say at which index the first group begins and how many groups there
are, and the digits of a slice are summed up in 16 bits.  The steps come to nothing when the buffer
does not reach as far as a slice.

What becomes of a result that does not fit a word of 32 bits is left to a parameter `word`.
`Literal.read?`, `Literal.frame?` and `Numeric.parsePrefix?` are the machine that looks whether it
fits (`FixedWidth.int32?`), and comes to nothing if not.  With `FixedWidth.wrapped32?` the words run
over in the same steps.
-/

namespace SqlWire

namespace Literal

open FixedWidth

/-! ### Digits and the point -/

/-- What a machine has read of a literal. -/
structure Intake where
  /-- Four zeros, and the digits so far. -/
  buffer : List Nat
  /-- The power of ten that the first digit counts. -/
  power : Int
  /-- How many digits there are behind the point. -/
  places : Int
  deriving Repr, DecidableEq

namespace Intake

/-- Nothing has been read yet. -/
def start : Intake := ⟨List.replicate 4 0, -1, 0⟩

/-- Takes in a digit, which stands behind the point or in front of it. -/
def push? (word : Int → Option Int) (m : Intake) (point : Bool) (d : Nat) : Option Intake :=
  if point then do
    let places ← word (m.places + 1)
    return ⟨m.buffer ++ [d], m.power, places⟩
  else do
    let power ← word (m.power + 1)
    return ⟨m.buffer ++ [d], power, m.places⟩

/-- Takes in digits and a point, up to the first character that is neither.  A second point is
refused. -/
def readDigits? (word : Int → Option Int) (point : Bool) (m : Intake) :
    List Char → Option (Option (Intake × List Char))
  | [] => some (some (m, []))
  | c :: s =>
    if c.isDigit then do
      let m ← m.push? word point (c.toNat - '0'.toNat)
      m.readDigits? word point s
    else if c = '.' then
      if point then some none else m.readDigits? word true s
    else some (some (m, c :: s))

end Intake

/-- The point a text begins with, and the rest of it. -/
def splitPoint : List Char → Bool × List Char
  | '.' :: s => (true, s)
  | s => (false, s)

/-- The digits and the point a text begins with.  A point in front has to be followed by a digit. -/
def readMantissa? (word : Int → Option Int) (s : List Char) :
    Option (Option (Intake × List Char)) :=
  let (point, s) := splitPoint s
  if s.head?.any Char.isDigit then Intake.start.readDigits? word point s else some none

/-! ### The exponent -/

/-- The number that digits spell, as far as 64 bits go. -/
def saturatedMagnitude (digits : List Nat) : Int :=
  digits.foldl (fun (acc : Int) (d : Nat) => saturate64 (saturate64 (acc * 10) + d)) 0

/-- The exponent a text begins with, if there is one, and the rest. -/
def readExponent? (s : List Char) : Option (Option (Option Int × List Char)) :=
  match s with
  | c :: s =>
    if c = 'e' ∨ c = 'E' then
      let (negative, s) := splitSign s
      let (digits, s) := splitDigits s
      if digits = [] then some none
      else do
        let sum := saturatedMagnitude digits
        let exponent ← int64? (if negative then -sum else sum)
        let size ← int64? exponent.natAbs
        if maxExponent < size then return none
        else
          let exponent ← int32? exponent
          return some (some exponent, s)
    else some (some (none, c :: s))
  | [] => some (some (none, []))

/-- The power of ten that the first digit counts and the number of places shown, when an exponent
has moved the point.  Only an exponent keeps the places from being negative. -/
def Intake.shift? (word : Int → Option Int) (m : Intake) : Option Int → Option (Int × Int)
  | none => some (m.power, m.places)
  | some exponent => do
    let power ← word (m.power + exponent)
    let scale ← word (m.places - exponent)
    return (power, max scale 0)

/-! ### The buffer -/

/-- A literal as it lies before a machine that makes groups of it. -/
structure Buffered where
  negative : Bool
  /-- Four zeros, the digits, and three zeros. -/
  buffer : List Nat
  /-- How many digits there are. -/
  count : Int
  /-- The power of ten that the first digit counts. -/
  power : Int
  /-- How many decimal places are shown. -/
  scale : Int
  deriving Repr, DecidableEq

/-- The literal a text begins with, in its buffer, and the rest of the text. -/
def readWith? (word : Int → Option Int) (s : List Char) :
    Option (Option (Buffered × List Char)) :=
  let (negative, s) := splitSign s
  do
    match ← readMantissa? word s with
    | none => return none
    | some (m, s) =>
      let count ← index? (m.buffer.length - 4)
      let count ← word count
      match ← readExponent? s with
      | none => return none
      | some (exponent, s) =>
        let (power, scale) ← m.shift? word exponent
        return some (⟨negative, m.buffer ++ List.replicate 3 0, count, power, scale⟩, s)

def read? (s : List Char) : Option (Option (Buffered × List Char)) := readWith? int32? s

/-! ### Where the groups lie -/

/-- The power of 10000 that the first group counts.  Division goes toward zero, so that the powers
below one are made positive for it. -/
def groupPower? (word : Int → Option Int) (power : Int) : Option Int :=
  if 0 ≤ power then do
    let n ← word (power + 4)
    word (n.tdiv 4 - 1)
  else do
    let n ← word (-power)
    let n ← word (n - 1)
    let n ← word (n.tdiv 4 + 1)
    word (-n)

/-- Where the groups lie in a buffer. -/
structure Frame where
  /-- The power of 10000 that the first group counts. -/
  weight : Int
  /-- How many zeros the first group has in front of the digits. -/
  offset : Int
  /-- How many groups there are. -/
  count : Nat
  /-- The index at which the first group begins. -/
  start : Nat
  deriving Repr, DecidableEq

/-- Where the groups lie, told by the power of the first digit and the number of digits. -/
def frameWith? (word : Int → Option Int) (power digits : Int) : Option Frame := do
  let weight ← groupPower? word power
  let edge ← word (weight + 1)
  let edge ← word (edge * 4)
  let first ← word (power + 1)
  let offset ← word (edge - first)
  let n ← word (digits + offset)
  let n ← word (n + 4)
  let n ← word (n - 1)
  let count ← index? (n.tdiv 4)
  let start ← word (4 - offset)
  let start ← index? start
  return ⟨weight, offset, count, start⟩

def frame? (power digits : Int) : Option Frame := frameWith? int32? power digits

/-! ### What a group is made of -/

/-- What a buffer holds from one index to another, if it reaches that far. -/
def slice? (buffer : List Nat) (start stop : Nat) : Option (List Nat) :=
  if start ≤ stop ∧ stop ≤ buffer.length then some ((buffer.drop start).take (stop - start))
  else none

/-- The number that digits spell, in 16 bits. -/
def foldGroup? (digits : List Nat) : Option Nat :=
  digits.foldlM (fun (acc d : Nat) => do
    let acc ← word16? (acc * 10 : Nat)
    word16? (acc + d : Nat)) 0

/-- So many groups, the first of them from index `start` on. -/
def groupsFrom? (buffer : List Nat) : Nat → Nat → Option (List Nat)
  | 0, _ => some []
  | n + 1, start => do
    let stop ← index? (start + 4 : Nat)
    let digits ← slice? buffer start stop
    let g ← foldGroup? digits
    let rest ← groupsFrom? buffer n stop
    return g :: rest

/-! ### The decimal -/

/-- A decimal in the words of a machine, before zeros are stripped from it. -/
structure Grouped where
  negative : Bool
  weight : Int
  scale : Int
  groups : List Nat
  deriving Repr, DecidableEq

namespace Buffered

/-- Makes groups of a literal in its buffer. -/
def group? (word : Int → Option Int) (b : Buffered) : Option Grouped := do
  let frame ← frameWith? word b.power b.count
  let groups ← groupsFrom? b.buffer frame.count frame.start
  return ⟨b.negative, frame.weight, b.scale, groups⟩

/-- The decimal that a literal in its buffer writes. -/
def toDecimal? (b : Buffered) : Option Decimal := do
  let d ← b.group? int32?
  Decimal.strip? ⟨d.negative, d.weight, d.scale.toNat, d.groups⟩

end Buffered

end Literal

/-! ### Whole texts -/

namespace Numeric

/-- The numeric a text begins with, and how many characters it takes up. -/
def parsePrefix? (text : String) : Option (Except Error (Numeric × Nat)) :=
  if (text.toList.take 3).map Char.toLower = ['n', 'a', 'n'] then some (.ok (nan, 3))
  else do
    match ← Literal.read? text.toList with
    | none => return .error (.invalidSyntax "numeric" text)
    | some (b, rest) =>
      let d ← b.toDecimal?
      return .ok (finite d, text.length - rest.length)

/-- The numeric that a whole text writes. -/
def parse? (text : String) : Option (Except Error Numeric) := do
  match ← parsePrefix? text with
  | .error e => return .error e
  | .ok (n, count) =>
    if count = text.length then return .ok n
    else return .error (.invalidSyntax "numeric" text)

end Numeric

end SqlWire
