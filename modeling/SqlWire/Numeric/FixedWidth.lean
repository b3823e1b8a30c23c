import SqlWire.Numeric.Wire

/-!
# Numerics in words of fixed size

A machine keeps a group in 16 bits and a weight in 32, works out in 64 bits where a cut falls,
and changes groups where they lie, by their index.  `Decimal.truncate?`, `Decimal.round?` and
`Decimal.conform?` go about it in this way, step by step, and so do reading (`decodeConforming?`)
and declaring (`TypeModifier.pack?`).  They come to nothing when a result does not fit its word,
when an index is out of bounds, or when a divisor is zero, so that a decimal that comes out is one
that was reached without any of these.

A machine that does not look whether a result fits keeps its low bits (`wrapped32?`).
-/

namespace SqlWire

/-! ### Words -/

namespace FixedWidth

/-- The number, if it lies within two bounds. -/
def within? (least most n : Int) : Option Int := if least ≤ n ∧ n ≤ most then some n else none

/-- The number, if a signed word of 32 bits holds it. -/
def int32? (n : Int) : Option Int := within? (-2147483648) 2147483647 n

/-- The number, if a signed word of 64 bits holds it. -/
def int64? (n : Int) : Option Int := within? (-9223372036854775808) 9223372036854775807 n

/-- What a signed word of 32 bits keeps of the number. -/
def wrapped32? (n : Int) : Option Int := some (n.bmod 4294967296)

/-- The number, or the end of the signed words of 64 bits that it lies beyond. -/
def saturate64 (n : Int) : Int := max (-9223372036854775808) (min n 9223372036854775807)

/-- The number, if an unsigned word of 16 bits holds it. -/
def word16? (n : Int) : Option Nat := (within? 0 65535 n).map Int.toNat

/-- The largest index. -/
def maxIndex : Nat := 18446744073709551615

/-- The number, if it can be an index. -/
def index? (n : Int) : Option Nat := (within? 0 maxIndex n).map Int.toNat

/-- The remainder of a division, if the divisor is not zero. -/
def rem? (g unit : Nat) : Option Nat := if unit = 0 then none else some (g % unit)

variable {α : Type} {n : Int} {g : Nat}

theorem int32?_eq (h : -2147483648 ≤ n ∧ n ≤ 2147483647) : int32? n = some n := if_pos h

theorem of_int32? {m : Int} (h : int32? n = some m) :
    m = n ∧ -2147483648 ≤ n ∧ n ≤ 2147483647 := by
  unfold int32? within? at h
  split at h
  next hfits => exact ⟨(Option.some.inj h).symm, hfits⟩
  next => cases h

theorem int64?_eq (h : -9223372036854775808 ≤ n ∧ n ≤ 9223372036854775807) :
    int64? n = some n := if_pos h

theorem word16?_natCast (h : g ≤ 65535) : word16? g = some g := by
  rw [word16?, within?, if_pos (by omega)]
  rfl

theorem index?_natCast (h : g ≤ maxIndex) : index? g = some g := by
  rw [index?, within?, if_pos (by omega)]
  rfl

theorem of_index?_natCast {m : Nat} (h : index? g = some m) : m = g := by
  unfold index? within? at h
  split at h
  next => exact (Option.some.inj h).symm
  next => cases h

theorem int32?_bind (h : -2147483648 ≤ n ∧ n ≤ 2147483647) (f : Int → Option α) :
    (int32? n >>= f) = f n := by
  rw [int32?_eq h]
  rfl

theorem int64?_bind (h : -9223372036854775808 ≤ n ∧ n ≤ 9223372036854775807)
    (f : Int → Option α) : (int64? n >>= f) = f n := by
  rw [int64?_eq h]
  rfl

theorem index?_bind (h : g ≤ maxIndex) (f : Nat → Option α) : (index? g >>= f) = f g := by
  rw [index?_natCast h]
  rfl

theorem rem?_eq {unit : Nat} (h : unit ≠ 0) : rem? g unit = some (g % unit) := if_neg h

end FixedWidth

namespace Decimal

open FixedWidth

/-! ### The steps of a machine -/

/-- Where a cut falls. -/
def cut? (weight r : Int) : Option Int := do
  let edge ← int64? (weight + 1)
  let places ← int64? (edge * 4)
  int64? (places + r)

/-- How many groups a cut leaves, and how many places of the last one if that is cut itself.  A
number of groups beyond all indices becomes the largest of them. -/
def splitCut? (p : Int) : Option (Nat × Nat) := do
  let above ← int64? (p + 4)
  let above ← int64? (above - 1)
  let part ← index? (p.tmod 4)
  return ((index? (above.tdiv 4)).getD maxIndex, part)

/-- The unit of the last place kept of a group, by how many places are kept.  If none is kept there
is no unit, and a division by what stands for it fails. -/
def units : List Nat := [0, 1000, 100, 10]

/-- Cuts a group after its first `part` places: the unit of the last of these, what is kept of the
group, and what is cut off. -/
def cutGroup? (groups : List Nat) (i part : Nat) : Option (Nat × Nat × Nat) := do
  let unit ← units[part]?
  let g ← groups[i]?
  let off ← rem? g unit
  let kept ← word16? (g - off)
  return (unit, kept, off)

/-- Takes the zeros in front away, and then those at the end. -/
def strip? (d : Decimal) : Option Decimal := do
  let leading := (d.groups.takeWhile (· == 0)).length
  let dropped ← int32? leading
  let weight ← int32? (d.weight - dropped)
  if d.groups.length < leading then none
  else match trimEnd (d.groups.drop leading) with
    | [] => return zero d.scale
    | groups => return ⟨d.negative, weight, d.scale, groups⟩

/-- Leaves the first `keep` groups, the last of them cut after its first `part` places. -/
def keepGroups? (groups : List Nat) (keep part : Nat) : Option (List Nat) :=
  if groups.length < keep then some groups
  else if part = 0 then some (groups.take keep)
  else do
    let last ← index? (keep - 1)
    let (_, kept, _) ← cutGroup? (groups.take keep) last part
    return (groups.take keep).set last kept

def truncate? (d : Decimal) (r : Int) : Option Decimal := do
  let p ← cut? d.weight r
  if p ≤ 0 then return zero r.toNat
  let (keep, part) ← splitCut? p
  let groups ← keepGroups? d.groups keep part
  strip? ⟨d.negative, d.weight, r.toNat, groups⟩

/-- Rounds a group to its first `part` places.  Says whether it carries. -/
def roundGroup? (groups : List Nat) (i part : Nat) : Option (Bool × List Nat) := do
  let (unit, kept, off) ← cutGroup? groups i part
  if unit / 2 ≤ off then
    let bumped ← word16? (kept + unit)
    if 10000 ≤ bumped then
      let excess ← word16? (bumped - 10000)
      return (true, groups.set i excess)
    else return (false, groups.set i bumped)
  else return (false, groups.set i kept)

/-- Leaves the first `keep` groups, the last of them rounded to its first `part` places.  Says
whether there is a carry, and in front of which group it is. -/
def roundLast? (groups : List Nat) (keep part : Nat) : Option (Bool × Nat × List Nat) :=
  if part = 0 then do
    let g ← groups[keep]?
    return (decide (5000 ≤ g), keep, groups.take keep)
  else do
    let last ← index? (keep - 1)
    let (carries, groups) ← roundGroup? (groups.take keep) last part
    return (carries, last, groups)

/-- Adds one to the group in front of `pos`, and to the one in front of that when it carries.  In
front of all groups there is room for another one. -/
def carryInto? : Nat → Int → List Nat → Option (Int × List Nat)
  | 0, weight, groups => do
    let weight ← int32? (weight + 1)
    return (weight, 1 :: groups)
  | pos + 1, weight, groups => do
    let g ← groups[pos]?
    let bumped ← word16? (g + 1)
    if 10000 ≤ bumped then carryInto? pos weight (groups.set pos 0)
    else return (weight, groups.set pos bumped)

/-- Leaves the first `keep` groups, the last of them rounded to its first `part` places, and carries
as far as need be. -/
def roundGroups? (weight : Int) (groups : List Nat) (keep part : Nat) :
    Option (Int × List Nat) :=
  if keep < groups.length ∨ keep = groups.length ∧ 0 < part then do
    let (carries, pos, groups) ← roundLast? groups keep part
    if carries then carryInto? pos weight groups else some (weight, groups)
  else some (weight, groups)

/-- Rounds to scale `r`, and strips what the rounding has left. -/
def round? (d : Decimal) (r : Int) : Option Decimal := do
  let p ← cut? d.weight r
  if p < 0 then return zero r.toNat
  let (keep, part) ← splitCut? p
  let (weight, groups) ← roundGroups? d.weight d.groups keep part
  strip? ⟨d.negative, weight, r.toNat, groups⟩

/-- There are more than `most` digits in front of the point, of which there are `places` before
leading zeros are taken away. -/
def leadsBeyond? (most : Int) : Int → List Nat → Option Bool
  | _, [] => some false
  | places, g :: rest =>
    if g = 0 then do
      let places ← int32? (places - 4)
      leadsBeyond? most places rest
    else do
      let places ← int32? (places - leadingZeros g)
      return decide (most < places)

/-- There are more than `most` digits in front of the point.  The groups are looked at only if there
is room for so many. -/
def tooLong? (most places : Int) (groups : List Nat) : Option Bool :=
  if most < places then leadsBeyond? most places groups else some false

/-- Rounds to a declared scale, and compares with the declared precision. -/
def conform? (d : Decimal) (word : Int32) : Option (Decimal × Except Error Unit) :=
  if word.toInt < 4 then some (d, .ok ())
  else do
    let bits ← int32? (word.toInt - 4)
    let precision := bits / 65536 % 65536
    let scale := bits % 65536
    let most ← int32? (precision - scale)
    let d ← d.round? scale
    let edge ← int32? (d.weight + 1)
    let places ← int32? (edge * 4)
    let long ← tooLong? most places d.groups
    return (d, if long then .error (TypeModifier.overflow ⟨precision.toNat, scale.toNat⟩)
      else .ok ())

end Decimal

/-! ### Whole numerics -/

namespace Numeric

/-- Rounds to scale `r`, with the steps of a machine. -/
def round? (n : Numeric) (r : Int) : Option Numeric :=
  match n with
  | nan => some nan
  | finite d => (d.round? r).map finite

/-- Truncates to scale `r`, with the steps of a machine. -/
def truncate? (n : Numeric) (r : Int) : Option Numeric :=
  match n with
  | nan => some nan
  | finite d => (d.truncate? r).map finite

/-- Makes a numeric conform to a type modifier, with the steps of a machine. -/
def conform? (n : Numeric) (word : Int32) : Option (Numeric × Except Error Unit) :=
  match n with
  | nan => some (nan, .ok ())
  | finite d => (d.conform? word).map fun (d, outcome) => (finite d, outcome)

/-- Reads a numeric off the front of some bytes, and makes it conform to a type modifier. -/
def decodeConforming? (bytes : Bytes) (word : Int32) : Option (Except Error Numeric) :=
  match readParts bytes with
  | .error e => some (.error e)
  | .ok t =>
    if t.sign = .nan then some (.ok nan)
    else do
      let d ← Decimal.truncate? ⟨t.sign == .negative, t.weight, t.scale, t.groups⟩ t.scale
      let (d, outcome) ← d.conform? word
      return outcome.map fun () => finite d

end Numeric

/-! ### Type modifiers -/

namespace TypeModifier

open FixedWidth

/-- The word with the precision in its upper half, and the scale in its lower. -/
def halves (precision scale : UInt16) : Int32 :=
  (precision.toUInt32 <<< 16 ||| scale.toUInt32).toInt32

/-- The word of a precision and a scale, if it is still a word with the offset. -/
def pack? (precision scale : UInt16) : Option Int32 :=
  (int32? ((halves precision scale).toInt + offset.toInt)).map Int32.ofInt

end TypeModifier

end SqlWire
