import SqlWire.Numeric.Basic

/-!
# Numerics as text

A decimal is written with all its digits before the point, at least one, and
exactly as many after it as its display scale says.  Digits stored beyond the
scale are cut off, not rounded.
-/

namespace SqlWire

-- powers are those of the core library, whatever else is in scope
attribute [local instance (2000)] instPowNat

namespace Decimal

/-- The four decimal digits of a group. -/
def places (g : Nat) : List Nat := [g / 1000, g / 100 % 10, g / 10 % 10, g % 10]

/-- The first `n` groups of a run that goes on with zeros. -/
def padTo (n : Nat) (groups : List Nat) : List Nat :=
  groups.take n ++ List.replicate (n - groups.length) 0

/-- The groups before the point. -/
def wholeGroups (d : Decimal) : List Nat := padTo (d.weight + 1).toNat d.groups

/-- The first `n` groups after the point. -/
def fractionGroups (d : Decimal) (n : Nat) : List Nat :=
  padTo n (List.replicate (min n (-(d.weight + 1)).toNat) 0 ++ d.groups.drop (d.weight + 1).toNat)

/-- How many groups the shown decimal places take up, in whole or in part. -/
def scaleGroups (d : Decimal) : Nat := (d.scale + 3) / 4

/-- The digits before the point, without leading zeros; a lone zero when there are none. -/
def wholeDigits (d : Decimal) : List Nat :=
  match (d.wholeGroups.flatMap places).dropWhile (· == 0) with
  | [] => [0]
  | digits => digits

/-- The digits after the point, as many as are shown. -/
def fractionDigits (d : Decimal) : List Nat :=
  ((d.fractionGroups d.scaleGroups).flatMap places).take d.scale

/-- The characters of a decimal. -/
def chars (d : Decimal) : List Char :=
  (if d.negative then ['-'] else []) ++ d.wholeDigits.map Nat.digitChar ++
    (if d.scale = 0 then [] else '.' :: d.fractionDigits.map Nat.digitChar)

/-- The number shown, counted in units of the last place shown. -/
def shown (d : Decimal) : Nat :=
  (d.wholeGroups ++ d.fractionGroups d.scaleGroups).foldl (fun acc g => acc * 10000 + g) 0 /
    10 ^ (4 * d.scaleGroups - d.scale)

end Decimal

namespace Numeric

/-- The text of a numeric. -/
def text : Numeric → String
  | nan => "NaN"
  | finite d => String.ofList d.chars

instance : ToString Numeric := ⟨text⟩

end Numeric

end SqlWire
