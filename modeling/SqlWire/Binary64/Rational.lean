import SqlWire.Bytes.Word

/-!
# Binary floating point and rational numbers

`Binary64.decode` says which number a bit pattern stands for, and
`Binary64.nearest` which bit pattern stands for the number nearest to a given
fraction.  Of two equally near the one with the even last bit is taken; what is
past the largest number becomes infinite.
-/

namespace SqlWire

-- powers are those of the core library, whatever else is in scope
attribute [local instance (2000)] instPowNat

/-- The quotient `n / d` rounded to the nearest natural number, halves to the even one. -/
def roundDiv (n d : Nat) : Nat :=
  let q := n / d
  let twice := 2 * (n % d)
  if twice < d then q
  else if twice = d then q + q % 2
  else q + 1

namespace Binary64

/-- What a 64-bit floating-point word stands for. -/
inductive Meaning where
  | nan
  | infinite (negative : Bool)
  /-- The number `mantissa * 2 ^ exponent`, with a sign that zero has too. -/
  | finite (negative : Bool) (mantissa : Nat) (exponent : Int)
  deriving Repr, DecidableEq

/-- The least exponent: every finite number is a multiple of two to it. -/
def minExponent : Int := -1074

/-- What a bit pattern stands for. -/
def decode (x : Binary64) : Meaning :=
  let negative := decide (2 ^ (63 : Nat) ≤ x.bits.toNat)
  let biased : Nat := x.bits.toNat / 2 ^ (52 : Nat) % 2 ^ (11 : Nat)
  let fraction := x.bits.toNat % 2 ^ (52 : Nat)
  if biased = 2 ^ (11 : Nat) - 1 then if fraction = 0 then .infinite negative else .nan
  else if biased = 0 then .finite negative fraction minExponent
  else .finite negative (2 ^ (52 : Nat) + fraction) (minExponent + (biased : Int) - 1)

/-- The pattern of the given sign and lower 63 bits. -/
def ofParts (negative : Bool) (low : Nat) : Binary64 :=
  ⟨UInt64.ofNat ((if negative then 2 ^ (63 : Nat) else 0) + low)⟩

/-- The lower 63 bits of infinity. -/
def infinityBits : Nat := (2 ^ (11 : Nat) - 1) * 2 ^ (52 : Nat)

/-- The quiet NaN that computations give. -/
def nan : Binary64 := ⟨0x7ff8000000000000⟩

/-- The exponent of the power of two just below or at `n / d`, both positive. -/
def floorLog (n d : Nat) : Int :=
  let e : Int := (Nat.log2 n : Int) - Nat.log2 d
  let (n, d) := if 0 ≤ e then (n, d * 2 ^ e.toNat) else (n * 2 ^ (-e).toNat, d)
  if n < d then e - 1 else e

/-- The floating-point number nearest to `n / d`, with a sign.  The bits of a number count the
numbers below it, so a mantissa that rounds up to the next power of two needs no case of its own. -/
def nearest (negative : Bool) (n d : Nat) : Binary64 :=
  if n = 0 then ofParts negative 0
  else
    let q := max (floorLog n d - 52) minExponent
    let m := if 0 ≤ q then roundDiv n (d * 2 ^ q.toNat) else roundDiv (n * 2 ^ (-q).toNat) d
    ofParts negative (min ((q - minExponent).toNat * 2 ^ (52 : Nat) + m) infinityBits)

end Binary64

end SqlWire
