import SqlWire.Binary64.Rational

/-!
# Scientific notation

A positive number in scientific notation is a run of significant digits, the
first of them not zero and standing before the point, and a power of ten.
`Scientific.ofDyadic` writes `m * 2 ^ q` with a given number of digits, rounded
to the nearest, halves to the even last digit.
-/

namespace SqlWire

-- powers are those of the core library, whatever else is in scope
attribute [local instance (2000)] instPowNat

/-- The number `coefficient * 10 ^ (exponent - places)`: one digit before the point and `places`
after it. -/
structure Scientific where
  places : Nat
  coefficient : Nat
  exponent : Int
  deriving Repr, DecidableEq, Inhabited

namespace Scientific

/-- The exponent of the power of ten just below or at `n / d`, both positive, searched for from
`e` on: up while the next power is not above, at most `fuel` times. -/
def climb (n d : Nat) : Nat → Int → Int
  | 0, e => e
  | fuel + 1, e =>
    let above := e + 1
    let reached :=
      if 0 ≤ above then decide (d * 10 ^ above.toNat ≤ n)
      else decide (d ≤ n * 10 ^ (-above).toNat)
    if reached then climb n d fuel above else e

/-- The exponent of the power of ten just below or at `n / d`, both positive.  The power of two
below it gives an exponent that is short by at most two. -/
def floorLog10 (n d : Nat) : Int :=
  climb n d 3 (Binary64.floorLog n d * 30103 / 100000 - 1)

/-- The fraction `n / d`, both positive, with `places + 1` significant digits. -/
def ofFraction (places n d : Nat) : Scientific :=
  let e := floorLog10 n d
  let shift : Int := places - e
  let c := if 0 ≤ shift then roundDiv (n * 10 ^ shift.toNat) d
    else roundDiv n (d * 10 ^ (-shift).toNat)
  if c = 10 ^ (places + 1) then ⟨places, 10 ^ places, e + 1⟩ else ⟨places, c, e⟩

/-- The number `m * 2 ^ q` with `places + 1` significant digits; zero has exponent zero. -/
def ofDyadic (places m : Nat) (q : Int) : Scientific :=
  if m = 0 then ⟨places, 0, 0⟩
  else if 0 ≤ q then ofFraction places (m * 2 ^ q.toNat) 1
  else ofFraction places m (2 ^ (-q).toNat)

/-- The last `n` decimal digits of a number, most significant first. -/
def lastDigits : Nat → Nat → List Nat
  | 0, _ => []
  | n + 1, c => lastDigits n (c / 10) ++ [c % 10]

/-- The digit before the point. -/
def leadDigit (s : Scientific) : Nat := s.coefficient / 10 ^ s.places

/-- The digits after the point. -/
def fractionDigits (s : Scientific) : List Nat := lastDigits s.places s.coefficient

end Scientific

end SqlWire
