import SqlWire.Binary64.Scientific
import SqlWire.Numeric.Literal
import SqlWire.Numeric.Text

/-!
# Numerics and floating point

A floating-point number becomes the numeric that its fifteen significant digits
write, without zeros at their end.  A numeric becomes the floating-point number
nearest to what its text shows.
-/

namespace SqlWire

-- powers are those of the core library, whatever else is in scope
attribute [local instance (2000)] instPowNat

namespace Scientific

/-- The literal of a number in scientific notation, without zeros at the end of its fraction. -/
def toLiteral (negative : Bool) (s : Scientific) : Literal :=
  ⟨negative, [s.leadDigit], Decimal.trimEnd s.fractionDigits, s.exponent⟩

end Scientific

namespace Numeric

/-- How many significant digits of a floating-point number are kept. -/
def floatDigits : Nat := 15

/-- The numeric of a floating-point number.  The infinities have none. -/
def ofBinary64 (x : Binary64) : Except Error Numeric :=
  match x.decode with
  | .nan => .ok nan
  | .infinite _ => .error (.outOfRange "numeric" "cannot convert infinity to numeric")
  | .finite negative m q =>
    .ok (finite ((Scientific.ofDyadic (floatDigits - 1) m q).toLiteral negative).toDecimal)

/-- The floating-point number nearest to what the text of a numeric shows. -/
def toBinary64 : Numeric → Binary64
  | nan => .nan
  | finite d => .nearest d.negative d.shown (10 ^ d.scale)

end Numeric

end SqlWire
