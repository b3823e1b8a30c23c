import SqlWire.Numeric.Rounding

/-!
# Declared precision and scale

A column declared `numeric(precision, scale)` carries both in one word, the
type modifier.  A value conforms to it after rounding to the scale, provided
that no more than `precision - scale` digits are left before the point.
-/

namespace SqlWire

/-- A declared precision and scale. -/
structure TypeModifier where
  precision : Nat
  scale : Nat
  deriving Repr, DecidableEq, Inhabited

namespace TypeModifier

/-- What is added to the word, so that small words are free to mean that nothing is declared. -/
def offset : Int32 := 4

/-- The word of a precision and a scale. -/
def pack (precision scale : UInt16) : Int32 :=
  (precision.toUInt32 <<< 16 ||| scale.toUInt32).toInt32 + offset

/-- The precision and scale of a word; none when nothing is declared. -/
def unpack? (word : Int32) : Option TypeModifier :=
  if word < offset then none
  else
    let bits := (word - offset).toUInt32.toNat
    some ⟨bits / 65536, bits % 65536⟩

/-- How many digits may stand before the point.  A negative number asks for zeros after it. -/
def wholeDigits (m : TypeModifier) : Int := m.precision - m.scale

/-- The failure of a value that has too many digits before the point. -/
def overflow (m : TypeModifier) : Error :=
  let precision := m.precision
  let scale := m.scale
  let digits := m.wholeDigits
  .outOfRange "numeric" (s!"a field with precision {precision}, scale {scale} must round to an " ++
    s!"absolute value less than 10^{digits}")

end TypeModifier

namespace Decimal

/-- How many of the four places of a group its leading zeros take up. -/
def leadingZeros (g : Nat) : Nat :=
  if g < 10 then 3 else if g < 100 then 2 else if g < 1000 then 1 else 0

/-- How many digits stand before the point, up to the first that is not zero; negative when zeros
follow the point.  Zero has none. -/
def leadingPlaces? (d : Decimal) : Option Int :=
  match d.groups with
  | [] => none
  | g :: _ => some ((d.weight + 1) * 4 - leadingZeros g)

/-- The decimal has no more digits before the point than the modifier allows. -/
def fits (d : Decimal) (m : TypeModifier) : Bool :=
  d.leadingPlaces?.all fun places => decide (places ≤ m.wholeDigits)

end Decimal

namespace Numeric

/-- Makes a numeric conform to a type modifier: the value rounded to the declared scale, and
whether it has no more digits than declared.  It stays rounded when it has. -/
def conform (n : Numeric) (word : Int32) : Numeric × Except Error Unit :=
  match n, TypeModifier.unpack? word with
  | finite d, some m =>
    let d := d.round m.scale
    (finite d, if d.fits m then .ok () else .error m.overflow)
  | n, _ => (n, .ok ())

end Numeric

end SqlWire
