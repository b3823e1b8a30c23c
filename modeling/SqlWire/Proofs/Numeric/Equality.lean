import SqlWire.Proofs.Numeric.Reachable
import SqlWire.Proofs.Numeric.Value

/-!
# Equal numerics are equal numbers

Numerics are compared part by part: sign, weight, display scale and groups.  The
groups of one number can be written in many ways, with zeros at either end and
with a weight to suit.  A canonical numeric is written in one of them, so that on
canonical numerics the parts agree exactly when the numbers do, and the scales.

Every numeric that can be had is canonical (`Reachable.canonical`).
-/

namespace SqlWire

namespace Numeric

/-- Both are `NaN`, or both are the same number, shown to the same scale. -/
def SameNumber : Numeric → Numeric → Prop
  | nan, nan => True
  | finite d, finite e => d.value = e.value ∧ d.scale = e.scale
  | nan, finite _ => False
  | finite _, nan => False

theorem isNaN_eq_sign (n : Numeric) : n.isNaN = decide (n.sign = .nan) := by
  cases n with
  | nan => rfl
  | finite d => cases h : d.negative <;> simp [isNaN, sign, h]

theorem isNegative_eq_sign (n : Numeric) : n.isNegative = decide (n.sign = .negative) := by
  cases n with
  | nan => rfl
  | finite d => cases h : d.negative <;> simp [isNegative, sign, h]

theorem beq_iff_parts (a b : Numeric) : (a == b) = true ↔
    a.sign = b.sign ∧ a.weight = b.weight ∧ a.scale = b.scale ∧ a.groups = b.groups := by
  rw [beq_iff_eq]
  constructor
  · intro h
    rw [h]
    exact ⟨rfl, rfl, rfl, rfl⟩
  · rintro ⟨hsign, hweight, hscale, hgroups⟩
    have hnan : a.isNaN = b.isNaN := by rw [isNaN_eq_sign, isNaN_eq_sign, hsign]
    have hnegative : a.isNegative = b.isNegative := by
      rw [isNegative_eq_sign, isNegative_eq_sign, hsign]
    cases a with
    | nan =>
      cases b with
      | nan => rfl
      | finite e => cases hnan
    | finite d =>
      cases b with
      | nan => cases hnan
      | finite e =>
        obtain ⟨negative, weight, scale, groups⟩ := d
        obtain ⟨negative', weight', scale', groups'⟩ := e
        cases hnegative
        cases hweight
        cases hscale
        cases hgroups
        rfl

theorem Canonical.beq_iff_sameNumber {a b : Numeric} (ha : a.Canonical) (hb : b.Canonical) :
    (a == b) = true ↔ SameNumber a b := by
  rw [beq_iff_eq]
  cases a with
  | nan =>
    cases b with
    | nan => exact iff_of_true rfl trivial
    | finite e => exact iff_of_false nofun id
  | finite d =>
    cases b with
    | nan => exact iff_of_false nofun id
    | finite e =>
      constructor
      · intro h
        cases h
        exact ⟨rfl, rfl⟩
      · rintro ⟨hvalue, hscale⟩
        rw [Decimal.Canonical.eq_of_value_eq ha hb hscale hvalue]

/-- **Equality of numerics is equality of numbers and scales.**  It is decided part by part; on
canonical numerics, and so on all that can be had, it holds of two that are `NaN`, and of two that
are the same number shown to the same scale, and of no others. -/
theorem beq_iff_same_number :
    (∀ a b : Numeric, (a == b) = true ↔
      a.sign = b.sign ∧ a.weight = b.weight ∧ a.scale = b.scale ∧ a.groups = b.groups) ∧
    (∀ a b : Numeric, a.Canonical → b.Canonical → ((a == b) = true ↔ SameNumber a b)) ∧
    ∀ a b : Numeric, Reachable a → Reachable b → ((a == b) = true ↔ SameNumber a b) := by
  refine ⟨beq_iff_parts, ?_, ?_⟩
  · intro a b ha hb
    exact ha.beq_iff_sameNumber hb
  · intro a b ha hb
    exact ha.canonical.beq_iff_sameNumber hb.canonical

/-- Two runs of groups just apart are two numbers, and a number that was rounded is one that was
built with a zero in front. -/
theorem beq_iff_same_number_rounded :
    ¬ SameNumber (finite ⟨false, 0, 4, [9999, 9999]⟩) (finite ⟨false, 1, 4, [1]⟩) ∧
    ∃ a b, parse "-1.495" = .ok a ∧ ofParts .negative 1 2 [0, 1, 5000] = .ok b ∧
      SameNumber (a.round 2) b := by
  have hleft : (finite ⟨false, 0, 4, [9999, 9999]⟩).Canonical :=
    ⟨by decide, by decide, by decide, by decide⟩
  have hright : (finite ⟨false, 1, 4, [1]⟩).Canonical :=
    ⟨by decide, by decide, by decide, by decide⟩
  have hparse : parse "-1.495" = .ok (finite ⟨true, 0, 3, [1, 4950]⟩) := by decide
  have hparts : ofParts .negative 1 2 [0, 1, 5000] = .ok (finite ⟨true, 0, 2, [1, 5000]⟩) := by
    decide
  constructor
  · intro hsame
    have hequal := (beq_iff_same_number.2.1 _ _ hleft hright).2 hsame
    revert hequal
    decide
  · refine ⟨_, _, hparse, hparts, ?_⟩
    have hrounded : Reachable (round (finite ⟨true, 0, 3, [1, 4950]⟩) 2) :=
      .adjust (.round 2) (.ofText ⟨_, .inl hparse⟩)
    exact (beq_iff_same_number.2.2 _ _ hrounded (.ofParts hparts)).1 (by decide)

end Numeric

end SqlWire
