import Mathlib.Algebra.Order.Floor.Semifield
import Mathlib.Data.Sign.Basic
import SqlWire.Proofs.Numeric.CanonicalCuts
import SqlWire.Proofs.Numeric.SafeDecoding

/-!
# What rounding does to the number

Rounded groups come with a carry, and the two together stand for one number
(`Decimal.carried`).  `carried_roundPlaces` says which: the groups, counted in units of the last
place kept, half a unit added and rounded down.  So this is what rounding makes of a decimal
(`magnitude_round`), wherever the cut falls and however far a carry goes.

A cut of either kind gives a whole number of units of the last place kept, under the sign there was.
`Decimal.CutTo` says so of any way to count the units, and `cutTo_round` and `cutTo_truncate` say
which way a rounding and a truncation count them.  `round_half_away` and `truncate_toward_zero` add
that a machine gets there with words of fixed size.
-/

namespace SqlWire

namespace Decimal

/-! ### Rounded groups -/

/-- The number of some groups behind a point, with what they carry in front of it. -/
def carried (rounded : Nat × List Nat) : ℚ := rounded.1 + fractional 10000 rounded.2

/-- What a group holds beyond 9999 counts in front of the point as it did behind. -/
theorem carried_carry (g : Nat) (rest : List Nat) :
    carried (carry g rest) = (g + fractional 10000 rest) / 10000 := by
  have hsplit : (g : ℚ) = 10000 * (g / 10000 : Nat) + (g % 10000 : Nat) := by
    exact_mod_cast (Nat.div_add_mod g 10000).symm
  rw [carried, carry]
  dsimp only
  rw [fractional_cons, hsplit]
  push_cast
  ring

/-- Half a unit, added to a group and what is behind it, is added to the group alone. -/
theorem floor_add_half {g half : Nat} {behind : ℚ} (hhalf : 0 < half) (hnonneg : 0 ≤ behind)
    (hlt : behind < 1) :
    ⌊(g + behind) / (2 * half : Nat) + 1 / 2⌋₊ = (g + half) / (2 * half) := by
  have hfloor : ⌊behind + (g + half : Nat)⌋₊ = g + half := by
    rw [Nat.floor_add_natCast hnonneg, Nat.floor_eq_zero.2 hlt, zero_add]
  have hsum : (g + behind) / (2 * half : Nat) + 1 / 2 =
      (behind + (g + half : Nat)) / (2 * half : Nat) := by
    have : (half : ℚ) ≠ 0 := by exact_mod_cast hhalf.ne'
    push_cast
    field_simp
    ring
  rw [hsum, Nat.floor_div_natCast, hfloor]

section

variable (g : Nat) {rest : List Nat} (hrest : ∀ x ∈ rest, x < 10000) (part half : Nat)
  (hhalf : 0 < half) (hunit : 10 ^ part * (2 * half) = 10000)
include hrest hhalf hunit

/-- A cut in front of the first group or within it leaves to the rest no say in the rounding. -/
theorem floor_first_group :
    ⌊fractional 10000 (g :: rest) * 10 ^ part + 1 / 2⌋₊ = (g + half) / (2 * half) := by
  have hlt := fractional_lt_one (b := 10000) (by decide) hrest
  have hunitq : (10 : ℚ) ^ part * (2 * half : Nat) = 10000 := by exact_mod_cast hunit
  have hne : ((2 * half : Nat) : ℚ) ≠ 0 := by exact_mod_cast (by omega : 2 * half ≠ 0)
  have hpart : fractional 10000 (g :: rest) * 10 ^ part =
      (g + fractional 10000 rest) / (2 * half : Nat) := by
    rw [fractional_cons, Nat.cast_ofNat, ← hunitq]
    field_simp
  rw [hpart, floor_add_half hhalf (fractional_nonneg rest) hlt]

theorem carried_cut_group :
    carried (carry ((g + half) / (2 * half) * (2 * half)) []) * 10 ^ part =
      ⌊fractional 10000 (g :: rest) * 10 ^ part + 1 / 2⌋₊ := by
  have hunitq : (10 : ℚ) ^ part * (2 * half : Nat) = 10000 := by exact_mod_cast hunit
  have hne : ((2 * half : Nat) : ℚ) ≠ 0 := by exact_mod_cast (by omega : 2 * half ≠ 0)
  rw [floor_first_group g hrest part half hhalf hunit, carried_carry, fractional_nil, add_zero,
    Nat.cast_mul, ← hunitq]
  field_simp

end

/-- **Rounded groups stand for a whole number of units** of the last place kept: the nearest to
what the groups stood for, and of two as near the larger. -/
theorem carried_roundPlaces {groups : List Nat} (h : ∀ g ∈ groups, g < 10000) (p : Nat) :
    carried (roundPlaces p groups) * 10 ^ p = ⌊fractional 10000 groups * 10 ^ p + 1 / 2⌋₊ := by
  fun_induction roundPlaces p groups with
  | case1 p =>
    have hfloor : ⌊(0 : ℚ) * 10 ^ p + 1 / 2⌋₊ = 0 := by
      rw [Nat.floor_eq_zero]
      norm_num
    rw [fractional_nil, hfloor]
    simp [carried]
  | case2 g rest =>
    obtain ⟨hg, hrest⟩ := List.forall_mem_cons.1 h
    rw [floor_first_group g hrest 0 5000 (by decide) (by decide)]
    simp only [carried, fractional_nil, pow_zero, mul_one, add_zero, Nat.cast_inj]
    split <;> omega
  | case3 g rest =>
    exact carried_cut_group g (List.forall_mem_cons.1 h).2 1 500 (by decide) (by decide)
  | case4 g rest =>
    exact carried_cut_group g (List.forall_mem_cons.1 h).2 2 50 (by decide) (by decide)
  | case5 g rest =>
    exact carried_cut_group g (List.forall_mem_cons.1 h).2 3 5 (by decide) (by decide)
  | case6 p g rest c rest' heq ih =>
    -- the cut is behind the first group, which counts a whole number of units
    have hbehind := ih (List.forall_mem_cons.1 h).2
    rw [heq, carried] at hbehind
    have hscaled : fractional 10000 (g :: rest) * 10 ^ (p + 4) + 1 / 2 =
        fractional 10000 rest * 10 ^ p + 1 / 2 + ((g * 10 ^ p : Nat) : ℚ) := by
      rw [fractional_cons, pow_add]
      push_cast
      ring
    have hnonneg : 0 ≤ fractional 10000 rest * (10 : ℚ) ^ p + 1 / 2 := by
      have := fractional_nonneg (b := 10000) rest
      positivity
    show carried (carry (g + c) rest') * 10 ^ (p + 4) = ↑⌊_⌋₊
    rw [hscaled, Nat.floor_add_natCast hnonneg, Nat.cast_add _ (g * 10 ^ p), ← hbehind,
      carried_carry, pow_add]
    push_cast
    ring

/-! ### The number after a rounding -/

theorem magnitude_settle (negative : Bool) (weight : Int) (scale : Nat)
    (rounded : Nat × List Nat) :
    magnitude ⟨negative, (settle weight rounded).1, scale, (settle weight rounded).2⟩ =
      carried rounded * 10000 ^ (weight + 1) := by
  rw [magnitude_eq]
  unfold settle carried
  split
  next hcarry => simp only [hcarry, Nat.cast_zero, zero_add]
  next =>
    dsimp only
    rw [fractional_cons, zpow_add_one₀ (by norm_num)]
    push_cast
    ring

/-- **Rounding counts the units of the last place kept**, and a half counts as one. -/
theorem magnitude_round {d : Decimal} (h : ∀ g ∈ d.groups, g < 10000) (r : Int) :
    (d.round r).magnitude = (⌊d.magnitude * 10 ^ r + 1 / 2⌋₊ : ℚ) / 10 ^ r := by
  have hten : (10 : ℚ) ^ r ≠ 0 := zpow_ne_zero _ (by norm_num)
  rw [magnitude_mul_pow, digits, fractional_places, round_eq]
  by_cases hcut : d.cutPosition r < 0
  · -- the cut is before the left edge, and the number is below half a unit
    have hlt := fractional_lt_one (b := 10000) (by decide) h
    have hnonneg := fractional_nonneg (b := 10000) d.groups
    have hpos : (0 : ℚ) < 10 ^ d.cutPosition r := by positivity
    have hpow : (10 : ℚ) ^ d.cutPosition r ≤ 10 ^ (-1 : Int) :=
      zpow_le_zpow_right₀ (by norm_num) (by omega)
    have hfloor : ⌊fractional 10000 d.groups * 10 ^ d.cutPosition r + 1 / 2⌋₊ = 0 := by
      rw [Nat.floor_eq_zero]
      norm_num at hpow
      nlinarith
    rw [if_pos hcut, hfloor, magnitude_zero, Nat.cast_zero, zero_div]
  · obtain ⟨p, hp⟩ := Int.eq_ofNat_of_zero_le (show 0 ≤ d.cutPosition r by omega)
    have hpow := pow_cutPosition d r
    have hcarried := carried_roundPlaces h p
    rw [hp, zpow_natCast] at hpow
    rw [if_neg hcut, hp, Int.toNat_natCast, zpow_natCast, ← hcarried]
    dsimp only
    rw [magnitude_strip, magnitude_settle, hpow]
    field_simp

@[simp] theorem scale_round (d : Decimal) (r : Int) : (d.round r).scale = r.toNat := by
  rw [round_eq]
  split
  · rfl
  · exact scale_strip _

theorem negative_round (d : Decimal) (r : Int) :
    (d.round r).negative = d.negative ∨ (d.round r).magnitude = 0 := by
  rw [round_eq]
  split
  · exact Or.inr (magnitude_zero _)
  · rw [magnitude_strip]
    exact negative_strip _

/-! ### Cuts -/

/-- What a cut at scale `r` leaves of a decimal, when `count` says how many units of the last place
kept there are.  The sign stays, and a zero is the canonical one. -/
structure CutTo (count : ℚ → ℤ) (r : Int) (before after : Decimal) : Prop where
  value_eq : after.value = SignType.sign before.value * (count (|before.value| * 10 ^ r) / 10 ^ r)
  scale_eq : (after.scale : Int) = max r 0
  canonical : after.Canonical
  negative_eq : after.value ≠ 0 → after.negative = before.negative
  of_value_eq_zero : after.value = 0 → after.negative = false ∧ after.weight = 0

theorem sign_value {d : Decimal} (h : 0 < d.magnitude) :
    SignType.sign d.value = if d.negative then -1 else 1 := by
  unfold value
  split
  · exact sign_neg (by linarith)
  · exact sign_pos h

theorem cutTo_of_magnitude {count : ℚ → ℤ} {r : Int} {d d' : Decimal} (hzero : count 0 = 0)
    (hmagnitude : d'.magnitude = count (d.magnitude * 10 ^ r) / 10 ^ r)
    (hscale : d'.scale = r.toNat) (hcanonical : d'.Canonical)
    (hnegative : d'.negative = d.negative ∨ d'.magnitude = 0) : CutTo count r d d' where
  value_eq := by
    rw [abs_value, ← hmagnitude]
    by_cases hnone : d'.magnitude = 0
    · rw [value_eq_zero hnone, hnone, mul_zero]
    · -- where units are counted there is something to count
      have hpos : 0 < d.magnitude := by
        refine lt_of_le_of_ne d.magnitude_nonneg fun hnothing => hnone ?_
        rw [hmagnitude, ← hnothing, zero_mul, hzero, Int.cast_zero, zero_div]
      rw [sign_value hpos, value, hnegative.resolve_right hnone]
      cases d.negative <;> simp
  scale_eq := by rw [hscale, Int.toNat_eq_max]
  canonical := hcanonical
  negative_eq := fun hvalue => hnegative.resolve_right (mt value_eq_zero hvalue)
  of_value_eq_zero := by
    intro hvalue
    have hnone : d'.magnitude = 0 := by rw [← abs_value, hvalue, abs_zero]
    rw [hcanonical.eq_zero hnone]
    exact ⟨rfl, rfl⟩

theorem cutTo_round {d : Decimal} (h : ∀ g ∈ d.groups, g < 10000) (r : Int) :
    CutTo (fun x => ⌊x + 1 / 2⌋) r d (d.round r) := by
  refine cutTo_of_magnitude (by norm_num) ?_ (scale_round d r) (round_canonical h r)
    (negative_round d r)
  have hten : (0 : ℚ) < 10 ^ r := by positivity
  have hnonneg : 0 ≤ d.magnitude * 10 ^ r + 1 / 2 := by
    have := d.magnitude_nonneg
    positivity
  rw [magnitude_round h, natCast_floor_eq_intCast_floor hnonneg]

theorem cutTo_truncate {d : Decimal} (h : ∀ g ∈ d.groups, g < 10000) (r : Int) :
    CutTo Int.floor r d (d.truncate r) := by
  refine cutTo_of_magnitude Int.floor_zero ?_ (scale_truncate d r) (truncate_canonical h r)
    (negative_truncate d r)
  have hten : (0 : ℚ) < 10 ^ r := by positivity
  rw [magnitude_truncate h,
    natCast_floor_eq_intCast_floor (mul_nonneg d.magnitude_nonneg hten.le)]

end Decimal

namespace Numeric

/-- What a cut at scale `r` leaves of a numeric.  `NaN` stays what it is. -/
def CutTo (count : ℚ → ℤ) (r : Int) : Numeric → Numeric → Prop
  | nan, nan => True
  | finite d, finite d' => d.CutTo count r d'
  | nan, finite _ => False
  | finite _, nan => False

/-- The numeric as a machine holds it. -/
def InWords : Numeric → Prop
  | nan => True
  | finite d => d.InWords

/-- **Rounding is exact, and halves go away from zero.**  At any scale, positive or negative, a
canonical numeric is rounded to the nearest whole number of units of the last place kept.  A machine
rounds it so if it can hold it, and the next weight is still a word. -/
theorem round_half_away {n : Numeric} (h : n.Canonical) :
    (∀ r : Int, CutTo (fun x => ⌊x + 1 / 2⌋) r n (n.round r)) ∧
    (n.InWords → n.weight + 1 < 2 ^ 31 →
      ∀ r : Int32, n.round? r.toInt = some (n.round r.toInt)) := by
  cases n with
  | nan => exact ⟨fun _ => trivial, fun _ _ _ => rfl⟩
  | finite d =>
    refine ⟨Decimal.cutTo_round (Decimal.Canonical.group_lt h), ?_⟩
    intro hwords hnext r
    have hlow : -2 ^ 31 ≤ r.toInt := r.le_toInt
    have hhigh : r.toInt < 2 ^ 31 := r.toInt_lt
    have hweight : d.weight + 1 < 2 ^ 31 := hnext
    rw [round?, Decimal.Canonical.round?_eq h hwords (by omega) (by omega)]
    rfl

/-- A carry through all groups and in front of them, and the least weight at the largest scale. -/
theorem round_half_away_carry :
    CutTo (fun x => ⌊x + 1 / 2⌋) 3 (finite ⟨true, 0, 4, [9999, 9995]⟩)
      (finite ⟨true, 1, 3, [1]⟩) ∧
    (finite ⟨false, -2147483648, 0, [1]⟩).round? Int32.maxValue.toInt =
      some (finite (.zero 2147483647)) := by
  have hcarry : (finite ⟨true, 0, 4, [9999, 9995]⟩).Canonical :=
    ⟨by decide, by decide, by decide, by decide⟩
  have hleast : (finite ⟨false, -2147483648, 0, [1]⟩).Canonical :=
    ⟨by decide, by decide, by decide, by decide⟩
  exact ⟨(round_half_away hcarry).1 3,
    (round_half_away hleast).2 ⟨by decide, by decide, by decide⟩ (by decide) Int32.maxValue⟩

/-- **Truncation is exact, and goes toward zero.**  At any scale, positive or negative, whole units
of the last place kept are all that is left of a canonical numeric.  A machine truncates it so
whenever it can hold it. -/
theorem truncate_toward_zero {n : Numeric} (h : n.Canonical) :
    (∀ r : Int, CutTo Int.floor r n (n.truncate r)) ∧
    (n.InWords → ∀ r : Int32, n.truncate? r.toInt = some (n.truncate r.toInt)) := by
  cases n with
  | nan => exact ⟨fun _ => trivial, fun _ _ => rfl⟩
  | finite d =>
    refine ⟨Decimal.cutTo_truncate (Decimal.Canonical.group_lt h), ?_⟩
    intro hwords r
    have hlow : -2 ^ 31 ≤ r.toInt := r.le_toInt
    have hhigh : r.toInt < 2 ^ 31 := r.toInt_lt
    rw [truncate?, Decimal.Canonical.truncate?_eq h hwords (by omega)]
    rfl

/-- A cut within a group to the left of the point, and a number that is all gone, at the largest
weight and at the least. -/
theorem truncate_toward_zero_left :
    CutTo Int.floor (-2) (finite ⟨true, 1, 1, [1, 2399, 9000]⟩) (finite ⟨true, 1, 0, [1, 2300]⟩) ∧
    CutTo Int.floor 2 (finite ⟨true, -1, 3, [90]⟩) (finite (.zero 2)) ∧
    (finite ⟨true, 2147483647, 0, [1]⟩).truncate? Int32.minValue.toInt =
      some (finite ⟨true, 2147483647, 0, [1]⟩) := by
  have hleft : (finite ⟨true, 1, 1, [1, 2399, 9000]⟩).Canonical :=
    ⟨by decide, by decide, by decide, by decide⟩
  have hgone : (finite ⟨true, -1, 3, [90]⟩).Canonical :=
    ⟨by decide, by decide, by decide, by decide⟩
  have hlargest : (finite ⟨true, 2147483647, 0, [1]⟩).Canonical :=
    ⟨by decide, by decide, by decide, by decide⟩
  exact ⟨(truncate_toward_zero hleft).1 (-2), (truncate_toward_zero hgone).1 2,
    (truncate_toward_zero hlargest).2 ⟨by decide, by decide, by decide⟩ Int32.minValue⟩

end Numeric

end SqlWire
