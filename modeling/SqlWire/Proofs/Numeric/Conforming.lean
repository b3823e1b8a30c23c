import SqlWire.Proofs.Numeric.Rounding

/-!
# What a declared precision and scale admit

A type modifier is checked by a count of digits, the power of ten is never worked out.  The weight
and the first group of a canonical decimal tell how many digits stand before the point, and between
which two powers of ten the number lies (`magnitude_of_leadingPlaces`).  So the count is right for
every number, also for one below a tenth and at the powers themselves (`fits_iff`).

`conform_iff_below_power` puts this together with the word that the modifier comes in, and with the
steps of a machine.
-/

namespace SqlWire

open FixedWidth

/-! ### The word of a type modifier -/

namespace TypeModifier

theorem unpack?_of_le {word : Int32} (h : 4 ≤ word.toInt) :
    unpack? word =
      some ⟨(word.toInt - 4).toNat >>> 16 &&& 0xffff, (word.toInt - 4).toNat &&& 0xffff⟩ := by
  obtain ⟨⟨precision, scale⟩, hunpack, hprecision, hscale⟩ := exists_unpack?_eq h
  dsimp only at hprecision hscale
  have hmask (n : Nat) : n &&& 0xffff = n % 65536 := Nat.and_two_pow_sub_one_eq_mod n 16
  rw [hunpack, hmask, hmask, Nat.shiftRight_eq_div_pow, Option.some.injEq, TypeModifier.mk.injEq]
  omega

end TypeModifier

namespace Decimal

variable {d : Decimal} {places : Int}

/-! ### Digits before the point -/

theorem group_of_leadingZeros {g : Nat} (hne : g ≠ 0) (hlt : g < 10000) :
    10 ^ (3 - leadingZeros g) ≤ g ∧ g + 1 ≤ 10 ^ (4 - leadingZeros g) := by
  unfold leadingZeros
  split_ifs <;> norm_num <;> omega

theorem magnitude_of_groups {g : Nat} {rest : List Nat} (hgroups : d.groups = g :: rest) :
    d.magnitude = (g + fractional 10000 rest) * 10 ^ (4 * d.weight) := by
  rw [magnitude_eq, hgroups, fractional_cons, zpow_add_one₀ (by norm_num), zpow_mul]
  norm_num
  ring

/-- **The count of digits tells the power of ten** that a number reaches, and the one that it does
not. -/
theorem magnitude_of_leadingPlaces (h : d.Canonical) (hplaces : d.leadingPlaces? = some places) :
    (10 : ℚ) ^ (places - 1) ≤ d.magnitude ∧ d.magnitude < 10 ^ places := by
  unfold leadingPlaces? at hplaces
  cases hgroups : d.groups with
  | nil => simp [hgroups] at hplaces
  | cons g rest =>
    simp only [hgroups, Option.some.injEq] at hplaces
    have hne : g ≠ 0 := by
      rintro rfl
      exact h.head_ne_zero (by rw [hgroups]; rfl)
    have hlt := h.group_lt
    rw [hgroups] at hlt
    obtain ⟨hg, hrest⟩ := List.forall_mem_cons.1 hlt
    obtain ⟨hlow, hhigh⟩ := group_of_leadingZeros hne hg
    have hzeros := leadingZeros_le g
    have hbehind := fractional_nonneg (b := 10000) rest
    have hbelow := fractional_lt_one (b := 10000) (by decide) hrest
    have hunit : (0 : ℚ) < 10 ^ (4 * d.weight) := by positivity
    have hpower (k : Nat) :
        (10 : ℚ) ^ (4 * d.weight + k) = (10 ^ k : Nat) * 10 ^ (4 * d.weight) := by
      rw [zpow_add₀ (by norm_num), zpow_natCast]
      push_cast
      ring
    have hleast : places - 1 = 4 * d.weight + (3 - leadingZeros g : Nat) := by omega
    have hmost : places = 4 * d.weight + (4 - leadingZeros g : Nat) := by omega
    have hlowq : ((10 ^ (3 - leadingZeros g) : Nat) : ℚ) ≤ g := by exact_mod_cast hlow
    have hhighq : (g : ℚ) + 1 ≤ (10 ^ (4 - leadingZeros g) : Nat) := by exact_mod_cast hhigh
    rw [magnitude_of_groups hgroups]
    constructor
    · rw [hleast, hpower]
      exact mul_le_mul_of_nonneg_right (by linarith) hunit.le
    · rw [hmost, hpower]
      exact mul_lt_mul_of_pos_right (by linarith) hunit

theorem fits_iff (h : d.Canonical) (m : TypeModifier) :
    d.fits m = true ↔ d.magnitude < 10 ^ m.wholeDigits := by
  have hten : (1 : ℚ) < 10 := by norm_num
  unfold fits
  cases hplaces : d.leadingPlaces? with
  | none =>
    have hzero : d.magnitude = 0 := by
      unfold leadingPlaces? at hplaces
      split at hplaces
      next hgroups => rw [magnitude_eq, hgroups, fractional_nil, zero_mul]
      next => cases hplaces
    rw [hzero]
    exact iff_of_true rfl (by positivity)
  | some places =>
    obtain ⟨hlow, hhigh⟩ := magnitude_of_leadingPlaces h hplaces
    rw [Option.all_some, decide_eq_true_eq]
    constructor
    · intro hfits
      exact hhigh.trans_le (zpow_le_zpow_right₀ hten.le hfits)
    · intro hbelow
      have := (zpow_lt_zpow_iff_right₀ hten).1 (hlow.trans_lt hbelow)
      omega

theorem Canonical.exists_conform?_eq (h : d.Canonical) (hweight : |d.weight| < 2 ^ 29 - 2)
    (hlength : d.groups.length ≤ maxIndex) (word : Int32) :
    ∃ d' outcome, d.conform? word = some (d', outcome) ∧
      (Numeric.finite d).conform word = (.finite d', outcome) := by
  obtain ⟨hlow, hhigh⟩ := abs_lt.1 hweight
  have hwords : d.InWords := ⟨by omega, by omega, hlength⟩
  have hround (scale : Nat) (hscale : scale < 65536) :
      d.round? scale = some (d.round scale) ∧ -536870912 ≤ (d.round scale).weight ∧
        (d.round scale).weight ≤ 536870910 := by
    have hbounds := weight_round_bounds h.head_ne_zero scale
    exact ⟨h.round?_eq hwords (by omega) (by omega), by omega, by omega⟩
  obtain ⟨d', outcome, hmachine, hconform, -⟩ :=
    exists_conform?_eq_of_round h.group_lt hround word
  exact ⟨d', outcome, hmachine, hconform⟩

end Decimal

namespace Numeric

theorem conform_finite {d : Decimal} {word : Int32} {m : TypeModifier}
    (hunpack : TypeModifier.unpack? word = some m) :
    (finite d).conform word = (finite (d.round m.scale),
      if (d.round m.scale).fits m then .ok () else .error m.overflow) := by
  simp only [conform, hunpack]

/-- **A type modifier rounds, and then admits just what is below a power of ten.**  Words below four
declare nothing and change nothing.  Any other has a precision in its upper half and a scale in its
lower; the numeric is rounded to the scale in any case, and is out of range exactly when it is a
number that reaches the power of ten of precision less scale, be that negative or not.  A machine
comes to the same, as long as four times the weight is a word. -/
theorem conform_iff_below_power {n : Numeric} (h : n.Canonical)
    (hweight : |n.weight| < 2 ^ 29 - 2) (word : Int32) :
    (word.toInt < 4 → n.conform word = (n, .ok ())) ∧
    (4 ≤ word.toInt →
      let bits := (word.toInt - 4).toNat
      let m : TypeModifier := ⟨bits >>> 16 &&& 0xffff, bits &&& 0xffff⟩
      (n.conform word).1 = n.round m.scale ∧
      ((n.conform word).2 = .ok () ↔ n = nan ∨
        ∃ d, n.round m.scale = finite d ∧ |d.value| < 10 ^ ((m.precision : ℤ) - m.scale)) ∧
      ((n.conform word).2 ≠ .ok () → (n.conform word).2 = .error m.overflow)) ∧
    (n.groups.length ≤ maxIndex → n.conform? word = some (n.conform word)) := by
  refine ⟨?_, ?_, ?_⟩
  · intro hnone
    cases n <;> simp only [conform, TypeModifier.unpack?_of_lt hnone]
  · intro hword bits m
    have hunpack : TypeModifier.unpack? word = some m := TypeModifier.unpack?_of_le hword
    cases n with
    | nan => exact ⟨rfl, iff_of_true rfl (.inl rfl), fun hne => absurd rfl hne⟩
    | finite d =>
      have hfits : (d.round m.scale).fits m = true ↔
          |(d.round m.scale).value| < 10 ^ ((m.precision : ℤ) - m.scale) := by
        rw [Decimal.abs_value]
        exact Decimal.fits_iff (Decimal.round_canonical (Decimal.Canonical.group_lt h) m.scale) m
      rw [conform_finite hunpack]
      refine ⟨rfl, ?_, ?_⟩
      · constructor
        · intro hok
          refine .inr ⟨_, rfl, hfits.1 ?_⟩
          by_contra hlong
          rw [if_neg hlong] at hok
          cases hok
        · rintro (hnan | ⟨_, ⟨rfl⟩, hbelow⟩)
          · cases hnan
          · exact if_pos (hfits.2 hbelow)
      · intro hne
        exact if_neg fun hfits => hne (if_pos hfits)
  · intro hlength
    cases n with
    | nan => rfl
    | finite d =>
      obtain ⟨d', outcome, hmachine, hconform⟩ :=
        Decimal.Canonical.exists_conform?_eq h hweight hlength word
      rw [conform?, hmachine, hconform]
      rfl

/-- With two digits and four places a number has to be below a hundredth.  Rounding makes it just
that, and so it is refused. -/
theorem conform_iff_below_power_hundredth :
    let n := finite ⟨false, -1, 5, [99, 6000]⟩
    (n.conform 131080).1 = n.round 4 ∧
    (n.conform 131080).2 = .error (TypeModifier.overflow ⟨2, 4⟩) ∧
    (¬ ∃ d, n.round 4 = finite d ∧ |d.value| < 10 ^ ((2 : ℤ) - 4)) ∧
    n.conform? 131080 = some (n.conform 131080) ∧ n.conform 3 = (n, .ok ()) := by
  intro n
  have hcanonical : n.Canonical := ⟨by decide, by decide, by decide, by decide⟩
  have hweight : |n.weight| < 2 ^ 29 - 2 := by decide
  obtain ⟨-, hdeclared, hmachine⟩ := conform_iff_below_power hcanonical hweight 131080
  obtain ⟨hnone, -, -⟩ := conform_iff_below_power hcanonical hweight 3
  obtain ⟨hround, hadmits, hrefuses⟩ := hdeclared (by decide)
  have hlong : (n.conform 131080).2 ≠ .ok () := by decide
  refine ⟨hround, hrefuses hlong, ?_, hmachine (by decide), hnone (by decide)⟩
  intro hbelow
  exact hlong (hadmits.2 (.inr hbelow))

end Numeric

end SqlWire
