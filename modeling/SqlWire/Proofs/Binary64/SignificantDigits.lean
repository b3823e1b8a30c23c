import Mathlib.Tactic
import SqlWire.Numeric.Float

/-!
# The significant digits of a floating-point number

`Scientific.ofDyadic` looks for the power of ten below a number by climbing at
most three steps up from an estimate, which it takes from the power of two.
`lt_pow_floorLog10` says that this is far enough: the number is below the next
power of ten.  So a finite number has fifteen digits and no more
(`ofDyadic_coefficient_lt`), and what is written with them is a literal.
-/

namespace SqlWire

/-! ### Fractions and powers -/

theorem div_lt_zpow_iff {b d : ℕ} (hb : 0 < b) (hd : 0 < d) (n : ℕ) (e : ℤ) :
    (n : ℚ) / d < (b : ℚ) ^ e ↔
      if 0 ≤ e then n < d * b ^ e.toNat else n * b ^ (-e).toNat < d := by
  have hdq : (0 : ℚ) < d := by exact_mod_cast hd
  split
  next he =>
    obtain ⟨k, rfl⟩ := Int.eq_ofNat_of_zero_le he
    rw [div_lt_iff₀ hdq, zpow_natCast, mul_comm, Int.toNat_natCast]
    exact_mod_cast Iff.rfl
  next he =>
    obtain ⟨k, rfl⟩ : ∃ k : ℕ, e = -(k : ℤ) := ⟨(-e).toNat, by omega⟩
    have hpow : (0 : ℚ) < (b : ℚ) ^ k := by positivity
    rw [div_lt_iff₀ hdq, zpow_neg, zpow_natCast, ← div_eq_inv_mul, lt_div_iff₀ hpow, neg_neg,
      Int.toNat_natCast]
    exact_mod_cast Iff.rfl

/-- A power of two is compared with a power of ten through `2 ^ 93 ≤ 10 ^ 28` and
`10 ^ 3 ≤ 2 ^ 10`. -/
theorem two_zpow_le_ten_zpow {e t : ℤ} (hup : 0 ≤ e → 28 * e ≤ 93 * t)
    (hdown : e < 0 → 3 * e ≤ 10 * t) : (2 : ℚ) ^ e ≤ 10 ^ t := by
  by_cases he : 0 ≤ e
  · refine le_of_pow_le_pow_left₀ (n := 93) (by decide) (by positivity) ?_
    obtain ⟨k, rfl⟩ := Int.eq_ofNat_of_zero_le he
    calc ((2 : ℚ) ^ (k : ℤ)) ^ 93 = (2 ^ 93) ^ k := by rw [zpow_natCast, pow_right_comm]
      _ ≤ (10 ^ 28) ^ k := pow_le_pow_left₀ (by norm_num) (by norm_num) k
      _ = 10 ^ (28 * (k : ℤ)) := by rw [← pow_mul]; norm_cast
      _ ≤ 10 ^ (t * 93) := zpow_le_zpow_right₀ (by norm_num) (by have := hup he; omega)
      _ = (10 ^ t) ^ 93 := by rw [zpow_mul]; norm_cast
  · refine le_of_pow_le_pow_left₀ (n := 10) (by decide) (by positivity) ?_
    obtain ⟨k, rfl⟩ : ∃ k : ℕ, e = -(k : ℤ) := ⟨(-e).toNat, by omega⟩
    have hpow : ((10 : ℚ) ^ 3) ^ k ≤ (2 ^ 10) ^ k :=
      pow_le_pow_left₀ (by norm_num) (by norm_num) k
    calc ((2 : ℚ) ^ (-(k : ℤ))) ^ 10 = ((2 ^ 10) ^ k)⁻¹ := by
          rw [zpow_neg, zpow_natCast, inv_pow, pow_right_comm]
      _ ≤ ((10 ^ 3) ^ k)⁻¹ := inv_anti₀ (by positivity) hpow
      _ = 10 ^ (-(3 * (k : ℤ))) := by rw [zpow_neg, ← pow_mul]; norm_cast
      _ ≤ 10 ^ (t * 10) :=
          zpow_le_zpow_right₀ (by norm_num) (by have := hdown (by omega); omega)
      _ = (10 ^ t) ^ 10 := by rw [zpow_mul]; norm_cast

theorem roundDiv_le {n d k : ℕ} (h : n < d * k) : roundDiv n d ≤ k := by
  have hq : n / d < k := Nat.div_lt_of_lt_mul h
  unfold roundDiv
  dsimp only
  split
  · omega
  · split <;> omega

namespace Binary64

/-! ### Powers of two -/

theorem floorLog_bounds (n d : ℕ) : (Nat.log2 n : ℤ) - Nat.log2 d - 1 ≤ floorLog n d ∧
    floorLog n d ≤ (Nat.log2 n : ℤ) - Nat.log2 d := by
  unfold floorLog
  dsimp only
  split <;> omega

theorem lt_pow_floorLog (n : ℕ) {d : ℕ} (hd : 0 < d) :
    (n : ℚ) / d < 2 ^ (floorLog n d + 1) := by
  have hhalf := div_lt_zpow_iff (b := 2) (by decide) hd n ((Nat.log2 n : ℤ) - Nat.log2 d)
  have hlog : (n : ℚ) / d < 2 ^ ((Nat.log2 n : ℤ) - Nat.log2 d + 1) := by
    have hn : (n : ℚ) < 2 ^ (Nat.log2 n + 1) := by exact_mod_cast Nat.lt_log2_self
    have hd' : (2 : ℚ) ^ Nat.log2 d ≤ d := by exact_mod_cast Nat.log2_self_le hd.ne'
    rw [show (Nat.log2 n : ℤ) - Nat.log2 d + 1 = ((Nat.log2 n + 1 : ℕ) : ℤ) - (Nat.log2 d : ℕ) by
      push_cast; ring, zpow_sub₀ (by norm_num), zpow_natCast, zpow_natCast]
    exact div_lt_div₀ hn hd' (by positivity) (by positivity)
  unfold floorLog
  dsimp only
  by_cases he : 0 ≤ (Nat.log2 n : ℤ) - Nat.log2 d
  · rw [if_pos he] at hhalf ⊢
    dsimp only
    split
    next h => rw [sub_add_cancel]; exact hhalf.2 h
    next => exact hlog
  · rw [if_neg he] at hhalf ⊢
    dsimp only
    split
    next h => rw [sub_add_cancel]; exact hhalf.2 h
    next => exact hlog

/-! ### What a bit pattern stands for -/

theorem decode_finite {x : Binary64} {negative : Bool} {m : ℕ} {q : ℤ}
    (h : x.decode = .finite negative m q) : m < 2 ^ 53 ∧ -1074 ≤ q ∧ q ≤ 971 := by
  have hfraction : x.bits.toNat % 2 ^ 52 < 2 ^ 52 := Nat.mod_lt _ (by decide)
  have hbiased : x.bits.toNat / 2 ^ 52 % 2 ^ 11 < 2 ^ 11 := Nat.mod_lt _ (by decide)
  unfold decode at h
  dsimp only at h
  split at h
  · split at h <;> cases h
  next hne =>
    split at h
    next =>
      cases h
      exact ⟨by omega, by decide, by decide⟩
    next hpos =>
      cases h
      unfold minExponent
      exact ⟨by omega, by omega, by omega⟩

end Binary64

namespace Scientific

/-! ### Powers of ten -/

theorem lt_pow_climb {n d : ℕ} (hd : 0 < d) (fuel : ℕ) (e : ℤ)
    (h : (n : ℚ) / d < 10 ^ (e + fuel + 1)) : (n : ℚ) / d < 10 ^ (climb n d fuel e + 1) := by
  induction fuel generalizing e with
  | zero => simpa [climb] using h
  | succ fuel ih =>
    have hnext := div_lt_zpow_iff (b := 10) (by decide) hd n (e + 1)
    have hfuel : e + 1 + fuel + 1 = e + (fuel + 1 : ℕ) + 1 := by push_cast; ring
    have hclimbed := ih (e + 1) (by rwa [hfuel])
    unfold climb
    dsimp only
    by_cases he : 0 ≤ e + 1
    · rw [if_pos he] at hnext ⊢
      split
      next => exact hclimbed
      next hstop => exact hnext.2 (by simpa using hstop)
    · rw [if_neg he] at hnext ⊢
      split
      next => exact hclimbed
      next hstop => exact hnext.2 (by simpa using hstop)

/-- **A number is below the power of ten after the one found.**  The estimate is short by at most
two for every number that is neither huge nor tiny. -/
theorem lt_pow_floorLog10 {n d : ℕ} (hd : 0 < d) (hlow : -1600 ≤ Binary64.floorLog n d)
    (hhigh : Binary64.floorLog n d ≤ 1600) : (n : ℚ) / d < 10 ^ (floorLog10 n d + 1) := by
  refine lt_pow_climb hd 3 _ ((Binary64.lt_pow_floorLog n hd).trans_le ?_)
  refine two_zpow_le_ten_zpow ?_ ?_
  · intro
    push_cast
    omega
  · intro
    push_cast
    omega

/-! ### The coefficient -/

theorem ofFraction_places (places n d : ℕ) : (ofFraction places n d).places = places := by
  unfold ofFraction
  dsimp only
  split <;> split <;> rfl

theorem roundDiv_shift_le (places : ℕ) {n d : ℕ} {e : ℤ} (hd : 0 < d)
    (h : (n : ℚ) / d < 10 ^ (e + 1)) :
    (if 0 ≤ (places : ℤ) - e then roundDiv (n * 10 ^ ((places : ℤ) - e).toNat) d
      else roundDiv n (d * 10 ^ (-((places : ℤ) - e)).toNat)) ≤ 10 ^ (places + 1) := by
  have hdq : (0 : ℚ) < d := by exact_mod_cast hd
  rw [div_lt_iff₀ hdq] at h
  split
  next hshift =>
    obtain ⟨k, hk⟩ := Int.eq_ofNat_of_zero_le hshift
    have hpower : e + 1 + k = ((places + 1 : ℕ) : ℤ) := by omega
    have hscaled : (n : ℚ) * 10 ^ k < d * 10 ^ (places + 1) := by
      calc (n : ℚ) * 10 ^ k < 10 ^ (e + 1) * d * 10 ^ k := by gcongr
        _ = d * (10 ^ (e + 1) * 10 ^ (k : ℤ)) := by rw [zpow_natCast]; ring
        _ = d * 10 ^ (places + 1) := by
          rw [← zpow_add₀ (by norm_num), hpower, zpow_natCast]
    rw [hk, Int.toNat_natCast]
    exact roundDiv_le (by exact_mod_cast hscaled)
  next hshift =>
    obtain ⟨k, hk⟩ : ∃ k : ℕ, -((places : ℤ) - e) = k :=
      ⟨(-((places : ℤ) - e)).toNat, by omega⟩
    have hpower : e + 1 = (k : ℤ) + (places + 1 : ℕ) := by omega
    have hscaled : (n : ℚ) < d * 10 ^ k * 10 ^ (places + 1) := by
      calc (n : ℚ) < 10 ^ (e + 1) * d := h
        _ = d * (10 ^ (k : ℤ) * 10 ^ ((places + 1 : ℕ) : ℤ)) := by
          rw [hpower, zpow_add₀ (by norm_num), mul_comm]
        _ = d * 10 ^ k * 10 ^ (places + 1) := by rw [zpow_natCast, zpow_natCast, mul_assoc]
    rw [hk, Int.toNat_natCast]
    exact roundDiv_le (by exact_mod_cast hscaled)

theorem ofFraction_coefficient_lt (places : ℕ) {n d : ℕ} (hd : 0 < d)
    (h : (n : ℚ) / d < 10 ^ (floorLog10 n d + 1)) :
    (ofFraction places n d).coefficient < 10 ^ (places + 1) := by
  have hrounded := roundDiv_shift_le places hd h
  have hlt : 10 ^ places < 10 ^ (places + 1) :=
    Nat.pow_lt_pow_right (by decide) (Nat.lt_succ_self places)
  unfold ofFraction
  dsimp only
  by_cases hshift : 0 ≤ (places : ℤ) - floorLog10 n d
  · rw [if_pos hshift] at hrounded ⊢
    split
    next => exact hlt
    next hne => exact lt_of_le_of_ne hrounded hne
  · rw [if_neg hshift] at hrounded ⊢
    split
    next => exact hlt
    next hne => exact lt_of_le_of_ne hrounded hne

theorem ofDyadic_places (places m : ℕ) (q : ℤ) : (ofDyadic places m q).places = places := by
  unfold ofDyadic
  split
  · rfl
  · split <;> exact ofFraction_places _ _ _

/-- A number that is not zero is written as a fraction, and its power of two is neither huge nor
tiny. -/
theorem exists_ofFraction (places : ℕ) {m : ℕ} {q : ℤ} (hpos : 0 < m) (hm : m < 2 ^ 53)
    (hlow : -1074 ≤ q) (hhigh : q ≤ 971) :
    ∃ n d, ofDyadic places m q = ofFraction places n d ∧ 0 < n ∧ 0 < d ∧
      -1075 ≤ Binary64.floorLog n d ∧ Binary64.floorLog n d ≤ 1023 := by
  have hlog : Nat.log2 m ≤ 52 := Nat.lt_succ_iff.1 ((Nat.log2_lt hpos.ne').2 hm)
  unfold ofDyadic
  rw [if_neg hpos.ne']
  by_cases hq : 0 ≤ q
  · have hscaled : 0 < m * 2 ^ q.toNat := by positivity
    have hlarge : Nat.log2 (m * 2 ^ q.toNat) < 53 + q.toNat := by
      rw [Nat.log2_lt hscaled.ne', pow_add]
      gcongr
    have hbounds := Binary64.floorLog_bounds (m * 2 ^ q.toNat) 1
    have hone : Nat.log2 1 = 0 := by decide
    rw [hone] at hbounds
    exact ⟨_, _, if_pos hq, hscaled, Nat.one_pos, by omega, by omega⟩
  · have hbounds := Binary64.floorLog_bounds m (2 ^ (-q).toNat)
    rw [Nat.log2_two_pow] at hbounds
    exact ⟨_, _, if_neg hq, hpos, by positivity, by omega, by omega⟩

/-- **A finite number has as many digits as asked for.** -/
theorem ofDyadic_coefficient_lt (places : ℕ) {m : ℕ} {q : ℤ} (hm : m < 2 ^ 53) (hlow : -1074 ≤ q)
    (hhigh : q ≤ 971) : (ofDyadic places m q).coefficient < 10 ^ (places + 1) := by
  rcases Nat.eq_zero_or_pos m with rfl | hpos
  · exact Nat.pow_pos (by decide)
  · obtain ⟨n, d, heq, -, hd, hsmall, hlarge⟩ := exists_ofFraction places hpos hm hlow hhigh
    rw [heq]
    exact ofFraction_coefficient_lt places hd (lt_pow_floorLog10 hd (by omega) (by omega))

/-! ### The digits -/

theorem lastDigits_lt (n c : ℕ) : ∀ d ∈ lastDigits n c, d < 10 := by
  induction n generalizing c with
  | zero => simp [lastDigits]
  | succ n ih =>
    intro d hd
    rcases List.mem_append.1 hd with hd | hd
    · exact ih (c / 10) d hd
    · rw [List.mem_singleton.1 hd]
      exact Nat.mod_lt _ (by decide)

theorem length_lastDigits (n c : ℕ) : (lastDigits n c).length = n := by
  induction n generalizing c with
  | zero => rfl
  | succ n ih => rw [lastDigits, List.length_append, ih, List.length_singleton]

theorem leadDigit_lt {s : Scientific} (h : s.coefficient < 10 ^ (s.places + 1)) :
    s.leadDigit < 10 :=
  Nat.div_lt_of_lt_mul (by rwa [pow_succ] at h)

theorem toLiteral_digits_lt {s : Scientific} (h : s.coefficient < 10 ^ (s.places + 1))
    (negative : Bool) : ∀ d ∈ (s.toLiteral negative).digits, d < 10 := by
  intro d hd
  rcases List.mem_append.1 hd with hd | hd
  · rw [List.mem_singleton.1 hd]
    exact leadDigit_lt h
  · exact lastDigits_lt _ _ d (Decimal.mem_of_mem_trimEnd hd)

end Scientific

theorem Binary64.toLiteral_digits_lt {x : Binary64} {negative : Bool} {m : ℕ} {q : ℤ}
    (h : x.decode = .finite negative m q) (places : ℕ) :
    ∀ d ∈ ((Scientific.ofDyadic places m q).toLiteral negative).digits, d < 10 := by
  obtain ⟨hm, hlow, hhigh⟩ := decode_finite h
  refine Scientific.toLiteral_digits_lt ?_ negative
  rw [Scientific.ofDyadic_places]
  exact Scientific.ofDyadic_coefficient_lt places hm hlow hhigh

end SqlWire
