import SqlWire.Proofs.Binary64.SignificantDigits

/-!
# The first digit of a floating-point number

`SignificantDigits.lean` says that a number has no more digits than asked for.  It has no fewer
either.  The power of two that is found for it does not lie above it (`zpow_floorLog_le`), nor does
the estimate of a power of ten that is taken from there, and climbing goes no higher than the number
(`zpow_floorLog10_le`).  So a number that is not zero begins with a digit that is not zero
(`le_ofDyadic_coefficient`).

The climb is short, and the exponents of floating-point numbers lie between narrow bounds
(`ofDyadic_exponent_bounds`).
-/

namespace SqlWire

/-- A power is compared with a fraction by moving the power to the side where it is whole. -/
theorem zpow_le_div_iff {b d : ℕ} (hb : 0 < b) (hd : 0 < d) (n : ℕ) (e : ℤ) :
    (b : ℚ) ^ e ≤ (n : ℚ) / d ↔
      if 0 ≤ e then d * b ^ e.toNat ≤ n else d ≤ n * b ^ (-e).toNat := by
  rw [← not_lt, div_lt_zpow_iff hb hd]
  split <;> exact not_lt

/-- A power of ten is compared with a power of two by comparing their inverses. -/
theorem ten_zpow_le_two_zpow {e t : ℤ} (hup : 0 < e → 10 * t ≤ 3 * e)
    (hdown : e ≤ 0 → 93 * t ≤ 28 * e) : (10 : ℚ) ^ t ≤ 2 ^ e := by
  have hinverse : (2 : ℚ) ^ (-e) ≤ 10 ^ (-t) :=
    two_zpow_le_ten_zpow (fun h => by have := hdown (by omega); omega)
      (fun h => by have := hup (by omega); omega)
  rw [zpow_neg, zpow_neg] at hinverse
  exact (inv_le_inv₀ (by positivity) (by positivity)).1 hinverse

theorem le_roundDiv {n d k : ℕ} (hd : 0 < d) (h : k * d ≤ n) : k ≤ roundDiv n d := by
  have hq : k ≤ n / d := (Nat.le_div_iff_mul_le hd).2 h
  unfold roundDiv
  dsimp only
  split
  · exact hq
  · split <;> omega

namespace Binary64

theorem zpow_floorLog_le {n d : ℕ} (hn : 0 < n) (hd : 0 < d) :
    (2 : ℚ) ^ floorLog n d ≤ (n : ℚ) / d := by
  have hpower := zpow_le_div_iff (b := 2) (by decide) hd n ((Nat.log2 n : ℤ) - Nat.log2 d)
  have hlog : (2 : ℚ) ^ ((Nat.log2 n : ℤ) - Nat.log2 d - 1) ≤ (n : ℚ) / d := by
    have hn' : (2 : ℚ) ^ Nat.log2 n ≤ n := by exact_mod_cast Nat.log2_self_le hn.ne'
    have hd' : (d : ℚ) ≤ 2 ^ (Nat.log2 d + 1) := by exact_mod_cast Nat.lt_log2_self.le
    rw [show (Nat.log2 n : ℤ) - Nat.log2 d - 1 = (Nat.log2 n : ℕ) - ((Nat.log2 d + 1 : ℕ) : ℤ) by
      push_cast; ring, zpow_sub₀ (by norm_num), zpow_natCast, zpow_natCast]
    exact div_le_div₀ (by positivity) hn' (by positivity) hd'
  unfold floorLog
  dsimp only
  by_cases he : 0 ≤ (Nat.log2 n : ℤ) - Nat.log2 d
  · rw [if_pos he] at hpower ⊢
    dsimp only
    split
    next => exact hlog
    next h => exact hpower.2 (not_lt.1 h)
  · rw [if_neg he] at hpower ⊢
    dsimp only
    split
    next => exact hlog
    next h => exact hpower.2 (not_lt.1 h)

end Binary64

namespace Scientific

variable {n d : ℕ}

/-! ### Powers of ten -/

theorem zpow_climb_le (hd : 0 < d) (fuel : ℕ) (e : ℤ) (h : (10 : ℚ) ^ e ≤ (n : ℚ) / d) :
    (10 : ℚ) ^ climb n d fuel e ≤ (n : ℚ) / d := by
  induction fuel generalizing e with
  | zero => exact h
  | succ fuel ih =>
    have hnext := zpow_le_div_iff (b := 10) (by decide) hd n (e + 1)
    unfold climb
    dsimp only
    by_cases he : 0 ≤ e + 1
    · rw [if_pos he] at hnext ⊢
      split
      next hreached => exact ih (e + 1) (hnext.2 (by simpa using hreached))
      next => exact h
    · rw [if_neg he] at hnext ⊢
      split
      next hreached => exact ih (e + 1) (hnext.2 (by simpa using hreached))
      next => exact h

/-- There are no more steps up than there is fuel, and none down. -/
theorem climb_bounds (n d fuel : ℕ) (e : ℤ) :
    e ≤ climb n d fuel e ∧ climb n d fuel e ≤ e + fuel := by
  induction fuel generalizing e with
  | zero => simp [climb]
  | succ fuel ih =>
    obtain ⟨hlow, hhigh⟩ := ih (e + 1)
    unfold climb
    dsimp only
    split
    · split <;> omega
    · split <;> omega

/-- **The power of ten that is found does not lie above the number.** -/
theorem zpow_floorLog10_le (hn : 0 < n) (hd : 0 < d) (hlow : -1075 ≤ Binary64.floorLog n d)
    (hhigh : Binary64.floorLog n d ≤ 1023) : (10 : ℚ) ^ floorLog10 n d ≤ (n : ℚ) / d := by
  refine zpow_climb_le hd 3 _ (le_trans ?_ (Binary64.zpow_floorLog_le hn hd))
  refine ten_zpow_le_two_zpow ?_ ?_
  · intro
    omega
  · intro
    omega

theorem floorLog10_bounds (hlow : -1075 ≤ Binary64.floorLog n d)
    (hhigh : Binary64.floorLog n d ≤ 1023) : -325 ≤ floorLog10 n d ∧ floorLog10 n d ≤ 309 := by
  have hclimb := climb_bounds n d 3 (Binary64.floorLog n d * 30103 / 100000 - 1)
  unfold floorLog10
  omega

/-! ### The coefficient -/

/-- A fraction that reaches a power of ten is rounded to no less than that power at any place. -/
theorem le_roundDiv_shift (places : ℕ) {e : ℤ} (hd : 0 < d) (h : (10 : ℚ) ^ e ≤ (n : ℚ) / d) :
    10 ^ places ≤ (if 0 ≤ (places : ℤ) - e then roundDiv (n * 10 ^ ((places : ℤ) - e).toNat) d
      else roundDiv n (d * 10 ^ (-((places : ℤ) - e)).toNat)) := by
  have hdq : (0 : ℚ) < d := by exact_mod_cast hd
  rw [le_div_iff₀ hdq] at h
  split
  next hshift =>
    obtain ⟨k, hk⟩ := Int.eq_ofNat_of_zero_le hshift
    have hpower : (places : ℤ) = e + k := by omega
    have hscaled : (10 : ℚ) ^ places * d ≤ n * 10 ^ k := by
      calc (10 : ℚ) ^ places * d = 10 ^ e * d * 10 ^ k := by
            rw [← zpow_natCast, hpower, zpow_add₀ (by norm_num), zpow_natCast]
            ring
        _ ≤ n * 10 ^ k := by gcongr
    rw [hk, Int.toNat_natCast]
    exact le_roundDiv hd (by exact_mod_cast hscaled)
  next hshift =>
    obtain ⟨k, hk⟩ : ∃ k : ℕ, -((places : ℤ) - e) = k :=
      ⟨(-((places : ℤ) - e)).toNat, by omega⟩
    have hpower : e = (places : ℤ) + k := by omega
    have hscaled : (10 : ℚ) ^ places * (d * 10 ^ k) ≤ n := by
      calc (10 : ℚ) ^ places * (d * 10 ^ k) = 10 ^ e * d := by
            rw [hpower, zpow_add₀ (by norm_num), zpow_natCast, zpow_natCast]
            ring
        _ ≤ n := h
    rw [hk, Int.toNat_natCast]
    exact le_roundDiv (by positivity) (by exact_mod_cast hscaled)

theorem le_ofFraction_coefficient (places : ℕ) (hd : 0 < d)
    (h : (10 : ℚ) ^ floorLog10 n d ≤ (n : ℚ) / d) :
    10 ^ places ≤ (ofFraction places n d).coefficient := by
  have hrounded := le_roundDiv_shift places hd h
  unfold ofFraction
  dsimp only
  by_cases hshift : 0 ≤ (places : ℤ) - floorLog10 n d
  · rw [if_pos hshift] at hrounded ⊢
    split
    · exact le_rfl
    · exact hrounded
  · rw [if_neg hshift] at hrounded ⊢
    split
    · exact le_rfl
    · exact hrounded

theorem ofFraction_exponent (places n d : ℕ) :
    (ofFraction places n d).exponent = floorLog10 n d ∨
      (ofFraction places n d).exponent = floorLog10 n d + 1 := by
  unfold ofFraction
  dsimp only
  split <;> split <;> simp

/-! ### Floating-point numbers -/

/-- **A finite number that is not zero has no fewer digits than asked for.** -/
theorem le_ofDyadic_coefficient (places : ℕ) {m : ℕ} {q : ℤ} (hpos : 0 < m) (hm : m < 2 ^ 53)
    (hlow : -1074 ≤ q) (hhigh : q ≤ 971) : 10 ^ places ≤ (ofDyadic places m q).coefficient := by
  obtain ⟨n, d, heq, hn, hd, hsmall, hlarge⟩ := exists_ofFraction places hpos hm hlow hhigh
  rw [heq]
  exact le_ofFraction_coefficient places hd (zpow_floorLog10_le hn hd hsmall hlarge)

theorem ofDyadic_exponent_bounds (places : ℕ) {m : ℕ} {q : ℤ} (hm : m < 2 ^ 53)
    (hlow : -1074 ≤ q) (hhigh : q ≤ 971) :
    -325 ≤ (ofDyadic places m q).exponent ∧ (ofDyadic places m q).exponent ≤ 310 := by
  rcases Nat.eq_zero_or_pos m with rfl | hpos
  · have hzero : (ofDyadic places 0 q).exponent = 0 := by simp [ofDyadic]
    omega
  · obtain ⟨n, d, heq, -, -, hsmall, hlarge⟩ := exists_ofFraction places hpos hm hlow hhigh
    have hbounds := floorLog10_bounds hsmall hlarge
    have hexponent := ofFraction_exponent places n d
    rw [heq]
    omega

end Scientific

end SqlWire
