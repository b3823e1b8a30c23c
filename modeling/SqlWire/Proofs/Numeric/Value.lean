import SqlWire.Proofs.Numeric.Positional

/-!
# The number a decimal stands for

`Decimal.magnitude` adds up the groups, each times the power of 10000 it counts,
and `Decimal.value` gives the sum its sign.  Stripping changes neither
(`value_strip`), and among the canonical decimals of one scale a number has only
one (`eq_of_value_eq`).  The second is what lets two computations be compared by
the numbers they give.
-/

namespace SqlWire

namespace Decimal

/-- The number without its sign. -/
def magnitude (d : Decimal) : ℚ :=
  ∑ i ∈ Finset.range d.groups.length, (d.groups.getD i 0 : ℚ) * 10000 ^ (d.weight - i)

/-- The number a decimal stands for. -/
def value (d : Decimal) : ℚ := if d.negative then -d.magnitude else d.magnitude

theorem sum_groups_eq (groups : List Nat) (w : Int) :
    ∑ i ∈ Finset.range groups.length, (groups.getD i 0 : ℚ) * 10000 ^ (w - i) =
      fractional 10000 groups * 10000 ^ (w + 1) := by
  induction groups generalizing w with
  | nil => simp
  | cons g rest ih =>
    have hstep : ∀ i : Nat, (10000 : ℚ) ^ (w - (i + 1 : Nat)) = 10000 ^ ((w - 1) - i) := by
      intro i
      congr 1
      push_cast
      ring
    rw [List.length_cons, Finset.sum_range_succ']
    simp only [List.getD_cons_succ, List.getD_cons_zero, hstep]
    rw [ih (w - 1), fractional_cons, Nat.cast_zero, sub_zero, sub_add_cancel,
      zpow_add_one₀ (by norm_num)]
    push_cast
    ring

theorem magnitude_eq (d : Decimal) :
    d.magnitude = fractional 10000 d.groups * 10000 ^ (d.weight + 1) :=
  sum_groups_eq d.groups d.weight

theorem magnitude_nonneg (d : Decimal) : 0 ≤ d.magnitude := by
  rw [magnitude_eq]
  exact mul_nonneg (fractional_nonneg _) (by positivity)

@[simp] theorem magnitude_zero (scale : Nat) : (zero scale).magnitude = 0 := by
  simp [magnitude_eq, zero]

theorem abs_value (d : Decimal) : |d.value| = d.magnitude := by
  unfold value
  split
  · rw [abs_neg, abs_of_nonneg d.magnitude_nonneg]
  · exact abs_of_nonneg d.magnitude_nonneg

/-! ### Stripping keeps the number -/

theorem zeros_append_dropWhile (groups : List Nat) :
    List.replicate (groups.length - (groups.dropWhile (· == 0)).length) 0 ++
      groups.dropWhile (· == 0) = groups := by
  induction groups with
  | nil => rfl
  | cons g rest ih =>
    by_cases hg : g = 0
    · have hle : (rest.dropWhile (· == 0)).length ≤ rest.length :=
        (List.dropWhile_sublist _).length_le
      rw [List.dropWhile_cons_of_pos (by simpa using hg), List.length_cons,
        Nat.succ_sub hle, List.replicate_succ, List.cons_append, ih, hg]
    · rw [List.dropWhile_cons_of_neg (by simpa using hg), Nat.sub_self]
      rfl

theorem fractional_trimEnd (groups : List Nat) :
    fractional 10000 (trimEnd groups) = fractional 10000 groups := by
  obtain ⟨n, hn⟩ := exists_trimEnd_append groups
  conv_rhs => rw [hn, fractional_append_zeros]

@[simp] theorem scale_strip (d : Decimal) : d.strip.scale = d.scale := by
  unfold strip
  dsimp only
  split <;> rfl

theorem magnitude_strip (d : Decimal) : d.strip.magnitude = d.magnitude := by
  have hfront := congrArg (fractional 10000) (zeros_append_dropWhile d.groups)
  rw [fractional_zeros_append] at hfront
  have hend := fractional_trimEnd (d.groups.dropWhile (· == 0))
  unfold strip
  dsimp only
  split
  next hnil =>
    rw [hnil, fractional_nil] at hend
    rw [magnitude_zero, magnitude_eq, ← hfront, ← hend]
    simp
  next hne =>
    rw [magnitude_eq, magnitude_eq, ← hfront, hend]
    dsimp only
    generalize d.groups.length - (d.groups.dropWhile (· == 0)).length = dropped
    have hpow : (10000 : ℚ) ^ (d.weight + 1) =
        10000 ^ (d.weight - dropped + 1) * 10000 ^ dropped := by
      rw [← zpow_natCast, ← zpow_add₀ (by norm_num)]
      congr 1
      ring
    rw [hpow]
    push_cast
    field_simp

theorem value_eq_zero {d : Decimal} (h : d.magnitude = 0) : d.value = 0 := by
  simp [value, h]

theorem negative_strip (d : Decimal) :
    d.strip.negative = d.negative ∨ d.magnitude = 0 := by
  have hmag := magnitude_strip d
  unfold strip at hmag ⊢
  dsimp only at hmag ⊢
  split at hmag
  next => exact Or.inr (by rw [← hmag, magnitude_zero])
  next => exact Or.inl rfl

/-- **Stripping keeps the number.** -/
theorem value_strip (d : Decimal) : d.strip.value = d.value := by
  rcases negative_strip d with h | h
  · rw [value, value, h, magnitude_strip]
  · rw [value_eq_zero h, value_eq_zero (by rw [magnitude_strip, h])]

/-! ### One canonical decimal for each number -/

namespace Canonical

theorem groups_eq_nil {d : Decimal} (h : d.Canonical) (hmag : d.magnitude = 0) :
    d.groups = [] := by
  rw [magnitude_eq, mul_eq_zero] at hmag
  exact eq_nil_of_fractional_eq_zero (by decide) h.last_ne_zero
    (hmag.resolve_right (zpow_ne_zero _ (by norm_num)))

theorem eq_zero {d : Decimal} (h : d.Canonical) (hmag : d.magnitude = 0) :
    d = zero d.scale := by
  have hgroups := h.groups_eq_nil hmag
  obtain ⟨hnegative, hweight⟩ := h.of_groups_nil hgroups
  cases d
  simp_all [zero]

theorem pow_weight_le {d : Decimal} (h : d.Canonical) (hmag : d.magnitude ≠ 0) :
    (10000 : ℚ) ^ d.weight ≤ d.magnitude := by
  rw [magnitude_eq] at hmag ⊢
  have hhead := h.head_ne_zero
  cases hgroups : d.groups with
  | nil => simp [hgroups] at hmag
  | cons g rest =>
    rw [hgroups, List.head?_cons, ne_eq, Option.some.injEq] at hhead
    have hg : (1 : ℚ) ≤ g := by exact_mod_cast Nat.one_le_iff_ne_zero.2 hhead
    have hrest := fractional_nonneg (b := 10000) rest
    have hpow : (0 : ℚ) < 10000 ^ d.weight := by positivity
    rw [fractional_cons, zpow_add_one₀ (by norm_num)]
    push_cast
    rw [show ((g : ℚ) + fractional 10000 rest) / 10000 * (10000 ^ d.weight * 10000) =
      (g + fractional 10000 rest) * 10000 ^ d.weight by ring]
    nlinarith

theorem magnitude_lt {d : Decimal} (h : ∀ g ∈ d.groups, g < 10000) :
    d.magnitude < 10000 ^ (d.weight + 1) := by
  have hlt := fractional_lt_one (b := 10000) (by decide) h
  have hpow : (0 : ℚ) < 10000 ^ (d.weight + 1) := by positivity
  rw [magnitude_eq]
  nlinarith

theorem weight_eq {d e : Decimal} (hd : d.Canonical) (he : e.Canonical)
    (hne : d.magnitude ≠ 0) (h : d.magnitude = e.magnitude) : d.weight = e.weight := by
  have hle : ∀ {x y : Decimal}, x.Canonical → y.Canonical → x.magnitude ≠ 0 →
      x.magnitude = y.magnitude → x.weight ≤ y.weight := by
    intro x y hx hy hxne hxy
    have hlt : (10000 : ℚ) ^ x.weight < 10000 ^ (y.weight + 1) :=
      lt_of_le_of_lt (hx.pow_weight_le hxne) (hxy ▸ magnitude_lt hy.group_lt)
    have := (zpow_lt_zpow_iff_right₀ (by norm_num : (1 : ℚ) < 10000)).1 hlt
    omega
  exact le_antisymm (hle hd he hne h) (hle he hd (h ▸ hne) h.symm)

theorem groups_eq {d e : Decimal} (hd : d.Canonical) (he : e.Canonical)
    (h : d.magnitude = e.magnitude) : d.groups = e.groups := by
  by_cases hne : d.magnitude = 0
  · rw [hd.groups_eq_nil hne, he.groups_eq_nil (h ▸ hne)]
  · have hweight := weight_eq hd he hne h
    rw [magnitude_eq, magnitude_eq, hweight] at h
    exact fractional_injective (by decide) hd.group_lt he.group_lt hd.last_ne_zero he.last_ne_zero
      (mul_right_cancel₀ (zpow_ne_zero _ (by norm_num)) h)

/-- **One canonical decimal for each number and scale.** -/
theorem eq_of_value_eq {d e : Decimal} (hd : d.Canonical) (he : e.Canonical)
    (hscale : d.scale = e.scale) (h : d.value = e.value) : d = e := by
  have hmag : d.magnitude = e.magnitude := by rw [← abs_value, ← abs_value, h]
  by_cases hzero : d.magnitude = 0
  · rw [hd.eq_zero hzero, he.eq_zero (hmag ▸ hzero), hscale]
  · have hgroups := groups_eq hd he hmag
    have hweight := weight_eq hd he hzero hmag
    have hpos : 0 < d.magnitude := lt_of_le_of_ne d.magnitude_nonneg (Ne.symm hzero)
    -- with a number that is not zero, the sign shows in the value
    have hnegative : d.negative = e.negative := by
      unfold value at h
      rw [← hmag] at h
      cases hdn : d.negative <;> cases hen : e.negative <;> simp [hdn, hen] at h ⊢ <;> linarith
    cases d
    cases e
    simp_all

end Canonical

end Decimal

end SqlWire
