import SqlWire.Numeric.Rounding
import SqlWire.Numeric.Text
import SqlWire.Proofs.Numeric.Value

/-!
# What truncation does to the number

The groups of a decimal, taken apart into their four places, are one run of
decimal digits (`Decimal.digits`).  Truncation keeps the digits in front of the
cut (`magnitude_truncate_eq_take`), so it rounds the number down to a whole
number of units of the last place kept (`magnitude_truncate`).

A decimal is left alone by a truncation at its own scale exactly when it stores
no digit behind the last place it shows (`truncate_scale_eq_self_iff`).
-/

namespace SqlWire

namespace Decimal

/-- The decimal digits that are stored, from the left edge of the first group on. -/
def digits (d : Decimal) : List Nat := d.groups.flatMap places

/-! ### Groups and their places -/

theorem places_lt {g : Nat} (h : g < 10000) : ∀ x ∈ places g, x < 10 := by
  intro x hx
  simp only [places, List.mem_cons, List.not_mem_nil, or_false] at hx
  omega

theorem flatMap_places_lt {groups : List Nat} (h : ∀ g ∈ groups, g < 10000) :
    ∀ x ∈ groups.flatMap places, x < 10 := by
  intro x hx
  obtain ⟨g, hg, hxg⟩ := List.mem_flatMap.1 hx
  exact places_lt (h g hg) x hxg

theorem length_flatMap_places (groups : List Nat) :
    (groups.flatMap places).length = 4 * groups.length := by
  induction groups with
  | nil => rfl
  | cons g rest ih =>
    rw [List.flatMap_cons, List.length_append, ih, List.length_cons]
    simp only [places, List.length_cons, List.length_nil]
    omega

theorem fractional_places (groups : List Nat) :
    fractional 10 (groups.flatMap places) = fractional 10000 groups := by
  induction groups with
  | nil => rfl
  | cons g rest ih =>
    have hsum : g = g / 1000 * 1000 + g / 100 % 10 * 100 + g / 10 % 10 * 10 + g % 10 := by omega
    have hq : (g : ℚ) = (g / 1000 : Nat) * 1000 + (g / 100 % 10 : Nat) * 100 +
        (g / 10 % 10 : Nat) * 10 + (g % 10 : Nat) := by exact_mod_cast hsum
    rw [List.flatMap_cons, places]
    simp only [List.cons_append, List.nil_append, fractional_cons, ih]
    rw [hq]
    push_cast
    ring

/-- What is kept are the first places, filled up with zeros to whole groups. -/
theorem exists_flatMap_places_keepPlaces {groups : List Nat} (h : ∀ g ∈ groups, g < 10000)
    (p : Nat) : ∃ n, (keepPlaces p groups).flatMap places =
      (groups.flatMap places).take p ++ List.replicate n 0 := by
  fun_induction keepPlaces p groups with
  | case1 => exact ⟨0, by simp⟩
  | case2 => exact ⟨0, by simp⟩
  | case3 g rest =>
    have hg := h g List.mem_cons_self
    refine ⟨3, ?_⟩
    simp only [places, List.flatMap_cons, List.flatMap_nil, List.append_nil, List.cons_append,
      List.take_succ_cons, List.take_zero, List.nil_append, List.replicate, List.cons.injEq,
      and_true]
    omega
  | case4 g rest =>
    have hg := h g List.mem_cons_self
    refine ⟨2, ?_⟩
    simp only [places, List.flatMap_cons, List.flatMap_nil, List.append_nil, List.cons_append,
      List.take_succ_cons, List.take_zero, List.nil_append, List.replicate, List.cons.injEq,
      and_true]
    omega
  | case5 g rest =>
    have hg := h g List.mem_cons_self
    refine ⟨1, ?_⟩
    simp only [places, List.flatMap_cons, List.flatMap_nil, List.append_nil, List.cons_append,
      List.take_succ_cons, List.take_zero, List.nil_append, List.replicate, List.cons.injEq,
      and_true]
    omega
  | case6 p g rest ih =>
    obtain ⟨n, hn⟩ := ih fun x hx => h x (List.mem_cons_of_mem _ hx)
    refine ⟨n, ?_⟩
    rw [List.flatMap_cons, List.flatMap_cons, hn]
    rfl

/-! ### The number after a truncation -/

theorem pow_cutPosition (d : Decimal) (r : Int) :
    (10 : ℚ) ^ d.cutPosition r = 10000 ^ (d.weight + 1) * 10 ^ r := by
  rw [cutPosition, zpow_add₀ (by norm_num), mul_comm (d.weight + 1) 4, zpow_mul]
  norm_num

theorem magnitude_mul_pow (d : Decimal) (r : Int) :
    d.magnitude * 10 ^ r = fractional 10 d.digits * 10 ^ d.cutPosition r := by
  rw [digits, fractional_places, magnitude_eq, pow_cutPosition]
  ring

theorem magnitude_eq_digits (d : Decimal) :
    d.magnitude = fractional 10 d.digits * 10000 ^ (d.weight + 1) := by
  rw [digits, fractional_places, magnitude_eq]

theorem magnitude_truncate_eq_take {d : Decimal} (h : ∀ g ∈ d.groups, g < 10000) (r : Int) :
    (d.truncate r).magnitude =
      fractional 10 (d.digits.take (d.cutPosition r).toNat) * 10000 ^ (d.weight + 1) := by
  unfold truncate
  dsimp only
  split
  next hcut => simp [Int.toNat_of_nonpos hcut]
  next hcut =>
    obtain ⟨n, hn⟩ := exists_flatMap_places_keepPlaces h (d.cutPosition r).toNat
    rw [magnitude_strip, magnitude_eq_digits]
    rw [digits, hn, fractional_append_zeros, digits]

/-- **Truncation rounds the number down.** -/
theorem magnitude_truncate {d : Decimal} (h : ∀ g ∈ d.groups, g < 10000) (r : Int) :
    (d.truncate r).magnitude = (⌊d.magnitude * 10 ^ r⌋₊ : ℚ) / 10 ^ r := by
  have hten : (10 : ℚ) ^ r ≠ 0 := zpow_ne_zero _ (by norm_num)
  rw [magnitude_truncate_eq_take h, magnitude_mul_pow]
  by_cases hcut : d.cutPosition r ≤ 0
  · -- the cut is at the left edge or before it, and the number is below one unit
    have hlt := fractional_lt_one (b := 10) (by decide) (flatMap_places_lt h)
    have hpow : (10 : ℚ) ^ d.cutPosition r ≤ 1 := zpow_le_one_of_nonpos₀ (by norm_num) hcut
    have hpos : (0 : ℚ) < 10 ^ d.cutPosition r := by positivity
    have hnonneg := fractional_nonneg (b := 10) d.digits
    have hfloor : ⌊fractional 10 d.digits * 10 ^ d.cutPosition r⌋₊ = 0 := by
      rw [Nat.floor_eq_zero]
      change fractional 10 d.digits < 1 at hlt
      nlinarith
    rw [hfloor, Int.toNat_of_nonpos hcut]
    simp
  · obtain ⟨p, hp⟩ := Int.eq_ofNat_of_zero_le (show 0 ≤ d.cutPosition r by omega)
    have hpow := pow_cutPosition d r
    have hweight : (10000 : ℚ) ^ (d.weight + 1) ≠ 0 := zpow_ne_zero _ (by norm_num)
    rw [hp, zpow_natCast] at hpow
    rw [hp, Int.toNat_natCast, digits, fractional_take (by decide) (flatMap_places_lt h),
      zpow_natCast]
    push_cast
    rw [hpow]
    field_simp

@[simp] theorem scale_truncate (d : Decimal) (r : Int) : (d.truncate r).scale = r.toNat := by
  unfold truncate
  dsimp only
  split
  · rfl
  · exact scale_strip _

theorem negative_truncate (d : Decimal) (r : Int) :
    (d.truncate r).negative = d.negative ∨ (d.truncate r).magnitude = 0 := by
  unfold truncate
  dsimp only
  split
  · exact Or.inr (magnitude_zero _)
  · rw [magnitude_strip]
    exact negative_strip _

theorem value_truncate {d : Decimal} (h : ∀ g ∈ d.groups, g < 10000) (r : Int) :
    (d.truncate r).value =
      (if d.negative then -1 else 1) * ((⌊|d.value| * 10 ^ r⌋₊ : ℚ) / 10 ^ r) := by
  rw [abs_value, ← magnitude_truncate h]
  rcases negative_truncate d r with hneg | hzero
  · rw [value, hneg]
    split <;> ring
  · rw [value_eq_zero hzero, hzero, mul_zero]

/-! ### What a truncation leaves -/

theorem length_groups_strip_le (d : Decimal) : d.strip.groups.length ≤ d.groups.length := by
  have hkept := (List.dropWhile_sublist (· == 0) (l := d.groups)).length_le
  obtain ⟨n, hn⟩ := exists_trimEnd_append (d.groups.dropWhile (· == 0))
  have htrim := congrArg List.length hn
  rw [List.length_append] at htrim
  unfold strip
  dsimp only
  split
  next => exact Nat.zero_le _
  next => dsimp only; omega

theorem length_keepPlaces_le (p : Nat) (groups : List Nat) :
    (keepPlaces p groups).length ≤ groups.length := by
  fun_induction keepPlaces p groups with
  | case1 | case2 => simp
  | case3 g rest | case4 g rest | case5 g rest => simp
  | case6 p g rest ih => simpa using ih

theorem length_groups_truncate_le (d : Decimal) (r : Int) :
    (d.truncate r).groups.length ≤ d.groups.length := by
  unfold truncate
  dsimp only
  split
  next => exact Nat.zero_le _
  next => exact (length_groups_strip_le _).trans (length_keepPlaces_le _ _)

theorem magnitude_truncate_le {d : Decimal} (h : ∀ g ∈ d.groups, g < 10000) (r : Int) :
    (d.truncate r).magnitude ≤ d.magnitude := by
  have hten : (0 : ℚ) < 10 ^ r := by positivity
  rw [magnitude_truncate h, div_le_iff₀ hten]
  exact Nat.floor_le (mul_nonneg d.magnitude_nonneg hten.le)

theorem weight_truncate_le {d : Decimal} (h : ∀ g ∈ d.groups, g < 10000) {r : Int}
    (hne : (d.truncate r).magnitude ≠ 0) : (d.truncate r).weight ≤ d.weight := by
  have hlow := (truncate_canonical h r).pow_weight_le hne
  have hlt : (10000 : ℚ) ^ (d.truncate r).weight < 10000 ^ (d.weight + 1) :=
    lt_of_le_of_lt (hlow.trans (magnitude_truncate_le h r)) (Canonical.magnitude_lt h)
  have := (zpow_lt_zpow_iff_right₀ (by norm_num : (1 : ℚ) < 10000)).1 hlt
  omega

theorem neg_lt_weight_truncate {d : Decimal} (h : ∀ g ∈ d.groups, g < 10000) {r : Int}
    (hne : (d.truncate r).magnitude ≠ 0) : -r < 4 * ((d.truncate r).weight + 1) := by
  have hten : (0 : ℚ) < 10 ^ r := by positivity
  have hunit : (10 : ℚ) ^ (-r) ≤ (d.truncate r).magnitude := by
    rw [magnitude_truncate h] at hne ⊢
    have hcount : ⌊d.magnitude * 10 ^ r⌋₊ ≠ 0 := by
      intro hzero
      exact hne (by rw [hzero, Nat.cast_zero, zero_div])
    have hone : (1 : ℚ) ≤ ⌊d.magnitude * 10 ^ r⌋₊ := by
      exact_mod_cast Nat.one_le_iff_ne_zero.2 hcount
    rw [zpow_neg, le_div_iff₀ hten, inv_mul_cancel₀ hten.ne']
    exact hone
  have hlt : (10 : ℚ) ^ (-r) < 10 ^ (4 * ((d.truncate r).weight + 1)) := by
    refine lt_of_le_of_lt hunit (lt_of_lt_of_eq
      (Canonical.magnitude_lt (truncate_canonical h r).group_lt) ?_)
    rw [zpow_mul]
    norm_num
  exact (zpow_lt_zpow_iff_right₀ (by norm_num : (1 : ℚ) < 10)).1 hlt

/-- **A second truncation** at the same scale changes nothing. -/
theorem truncate_truncate {d : Decimal} (h : ∀ g ∈ d.groups, g < 10000) (r : Int) :
    (d.truncate r).truncate r = d.truncate r := by
  have hcut := truncate_canonical h r
  have hten : (10 : ℚ) ^ r ≠ 0 := zpow_ne_zero _ (by norm_num)
  have hmag : ((d.truncate r).truncate r).magnitude = (d.truncate r).magnitude := by
    rw [magnitude_truncate hcut.group_lt, magnitude_truncate h, div_mul_cancel₀ _ hten,
      Nat.floor_natCast]
  refine (truncate_canonical hcut.group_lt r).eq_of_value_eq hcut (by simp) ?_
  rcases negative_truncate (d.truncate r) r with hneg | hzero
  · rw [value, value, hneg, hmag]
  · rw [value_eq_zero hzero, value_eq_zero (hmag ▸ hzero)]

/-! ### Digits behind the last place shown -/

/-- Every digit stored behind the last place shown is zero. -/
def AllShown (d : Decimal) : Prop :=
  ∀ (i x : Nat), d.digits[i]? = some x → x ≠ 0 → (i : Int) < d.cutPosition d.scale

theorem all_zero_of_fractional_eq_zero {ds : List Nat} (h : fractional 10 ds = 0) :
    ∀ x ∈ ds, x = 0 := by
  induction ds with
  | nil => simp
  | cons d rest ih =>
    have hnonneg := fractional_nonneg (b := 10) rest
    have hd : (0 : ℚ) ≤ d := Nat.cast_nonneg d
    rw [fractional_cons, div_eq_zero_iff] at h
    have hsum : (d : ℚ) + fractional 10 rest = 0 := h.resolve_right (by norm_num)
    have hzero : (d : ℚ) = 0 := by linarith
    intro x hx
    rcases List.mem_cons.1 hx with rfl | hx
    · exact_mod_cast hzero
    · exact ih (by linarith) x hx

theorem fractional_take_eq_iff (ds : List Nat) (k : Nat) :
    fractional 10 (ds.take k) = fractional 10 ds ↔
      ∀ i x, ds[i]? = some x → x ≠ 0 → i < k := by
  have hsplit : fractional 10 ds =
      fractional 10 (ds.take k) + fractional 10 (ds.drop k) / 10 ^ (ds.take k).length := by
    conv_lhs => rw [← List.take_append_drop k ds, fractional_append]
    rfl
  constructor
  · intro h i x hi hx
    by_contra hk
    rw [hsplit, left_eq_add, div_eq_zero_iff] at h
    have hzero := all_zero_of_fractional_eq_zero (h.resolve_right (by positivity))
    refine hx (hzero x (List.mem_iff_getElem?.2 ⟨i - k, ?_⟩))
    rw [List.getElem?_drop, Nat.add_sub_cancel' (by omega), hi]
  · intro h
    have hzeros : ds.drop k = List.replicate (ds.drop k).length 0 := by
      refine List.eq_replicate_of_mem fun x hx => ?_
      obtain ⟨i, hi⟩ := List.mem_iff_getElem?.1 hx
      rw [List.getElem?_drop] at hi
      by_contra hne
      have := h _ _ hi hne
      omega
    rw [hsplit, hzeros, fractional_zeros, zero_div, add_zero]

/-- **A truncation at the own scale** leaves a decimal alone exactly when nothing is hidden. -/
theorem truncate_scale_eq_self_iff {d : Decimal} (h : d.Canonical) :
    d.truncate d.scale = d ↔ d.AllShown := by
  have hweight : (10000 : ℚ) ^ (d.weight + 1) ≠ 0 := zpow_ne_zero _ (by norm_num)
  have hmag : (d.truncate d.scale).magnitude = d.magnitude ↔ d.AllShown := by
    rw [magnitude_truncate_eq_take h.group_lt, magnitude_eq_digits d, mul_left_inj' hweight,
      fractional_take_eq_iff, AllShown]
    refine forall_congr' fun i => forall_congr' fun x => forall_congr' fun _ =>
      forall_congr' fun _ => ?_
    omega
  rw [← hmag]
  constructor
  · intro heq
    rw [heq]
  · intro heq
    refine Canonical.eq_of_value_eq (truncate_canonical h.group_lt _) h (by simp) ?_
    rcases negative_truncate d d.scale with hneg | hzero
    · rw [value, value, hneg, heq]
    · rw [value_eq_zero hzero, value_eq_zero (heq ▸ hzero)]

end Decimal

end SqlWire
