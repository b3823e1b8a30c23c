import SqlWire.Proofs.Numeric.SafeCuts

/-!
# What a machine cuts of a canonical decimal

`Decimal.Within` asks for weights far from the least and the largest word, since stripping takes as
much from a weight as there are zeros in front.  A canonical decimal begins with no zero, and then a
cut leaves at most one in front (`leading_keepPlaces_le`, `leading_settle_le`).  So the machine
truncates every canonical decimal that it can hold at all (`Canonical.truncate?_eq`), and rounds it
if the next weight is a word too (`Canonical.round?_eq`).
-/

namespace SqlWire

namespace Decimal

open FixedWidth

variable {d : Decimal} {r : Int}

/-! ### Decimals that begin with no zero -/

section

variable {groups : List Nat} (hhead : groups.head? ≠ some 0)
include hhead

/-- Only a group that is cut can become a zero in front of the others. -/
theorem leading_keepPlaces_le (p : Nat) :
    ((keepPlaces p groups).takeWhile (· == 0)).length ≤ 1 := by
  fun_cases keepPlaces p groups with
  | case1 | case2 => exact Nat.zero_le _
  | case3 g rest | case4 g rest | case5 g rest => exact (List.takeWhile_sublist _).length_le
  | case6 p g rest =>
    have hg : g ≠ 0 := by simpa using hhead
    rw [List.takeWhile_cons_of_neg (by simpa using hg)]
    exact Nat.zero_le _

theorem leading_settle_le (weight : Int) (p : Nat) :
    ((settle weight (roundPlaces p groups)).2.takeWhile (· == 0)).length ≤ 1 := by
  unfold settle
  split
  next hcarry =>
    fun_cases roundPlaces p groups with
    | case1 | case2 => exact Nat.zero_le _
    | case3 g rest | case4 g rest | case5 g rest => exact (List.takeWhile_sublist _).length_le
    | case6 p g rest c rest' heq =>
      -- without a carry the first group is no less than it was
      have hg : g ≠ 0 := by simpa using hhead
      rw [roundPlaces, heq] at hcarry
      have hfirst : (g + c) % 10000 ≠ 0 := by
        have : (g + c) / 10000 = 0 := hcarry
        omega
      dsimp only [carry]
      rw [List.takeWhile_cons_of_neg (by simpa using hfirst)]
      exact Nat.zero_le _
  next hcarry =>
    rw [List.takeWhile_cons_of_neg (by simpa using hcarry)]
    exact Nat.zero_le _

end

theorem weight_strip (d : Decimal) : d.strip.weight = 0 ∨
    d.strip.weight = d.weight - (d.groups.takeWhile (· == 0)).length := by
  have hdropped := length_sub_length_dropWhile d.groups
  unfold strip
  dsimp only
  split
  next => exact .inl rfl
  next => exact .inr (by rw [← hdropped])

/-- Rounding moves the weight by one at most, unless it leaves zero. -/
theorem weight_round_bounds (hhead : d.groups.head? ≠ some 0) (r : Int) :
    min (d.weight - 1) 0 ≤ (d.round r).weight ∧ (d.round r).weight ≤ max (d.weight + 1) 0 := by
  rw [round_eq]
  split
  next =>
    have hzero : (zero r.toNat).weight = 0 := rfl
    omega
  next =>
    have hleading := leading_settle_le hhead d.weight (d.cutPosition r).toNat
    have hsettle := weight_settle d.weight (roundPlaces (d.cutPosition r).toNat d.groups)
    generalize settle d.weight (roundPlaces (d.cutPosition r).toNat d.groups) = settled
      at hleading hsettle
    obtain ⟨weight, groups⟩ := settled
    dsimp only at hleading hsettle ⊢
    rcases weight_strip ⟨d.negative, weight, r.toNat, groups⟩ with hweight | hweight
    · omega
    · dsimp only at hweight
      omega

section

variable (h : d.Canonical) (hwords : d.InWords) (hr : -2147483648 ≤ r ∧ r ≤ 2147483647)
include h hwords hr

/-- **The machine truncates any canonical decimal** that it holds. -/
theorem Canonical.truncate?_eq : d.truncate? r = some (d.truncate r) := by
  refine truncate?_eq_of_strip hwords h.group_lt hr fun hp => ?_
  have hleading := leading_keepPlaces_le h.head_ne_zero (d.cutPosition r).toNat
  -- a cut behind the left edge keeps the weight away from the least word
  have hcut : d.cutPosition r = (d.weight + 1) * 4 + r := rfl
  have hhigh := hwords.weight_le
  exact strip?_eq_of_leading rfl (by dsimp only; omega) (by dsimp only; omega)
    (by dsimp only; omega)

/-- **The machine rounds any canonical decimal** that it holds, if a carry has room. -/
theorem Canonical.round?_eq (hnext : d.weight + 1 ≤ 2147483647) :
    d.round? r = some (d.round r) := by
  refine round?_eq_of_strip hwords h.group_lt hr hnext ?_
  rintro hp _ rfl
  have hleading := leading_settle_le h.head_ne_zero d.weight (d.cutPosition r).toNat
  have hweight := weight_settle d.weight (roundPlaces (d.cutPosition r).toNat d.groups)
  have hcut : d.cutPosition r = (d.weight + 1) * 4 + r := rfl
  exact strip?_eq_of_leading rfl (by dsimp only; omega) (by dsimp only; omega)
    (by dsimp only; omega)

end

end Decimal

end SqlWire
