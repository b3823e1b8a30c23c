import SqlWire.Numeric.Basic

/-!
# Rounding and truncation

Cutting a decimal at a scale keeps some number of decimal places, counted from
the left edge of the first group.  `keepPlaces` drops what lies beyond;
`roundPlaces` also adds one unit of the last kept place when the first dropped
place is five or more, so that halves go away from zero.  Both walk the groups
once, four places a step, and rounding hands its carry back to the left; no
more than one is ever carried (`roundPlaces_carry_le`).
-/

namespace SqlWire

namespace Decimal

/-- The first `p` decimal places of a run of groups; the other places of a group that is cut become
zeros. -/
def keepPlaces : Nat → List Nat → List Nat
  | _, [] => []
  | 0, _ => []
  | 1, g :: _ => [g / 1000 * 1000]
  | 2, g :: _ => [g / 100 * 100]
  | 3, g :: _ => [g / 10 * 10]
  | p + 4, g :: rest => g :: keepPlaces p rest

/-- Puts a group in front of the others, and carries what it holds beyond 9999. -/
def carry (g : Nat) (rest : List Nat) : Nat × List Nat := (g / 10000, g % 10000 :: rest)

/-- The first `p` decimal places of a run of groups, rounded, and the carry out of the first
group. -/
def roundPlaces : Nat → List Nat → Nat × List Nat
  | _, [] => (0, [])
  | 0, g :: _ => (if 5000 ≤ g then 1 else 0, [])
  | 1, g :: _ => carry ((g + 500) / 1000 * 1000) []
  | 2, g :: _ => carry ((g + 50) / 100 * 100) []
  | 3, g :: _ => carry ((g + 5) / 10 * 10) []
  | p + 4, g :: rest =>
    let (c, rest) := roundPlaces p rest
    carry (g + c) rest

/-- Where a cut at scale `r` falls: how many decimal places it keeps, counted from the left edge of
the first group. -/
def cutPosition (d : Decimal) (r : Int) : Int := (d.weight + 1) * 4 + r

/-- Rounds to scale `r`, halves away from zero.  A negative scale rounds to a power of ten. -/
def round (d : Decimal) (r : Int) : Decimal :=
  let p := d.cutPosition r
  if p < 0 then zero r.toNat
  else match roundPlaces p.toNat d.groups with
    | (0, groups) => strip ⟨d.negative, d.weight, r.toNat, groups⟩
    | (c, groups) => strip ⟨d.negative, d.weight + 1, r.toNat, c :: groups⟩

/-- Truncates to scale `r`, toward zero. -/
def truncate (d : Decimal) (r : Int) : Decimal :=
  let p := d.cutPosition r
  if p ≤ 0 then zero r.toNat
  else strip ⟨d.negative, d.weight, r.toNat, keepPlaces p.toNat d.groups⟩

/-! ### Cutting keeps the groups below 10000 -/

theorem keepPlaces_lt {groups : List Nat} (h : ∀ g ∈ groups, g < 10000) (p : Nat) :
    ∀ g ∈ keepPlaces p groups, g < 10000 := by
  fun_induction keepPlaces p groups with
  | case1 | case2 => simp
  | case3 g rest | case4 g rest | case5 g rest =>
    have := h g List.mem_cons_self
    simp only [List.mem_singleton, forall_eq]
    omega
  | case6 p g rest ih =>
    intro x hx
    rcases List.mem_cons.1 hx with rfl | hx
    · exact h _ List.mem_cons_self
    · exact ih (fun y hy => h y (List.mem_cons_of_mem _ hy)) x hx

/-- The rounded places are groups again, whatever was rounded. -/
theorem roundPlaces_lt (p : Nat) (groups : List Nat) :
    ∀ g ∈ (roundPlaces p groups).2, g < 10000 := by
  fun_induction roundPlaces p groups with
  | case1 | case2 => simp
  | case3 g rest | case4 g rest | case5 g rest =>
    simp only [carry, List.mem_singleton, forall_eq]
    omega
  | case6 p g rest c rest' heq ih =>
    intro x hx
    rcases List.mem_cons.1 hx with rfl | hx
    · omega
    · exact ih x (by rw [heq]; exact hx)

theorem roundPlaces_carry_le {groups : List Nat} (h : ∀ g ∈ groups, g < 10000) (p : Nat) :
    (roundPlaces p groups).1 ≤ 1 := by
  fun_induction roundPlaces p groups with
  | case1 => simp
  | case2 g rest => dsimp only; split <;> omega
  | case3 g rest | case4 g rest | case5 g rest =>
    have := h g List.mem_cons_self
    simp only [carry]
    omega
  | case6 p g rest c rest' heq ih =>
    have := h g List.mem_cons_self
    have hc := ih fun y hy => h y (List.mem_cons_of_mem _ hy)
    rw [heq] at hc
    simp only [carry]
    omega

theorem truncate_canonical {d : Decimal} (h : ∀ g ∈ d.groups, g < 10000) (r : Int) :
    (d.truncate r).Canonical := by
  unfold truncate
  dsimp only
  split
  · exact zero_canonical _
  · exact strip_canonical (keepPlaces_lt h _)

theorem round_canonical {d : Decimal} (h : ∀ g ∈ d.groups, g < 10000) (r : Int) :
    (d.round r).Canonical := by
  unfold round
  dsimp only
  split
  · exact zero_canonical _
  · have hlt := roundPlaces_lt (d.cutPosition r).toNat d.groups
    have hle := roundPlaces_carry_le h (d.cutPosition r).toNat
    split
    next groups heq =>
      rw [heq] at hlt
      exact strip_canonical hlt
    next c groups _ heq =>
      rw [heq] at hlt hle
      refine strip_canonical fun g hg => ?_
      rcases List.mem_cons.1 hg with rfl | hg
      · exact Nat.lt_of_le_of_lt hle (by decide)
      · exact hlt g hg

end Decimal

namespace Numeric

/-- Rounds to scale `r`, halves away from zero. -/
def round (n : Numeric) (r : Int) : Numeric := n.map (·.round r)

/-- Truncates to scale `r`, toward zero. -/
def truncate (n : Numeric) (r : Int) : Numeric := n.map (·.truncate r)

end Numeric

end SqlWire
