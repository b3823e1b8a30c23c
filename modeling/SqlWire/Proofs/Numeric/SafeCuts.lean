import SqlWire.Numeric.FixedWidth
import SqlWire.Proofs.Numeric.Truncation

/-!
# What a machine cuts

`Decimal.Within` bounds the weight and the number of groups.  `truncate?_eq` and `round?_eq` say
that within wide bounds the steps of a machine go through, and that they reach what
`Decimal.truncate` and `Decimal.round` are.

All but the last step, the stripping, goes through for any decimal that a machine can hold at all
(`truncate?_eq_of_strip`, `round?_eq_of_strip`).

A cut after `4 * k + part` places leaves the first `k` groups whole and cuts the next one after
`part` places (`keepPlaces_eq`).  In rounding, what the cut group carries goes through the whole
groups from right to left, which is a fold over them (`roundPlaces_eq`), and the loop of a machine
is that fold (`carryInto?_eq`).
-/

namespace SqlWire

namespace Decimal

open FixedWidth

/-! ### Bounds -/

/-- The weight is no further than `reach` from zero, and there are at most `count` groups. -/
structure Within (reach count : Nat) (d : Decimal) : Prop where
  weight_ge : -reach ≤ d.weight
  weight_le : d.weight ≤ reach
  length_le : d.groups.length ≤ count
  group_lt : ∀ g ∈ d.groups, g < 10000

variable {d : Decimal} {reach count : Nat} {r : Int}

theorem within_zero (reach count scale : Nat) : (zero scale).Within reach count where
  weight_ge := by simp [zero]
  weight_le := by simp [zero]
  length_le := Nat.zero_le _
  group_lt := nofun

theorem Within.mono (h : d.Within reach count) {reach' count' : Nat} (hreach : reach ≤ reach')
    (hcount : count ≤ count') : d.Within reach' count' where
  weight_ge := by have := h.weight_ge; omega
  weight_le := by have := h.weight_le; omega
  length_le := h.length_le.trans hcount
  group_lt := h.group_lt

theorem Within.strip (h : d.Within reach count) : d.strip.Within (reach + count) count := by
  have hkept := (List.dropWhile_sublist (· == 0) (l := d.groups)).length_le
  have hlength := h.length_le
  have hlow := h.weight_ge
  have hhigh := h.weight_le
  unfold Decimal.strip
  dsimp only
  split
  next => exact within_zero _ _ _
  next hne =>
    obtain ⟨zeros, hzeros⟩ := exists_trimEnd_append (d.groups.dropWhile (· == 0))
    have htrim := congrArg List.length hzeros
    rw [List.length_append] at htrim
    refine ⟨?_, ?_, ?_, ?_⟩
    · dsimp only
      omega
    · dsimp only
      omega
    · dsimp only
      omega
    · intro g hg
      exact h.group_lt g ((List.dropWhile_sublist _).subset (mem_of_mem_trimEnd hg))

/-- The decimal as a machine holds it: the weight is a word of 32 bits, and an index counts the
groups. -/
structure InWords (d : Decimal) : Prop where
  weight_ge : -2147483648 ≤ d.weight
  weight_le : d.weight ≤ 2147483647
  length_le : d.groups.length ≤ maxIndex

theorem Within.inWords (h : d.Within reach count) (hbound : reach + count ≤ 2147483647) :
    d.InWords where
  weight_ge := by have := h.weight_ge; omega
  weight_le := by have := h.weight_le; omega
  length_le := by have := h.length_le; rw [maxIndex]; omega

/-! ### Groups in front of a cut -/

/-- Carries into groups from the right. -/
def carryThrough (front : List Nat) (behind : Nat × List Nat) : Nat × List Nat :=
  front.foldr (fun g behind => carry (g + behind.1) behind.2) behind

/-- Rounded groups and the weight of the first of them.  A carry out of the groups is one more. -/
def settle (weight : Int) (rounded : Nat × List Nat) : Int × List Nat :=
  if rounded.1 = 0 then (weight, rounded.2) else (weight + 1, rounded.1 :: rounded.2)

theorem keepPlaces_nil (p : Nat) : keepPlaces p [] = [] := by
  unfold keepPlaces
  rfl

theorem roundPlaces_nil (p : Nat) : roundPlaces p [] = (0, []) := by
  unfold roundPlaces
  rfl

theorem keepPlaces_eq (k part : Nat) (groups : List Nat) :
    keepPlaces (4 * k + part) groups = groups.take k ++ keepPlaces part (groups.drop k) := by
  induction k generalizing groups with
  | zero => simp
  | succ k ih =>
    cases groups with
    | nil => simp [keepPlaces_nil]
    | cons g rest =>
      rw [show 4 * (k + 1) + part = 4 * k + part + 4 by omega, keepPlaces, ih]
      rfl

theorem roundPlaces_eq (k part : Nat) (groups : List Nat) :
    roundPlaces (4 * k + part) groups =
      carryThrough (groups.take k) (roundPlaces part (groups.drop k)) := by
  induction k generalizing groups with
  | zero => simp [carryThrough]
  | succ k ih =>
    cases groups with
    | nil => simp [roundPlaces_nil, carryThrough]
    | cons g rest =>
      rw [show 4 * (k + 1) + part = 4 * k + part + 4 by omega, roundPlaces, ih]
      rfl

theorem carryThrough_zero {front : List Nat} (h : ∀ g ∈ front, g < 10000) (behind : List Nat) :
    carryThrough front (0, behind) = (0, front ++ behind) := by
  induction front with
  | nil => rfl
  | cons g rest ih =>
    have hg := h g List.mem_cons_self
    have hrest := ih fun x hx => h x (List.mem_cons_of_mem _ hx)
    rw [carryThrough, List.foldr_cons, ← carryThrough, hrest, carry]
    simp only [Nat.add_zero, Nat.div_eq_of_lt hg, Nat.mod_eq_of_lt hg, List.cons_append]

theorem carryThrough_concat (front : List Nat) (g : Nat) (behind : Nat × List Nat) :
    carryThrough (front ++ [g]) behind =
      carryThrough front (carry (g + behind.1) behind.2) := by
  rw [carryThrough, List.foldr_append]
  rfl

/-- **The loop that carries is the fold.** -/
theorem carryInto?_eq {front : List Nat} (h : ∀ g ∈ front, g < 10000) (behind : List Nat)
    {weight : Int} (hlow : -2147483649 ≤ weight) (hhigh : weight < 2147483647) :
    carryInto? front.length weight (front ++ behind) =
      some (settle weight (carryThrough front (1, behind))) := by
  induction front using List.reverseRecOn generalizing behind with
  | nil =>
    rw [List.length_nil, carryInto?, int32?_eq (by omega)]
    rfl
  | append_singleton front g ih =>
    have hg : g < 10000 := h g (by simp)
    have hfront : ∀ x ∈ front, x < 10000 := fun x hx => h x (List.mem_append_left _ hx)
    have hget : (front ++ [g] ++ behind)[front.length]? = some g := by simp
    have hset (x : Nat) : (front ++ [g] ++ behind).set front.length x =
        front ++ (x :: behind) := by simp
    have hbumped : word16? ((g : Int) + 1) = some (g + 1) := by
      rw [← Nat.cast_succ]
      exact word16?_natCast (by omega)
    rw [List.length_append, List.length_singleton, carryInto?, hget, carryThrough_concat,
      Option.bind_eq_bind, Option.bind_some, hbumped, Option.bind_some]
    by_cases hcarries : 10000 ≤ g + 1
    · have hcarry : carry (g + 1) behind = (1, 0 :: behind) := by
        rw [show g + 1 = 10000 by omega]
        simp [carry]
      rw [if_pos hcarries, hset, ih hfront, hcarry]
    · have hcarry : carry (g + 1) behind = (0, (g + 1) :: behind) := by
        rw [carry, Nat.div_eq_of_lt (by omega), Nat.mod_eq_of_lt (by omega)]
      rw [if_neg hcarries, hset, hcarry, carryThrough_zero hfront]
      rfl

/-! ### Where a cut falls -/

theorem cut?_eq {weight : Int} (hlow : -2147483648 ≤ weight) (hhigh : weight ≤ 2147483647)
    (hr : -2147483648 ≤ r ∧ r ≤ 2147483647) : cut? weight r = some ((weight + 1) * 4 + r) := by
  rw [cut?, int64?_eq (by omega), Option.bind_eq_bind, Option.bind_some, int64?_eq (by omega),
    Option.bind_some, int64?_eq (by omega)]

theorem splitCut?_eq {k part : Nat} (hpart : part < 4) (hbound : k ≤ 4294967296) :
    splitCut? ((4 * k + part : Nat) : Int) = some (if part = 0 then k else k + 1, part) := by
  have hmod : ((4 * k + part : Nat) : Int).tmod 4 = part := by
    rw [Int.tmod_eq_emod_of_nonneg (by omega)]
    omega
  have hdiv : (((4 * k + part : Nat) : Int) + 4 - 1).tdiv 4 =
      ((if part = 0 then k else k + 1 : Nat) : Int) := by
    rw [Int.tdiv_eq_ediv_of_nonneg (by omega)]
    split <;> omega
  have hindex : (if part = 0 then k else k + 1) ≤ maxIndex := by
    rw [maxIndex]
    split <;> omega
  rw [splitCut?, int64?_eq (by omega), Option.bind_eq_bind, Option.bind_some,
    int64?_eq (by omega), Option.bind_some, hmod, hdiv,
    index?_natCast (by rw [maxIndex]; omega), index?_natCast hindex]
  rfl

theorem length_sub_length_dropWhile (groups : List Nat) :
    groups.length - (groups.dropWhile (· == 0)).length = (groups.takeWhile (· == 0)).length := by
  have hcount := congrArg List.length
    (List.takeWhile_append_dropWhile (p := (· == 0)) (l := groups))
  rw [List.length_append] at hcount
  omega

/-- Stripping goes through when the weight without the zeros in front is a word. -/
theorem strip?_eq_of_leading {leading : Nat}
    (hleading : (d.groups.takeWhile (· == 0)).length = leading) (hcount : leading ≤ 2147483647)
    (hlow : -2147483648 ≤ d.weight - leading) (hhigh : d.weight - leading ≤ 2147483647) :
    d.strip? = some d.strip := by
  have hsplit := List.takeWhile_append_dropWhile (p := (· == 0)) (l := d.groups)
  have hdrop : d.groups.drop leading = d.groups.dropWhile (· == 0) := by
    have hleft : (d.groups.takeWhile (· == 0) ++ d.groups.dropWhile (· == 0)).drop
        (d.groups.takeWhile (· == 0)).length = d.groups.dropWhile (· == 0) := List.drop_left
    rwa [hsplit, hleading] at hleft
  have hdropped := length_sub_length_dropWhile d.groups
  have hlength : ¬ d.groups.length < leading := by
    have := (List.takeWhile_sublist (· == 0) (l := d.groups)).length_le
    omega
  rw [strip?, hleading, int32?_eq (by omega), Option.bind_eq_bind, Option.bind_some,
    int32?_eq (by omega), Option.bind_some, if_neg hlength, hdrop, strip, hdropped, hleading]
  cases trimEnd (d.groups.dropWhile (· == 0)) <;> rfl

theorem strip?_eq (h : d.Within reach count) (hbound : reach + count ≤ 2147483647) :
    d.strip? = some d.strip := by
  have hlow := h.weight_ge
  have hhigh := h.weight_le
  have hlength := h.length_le
  have hleading := (List.takeWhile_sublist (· == 0) (l := d.groups)).length_le
  exact strip?_eq_of_leading rfl (by omega) (by omega) (by omega)

/-- Where stripping does not go through it comes to nothing, and not to another decimal. -/
theorem of_strip? {d' : Decimal} (h : d.strip? = some d') : d' = d.strip := by
  obtain ⟨dropped, hdropped, hrest⟩ := Option.bind_eq_some_iff.1 h
  obtain ⟨rfl, -, hcount⟩ := of_int32? hdropped
  obtain ⟨weight, hweight, -⟩ := Option.bind_eq_some_iff.1 hrest
  obtain ⟨rfl, hlow, hhigh⟩ := of_int32? hweight
  rw [strip?_eq_of_leading rfl (by omega) hlow hhigh] at h
  exact (Option.some.inj h).symm

/-! ### The group that is cut -/

/-- The place behind which a group is cut has a unit, and this is how a cut and a rounding are done
with it. -/
theorem exists_unit {part : Nat} (hpos : 0 < part) (hlt : part < 4) :
    ∃ unit, units[part]? = some unit ∧ 0 < unit ∧ unit ≤ 1000 ∧
      ∀ g rest, keepPlaces part (g :: rest) = [g - g % unit] ∧
        roundPlaces part (g :: rest) =
          carry (if unit / 2 ≤ g % unit then g - g % unit + unit else g - g % unit) [] := by
  obtain rfl | rfl | rfl : part = 1 ∨ part = 2 ∨ part = 3 := by omega
  · refine ⟨1000, rfl, by decide, by decide, fun g rest => ⟨?_, ?_⟩⟩
    · exact congrArg (· :: []) (by omega)
    · exact congrArg (carry · []) (by split <;> omega)
  · refine ⟨100, rfl, by decide, by decide, fun g rest => ⟨?_, ?_⟩⟩
    · exact congrArg (· :: []) (by omega)
    · exact congrArg (carry · []) (by split <;> omega)
  · refine ⟨10, rfl, by decide, by decide, fun g rest => ⟨?_, ?_⟩⟩
    · exact congrArg (· :: []) (by omega)
    · exact congrArg (carry · []) (by split <;> omega)

theorem cutGroup?_eq {part unit g : Nat} (hunit : units[part]? = some unit) (hpos : 0 < unit)
    (hg : g < 10000) (front : List Nat) :
    cutGroup? (front ++ [g]) front.length part = some (unit, g - g % unit, g % unit) := by
  have hget : (front ++ [g])[front.length]? = some g := List.getElem?_concat_length
  have hkept : word16? ((g : Int) - (g % unit : Nat)) = some (g - g % unit) := by
    rw [← Nat.cast_sub (Nat.mod_le g unit)]
    exact word16?_natCast (by omega)
  rw [cutGroup?, hunit, Option.bind_eq_bind, Option.bind_some, hget, Option.bind_some,
    rem?_eq (Nat.ne_of_gt hpos), Option.bind_some, hkept]
  rfl

theorem exists_eq_append {groups : List Nat} {k : Nat} (h : k < groups.length) :
    ∃ front g rest, groups = front ++ g :: rest ∧ front.length = k :=
  ⟨groups.take k, groups[k], groups.drop (k + 1), by simp, List.length_take_of_le h.le⟩

theorem take_length_succ (front : List Nat) (g : Nat) (rest : List Nat) :
    (front ++ g :: rest).take (front.length + 1) = front ++ [g] := by
  rw [List.append_cons]
  exact List.take_left' (by simp)

theorem index?_pred {k : Nat} (h : k ≤ maxIndex) : index? ((k + 1 : Nat) - 1) = some k := by
  rw [Nat.cast_succ, add_sub_cancel_right]
  exact index?_natCast h

theorem keepGroups?_eq {groups : List Nat} (h : ∀ g ∈ groups, g < 10000)
    (hlength : groups.length ≤ maxIndex) {k part : Nat} (hpart : part < 4) :
    keepGroups? groups (if part = 0 then k else k + 1) part =
      some (keepPlaces (4 * k + part) groups) := by
  rw [keepGroups?, keepPlaces_eq]
  by_cases hbehind : groups.length ≤ k
  · have htake := List.take_of_length_le hbehind
    rw [List.drop_of_length_le hbehind, keepPlaces_nil, List.append_nil, htake]
    rcases Nat.eq_zero_or_pos part with rfl | hpos
    · simp only [if_pos, htake, ite_self]
    · rw [if_neg (Nat.ne_of_gt hpos), if_pos (Nat.lt_succ_of_le hbehind)]
  obtain ⟨front, g, rest, rfl, rfl⟩ := exists_eq_append (Nat.lt_of_not_le hbehind)
  rw [List.take_left, List.drop_left]
  rcases Nat.eq_zero_or_pos part with rfl | hpos
  · rw [if_pos rfl, if_neg (fun hlt => hbehind hlt.le), if_pos rfl, List.take_left]
    exact congrArg some (List.append_nil front).symm
  · obtain ⟨unit, hunit, hunitpos, -, hcut⟩ := exists_unit hpos hpart
    have htake := take_length_succ front g rest
    have hg : g < 10000 := h g (by simp)
    have hzero : part ≠ 0 := Nat.ne_of_gt hpos
    have hwithin : ¬ (front ++ g :: rest).length < front.length + 1 := by simp
    rw [if_neg hzero, if_neg hwithin, if_neg hzero, htake,
      index?_pred (by rw [List.length_append] at hlength; omega), Option.bind_eq_bind,
      Option.bind_some, cutGroup?_eq hunit hunitpos hg, (hcut g rest).1]
    exact congrArg some (by simp)

/-- What a group rounds to may be more than a group, and then it carries one. -/
theorem roundGroup?_eq {part unit g : Nat} (hunit : units[part]? = some unit) (hpos : 0 < unit)
    (hle : unit ≤ 1000) (hg : g < 10000) (front : List Nat) :
    let x := if unit / 2 ≤ g % unit then g - g % unit + unit else g - g % unit
    roundGroup? (front ++ [g]) front.length part =
      some (decide (10000 ≤ x), front ++ [x % 10000]) := by
  have hset (x : Nat) : (front ++ [g]).set front.length x = front ++ [x] := by simp
  rw [roundGroup?, cutGroup?_eq hunit hpos hg, Option.bind_eq_bind, Option.bind_some]
  dsimp only
  by_cases hhalf : unit / 2 ≤ g % unit
  · have hbumped : word16? ((g - g % unit : Nat) + (unit : Nat)) =
        some (g - g % unit + unit) := by
      rw [← Nat.cast_add]
      exact word16?_natCast (by omega)
    rw [if_pos hhalf, if_pos hhalf, hbumped, Option.bind_eq_bind, Option.bind_some]
    by_cases hcarries : 10000 ≤ g - g % unit + unit
    · have hexcess : word16? ((g - g % unit + unit : Nat) - 10000) =
          some ((g - g % unit + unit) % 10000) := by
        rw [show ((g - g % unit + unit : Nat) : Int) - 10000 =
          ((g - g % unit + unit) % 10000 : Nat) by omega]
        exact word16?_natCast (by omega)
      rw [if_pos hcarries, hexcess, Option.bind_some, hset, decide_eq_true hcarries]
      rfl
    · rw [if_neg hcarries, hset, decide_eq_false hcarries,
        Nat.mod_eq_of_lt (Nat.lt_of_not_le hcarries)]
      rfl
  · have hlt : ¬ 10000 ≤ g - g % unit := by omega
    rw [if_neg hhalf, if_neg hhalf, hset, decide_eq_false hlt,
      Nat.mod_eq_of_lt (Nat.lt_of_not_le hlt)]
    rfl

theorem carryOn_eq {front : List Nat} (h : ∀ g ∈ front, g < 10000) (behind : List Nat)
    (carries : Bool) {weight : Int} (hlow : -2147483649 ≤ weight) (hhigh : weight < 2147483647) :
    (if carries then carryInto? front.length weight (front ++ behind)
      else some (weight, front ++ behind)) =
      some (settle weight (carryThrough front (carries.toNat, behind))) := by
  cases carries with
  | true => exact carryInto?_eq h behind hlow hhigh
  | false =>
    rw [Bool.toNat_false, carryThrough_zero h]
    rfl

/-- The group that is cut gives a carry and what is left of it.  When the cut is right in front of
it, it gives no more than the carry. -/
theorem roundLast?_eq {front : List Nat} {g : Nat} (hg : g < 10000) (rest : List Nat)
    (hlength : front.length ≤ maxIndex) {part : Nat} (hpart : part < 4) :
    ∃ carries behind, roundPlaces part (g :: rest) = (carries.toNat, behind) ∧
      roundLast? (front ++ g :: rest) (if part = 0 then front.length else front.length + 1) part =
        some (carries, front.length, front ++ behind) := by
  rw [roundLast?]
  rcases Nat.eq_zero_or_pos part with rfl | hpos
  · have hget : (front ++ g :: rest)[front.length]? = some g := by simp
    refine ⟨decide (5000 ≤ g), [], ?_, ?_⟩
    · rw [roundPlaces]
      by_cases hhalf : 5000 ≤ g
      · rw [if_pos hhalf, decide_eq_true hhalf]
        rfl
      · rw [if_neg hhalf, decide_eq_false hhalf]
        rfl
    · rw [if_pos rfl, if_pos rfl, hget, Option.bind_eq_bind, Option.bind_some, List.take_left,
        List.append_nil]
      rfl
  · obtain ⟨unit, hunit, hunitpos, hunitle, hplaces⟩ := exists_unit hpos hpart
    have hzero : part ≠ 0 := Nat.ne_of_gt hpos
    have hround := roundGroup?_eq hunit hunitpos hunitle hg front
    obtain ⟨-, hplaces⟩ := hplaces g rest
    dsimp only at hround
    generalize hx : (if unit / 2 ≤ g % unit then g - g % unit + unit else g - g % unit) = x
      at hround hplaces
    have hlt : x < 20000 := by
      rw [← hx]
      split <;> omega
    refine ⟨decide (10000 ≤ x), [x % 10000], ?_, ?_⟩
    · rw [hplaces, carry]
      by_cases hcarries : 10000 ≤ x
      · rw [decide_eq_true hcarries, Bool.toNat_true, show x / 10000 = 1 by omega]
      · rw [decide_eq_false hcarries, Bool.toNat_false, show x / 10000 = 0 by omega]
    · rw [if_neg hzero, if_neg hzero, index?_pred hlength, Option.bind_eq_bind, Option.bind_some,
        take_length_succ, hround]
      rfl

theorem roundGroups?_eq {groups : List Nat} (h : ∀ g ∈ groups, g < 10000)
    (hlength : groups.length ≤ maxIndex) {k part : Nat} (hpart : part < 4) {weight : Int}
    (hlow : -2147483649 ≤ weight) (hhigh : weight < 2147483647) :
    roundGroups? weight groups (if part = 0 then k else k + 1) part =
      some (settle weight (roundPlaces (4 * k + part) groups)) := by
  rw [roundGroups?, roundPlaces_eq]
  by_cases hbehind : groups.length ≤ k
  · have hnothing : ¬ ((if part = 0 then k else k + 1) < groups.length ∨
        (if part = 0 then k else k + 1) = groups.length ∧ 0 < part) := by
      split <;> omega
    rw [if_neg hnothing, List.drop_of_length_le hbehind, List.take_of_length_le hbehind,
      roundPlaces_nil, carryThrough_zero h, List.append_nil]
    rfl
  · obtain ⟨front, g, rest, rfl, rfl⟩ := exists_eq_append (Nat.lt_of_not_le hbehind)
    have hfront : ∀ x ∈ front, x < 10000 := fun x hx => h x (List.mem_append_left _ hx)
    rw [List.length_append, List.length_cons] at hlength
    have hcut : (if part = 0 then front.length else front.length + 1) <
        (front ++ g :: rest).length ∨ (if part = 0 then front.length else front.length + 1) =
          (front ++ g :: rest).length ∧ 0 < part := by
      rw [List.length_append, List.length_cons]
      split <;> omega
    obtain ⟨carries, behind, hplaces, hlast⟩ :=
      roundLast?_eq (h g (by simp)) rest (by omega : front.length ≤ maxIndex) hpart
    rw [if_pos hcut, List.take_left, List.drop_left, hplaces, hlast]
    exact carryOn_eq hfront behind carries hlow hhigh

/-! ### What a machine reaches -/

theorem weight_settle (weight : Int) (rounded : Nat × List Nat) :
    (settle weight rounded).1 = weight ∨ (settle weight rounded).1 = weight + 1 := by
  unfold settle
  split
  · exact .inl rfl
  · exact .inr rfl

theorem length_settle (weight : Int) (rounded : Nat × List Nat) :
    (settle weight rounded).2.length ≤ rounded.2.length + 1 := by
  unfold settle
  split
  · exact Nat.le_succ _
  · exact Nat.le_refl _

theorem round_eq (d : Decimal) (r : Int) :
    d.round r =
      if d.cutPosition r < 0 then zero r.toNat
      else
        let (weight, groups) := settle d.weight (roundPlaces (d.cutPosition r).toNat d.groups)
        strip ⟨d.negative, weight, r.toNat, groups⟩ := by
  unfold round settle
  by_cases hp : d.cutPosition r < 0
  · rw [if_pos hp]
    simp only [if_pos hp]
  · rw [if_neg hp]
    simp only [if_neg hp]
    obtain ⟨c, groups⟩ := roundPlaces (d.cutPosition r).toNat d.groups
    cases c with
    | zero => rfl
    | succ c => rfl

theorem length_roundPlaces_le (p : Nat) (groups : List Nat) :
    (roundPlaces p groups).2.length ≤ groups.length := by
  fun_induction roundPlaces p groups with
  | case1 | case2 => simp
  | case3 g rest | case4 g rest | case5 g rest => simp [carry]
  | case6 p g rest c rest' heq ih =>
    rw [heq] at ih
    exact Nat.succ_le_succ ih

theorem Within.truncated (h : d.Within reach count) (scale p : Nat) :
    Within reach count ⟨d.negative, d.weight, scale, keepPlaces p d.groups⟩ where
  weight_ge := h.weight_ge
  weight_le := h.weight_le
  length_le := (length_keepPlaces_le p d.groups).trans h.length_le
  group_lt := keepPlaces_lt h.group_lt p

theorem Within.settled (h : d.Within reach count) (scale p : Nat) :
    Within (reach + 1) (count + 1) ⟨d.negative, (settle d.weight (roundPlaces p d.groups)).1, scale,
      (settle d.weight (roundPlaces p d.groups)).2⟩ where
  weight_ge := by
    have := h.weight_ge
    dsimp only
    rcases weight_settle d.weight (roundPlaces p d.groups) with heq | heq <;> omega
  weight_le := by
    have := h.weight_le
    dsimp only
    rcases weight_settle d.weight (roundPlaces p d.groups) with heq | heq <;> omega
  length_le := by
    have hsettle := length_settle d.weight (roundPlaces p d.groups)
    have hround := length_roundPlaces_le p d.groups
    have := h.length_le
    dsimp only
    omega
  group_lt := by
    have hlt := roundPlaces_lt p d.groups
    have hle := roundPlaces_carry_le h.group_lt p
    dsimp only
    unfold settle
    split
    · exact hlt
    · intro g hg
      rcases List.mem_cons.1 hg with rfl | hg
      · omega
      · exact hlt g hg

theorem Within.truncate (h : d.Within reach count) (r : Int) :
    (d.truncate r).Within (reach + count) count := by
  unfold Decimal.truncate
  dsimp only
  split
  · exact within_zero _ _ _
  · exact (h.truncated _ _).strip

theorem Within.round (h : d.Within reach count) (r : Int) :
    (d.round r).Within (reach + 1 + (count + 1)) (count + 1) := by
  rw [round_eq]
  split
  · exact within_zero _ _ _
  · exact (h.settled _ _).strip

theorem exists_cutPosition_eq (hhigh : d.weight ≤ 2147483647)
    (hr : -2147483648 ≤ r ∧ r ≤ 2147483647) (hp : 0 ≤ d.cutPosition r) :
    ∃ k part : Nat, part < 4 ∧ d.cutPosition r = (4 * k + part : Nat) ∧
      splitCut? (d.cutPosition r) = some (if part = 0 then k else k + 1, part) := by
  have hcut : d.cutPosition r = (d.weight + 1) * 4 + r := rfl
  obtain ⟨p, hnat⟩ := Int.eq_ofNat_of_zero_le hp
  have hsplit : d.cutPosition r = (4 * (p / 4) + p % 4 : Nat) := by omega
  refine ⟨p / 4, p % 4, by omega, hsplit, ?_⟩
  rw [hsplit]
  exact splitCut?_eq (by omega) (by omega)

section

variable (h : d.InWords) (hlt : ∀ g ∈ d.groups, g < 10000)
  (hr : -2147483648 ≤ r ∧ r ≤ 2147483647)
include h hlt hr

theorem truncate?_eq_of_strip
    (hstrip : 0 < d.cutPosition r →
      strip? ⟨d.negative, d.weight, r.toNat, keepPlaces (d.cutPosition r).toNat d.groups⟩ =
        some (strip ⟨d.negative, d.weight, r.toNat,
          keepPlaces (d.cutPosition r).toNat d.groups⟩)) :
    d.truncate? r = some (d.truncate r) := by
  rw [truncate?, cut?_eq h.weight_ge h.weight_le hr, Option.bind_eq_bind, Option.bind_some,
    ← cutPosition, Decimal.truncate]
  by_cases hp : d.cutPosition r ≤ 0
  · rw [if_pos hp, if_pos hp]
    rfl
  · obtain ⟨k, part, hpart, hcut, hsplit⟩ := exists_cutPosition_eq h.weight_le hr (by omega)
    have hgroups := keepGroups?_eq hlt h.length_le (k := k) hpart
    have hstripped := hstrip (by omega)
    rw [hcut, Int.toNat_natCast] at hstripped
    rw [if_neg hp, if_neg hp, hsplit, Option.bind_eq_bind, Option.bind_some, hcut,
      Int.toNat_natCast]
    dsimp only
    rw [hgroups]
    exact hstripped

/-- Up to the stripping, nothing goes wrong when the machine rounds, and a carry in front of all
groups has room. -/
theorem round?_eq_of_strip (hnext : d.weight + 1 ≤ 2147483647)
    (hstrip : 0 ≤ d.cutPosition r → ∀ settled : Int × List Nat,
      settled = settle d.weight (roundPlaces (d.cutPosition r).toNat d.groups) →
      strip? ⟨d.negative, settled.1, r.toNat, settled.2⟩ =
        some (strip ⟨d.negative, settled.1, r.toNat, settled.2⟩)) :
    d.round? r = some (d.round r) := by
  have hlow := h.weight_ge
  rw [round?, cut?_eq h.weight_ge h.weight_le hr, Option.bind_eq_bind, Option.bind_some,
    ← cutPosition, round_eq]
  by_cases hp : d.cutPosition r < 0
  · rw [if_pos hp, if_pos hp]
    rfl
  · obtain ⟨k, part, hpart, hcut, hsplit⟩ := exists_cutPosition_eq h.weight_le hr (by omega)
    have hgroups := roundGroups?_eq hlt h.length_le (k := k) hpart
      (by omega : -2147483649 ≤ d.weight) (by omega)
    have hstripped := hstrip (by omega) _ rfl
    rw [hcut, Int.toNat_natCast] at hstripped
    rw [if_neg hp, if_neg hp, hsplit, Option.bind_eq_bind, Option.bind_some, hcut,
      Int.toNat_natCast]
    dsimp only
    rw [hgroups]
    exact hstripped

end

section

variable (h : d.Within reach count) (hreach : reach + count ≤ 1073741822)
  (hr : -2147483648 ≤ r ∧ r ≤ 2147483647)
include h hreach hr

/-- **The machine truncates**, and nothing goes wrong on the way. -/
theorem truncate?_eq : d.truncate? r = some (d.truncate r) :=
  truncate?_eq_of_strip (h.inWords (by omega)) h.group_lt hr
    fun _ => strip?_eq (h.truncated _ _) (by omega)

/-- **The machine rounds**, and nothing goes wrong on the way. -/
theorem round?_eq : d.round? r = some (d.round r) := by
  have hhigh := h.weight_le
  refine round?_eq_of_strip (h.inWords (by omega)) h.group_lt hr (by omega) ?_
  rintro - _ rfl
  exact strip?_eq (h.settled _ _) (by omega)

end

end Decimal

end SqlWire
