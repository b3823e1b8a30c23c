import SqlWire.Proofs.Numeric.Parsing
import SqlWire.Proofs.Numeric.Regrouping

/-!
# Printing and reading back

A decimal is printed group by group, and read by gathering digits into groups.
The two are compared by their numbers: the digits shown spell the decimal
rounded down to its scale (`magnitude_shownDigits`), which is also what
truncation leaves and what reading gives.  So reading a printed decimal truncates
it (`toDecimal_literal`).

In the other direction a text without superfluous zeros, signs or points
(`Literal.plain`) is printed again as it was (`literal_toDecimal`).
-/

namespace SqlWire

namespace Decimal

/-! ### Groups filled up with zeros -/

theorem getElem?_padTo (n : Nat) (groups : List Nat) (i : Nat) :
    (padTo n groups)[i]? = if i < n then some (groups.getD i 0) else none := by
  rw [padTo, List.getElem?_append, List.length_take, List.getD_eq_getElem?_getD]
  by_cases hi : i < min n groups.length
  · have hlen : i < groups.length := by omega
    rw [if_pos hi, if_pos (by omega), List.getElem?_take_of_lt (by omega),
      List.getElem?_eq_getElem hlen, Option.getD_some]
  · rw [if_neg hi, List.getElem?_replicate]
    by_cases hn : i < n
    · rw [if_pos (by omega), if_pos hn, List.getElem?_eq_none (by omega), Option.getD_none]
    · rw [if_neg (by omega), if_neg hn]

theorem length_padTo (n : Nat) (groups : List Nat) : (padTo n groups).length = n := by
  rw [padTo, List.length_append, List.length_take, List.length_replicate]
  omega

theorem padTo_append_padTo (m n : Nat) (groups : List Nat) :
    padTo m groups ++ padTo n (groups.drop m) = padTo (m + n) groups := by
  apply List.ext_getElem?
  intro i
  rw [List.getElem?_append, length_padTo, getElem?_padTo, getElem?_padTo, getElem?_padTo]
  by_cases hi : i < m
  · rw [if_pos hi, if_pos hi, if_pos (by omega)]
  · rw [if_neg hi, List.getD_eq_getElem?_getD, List.getElem?_drop, List.getD_eq_getElem?_getD,
      Nat.add_sub_cancel' (by omega)]
    by_cases hn : i < m + n
    · rw [if_pos (by omega), if_pos hn]
    · rw [if_neg (by omega), if_neg hn]

/-- Of the zeros in front only those that are reached count. -/
theorem padTo_zeros_append (n k : Nat) (groups : List Nat) :
    padTo n (List.replicate (min n k) 0 ++ groups) = padTo n (List.replicate k 0 ++ groups) := by
  apply List.ext_getElem?
  intro i
  rw [getElem?_padTo, getElem?_padTo]
  by_cases hi : i < n
  · rw [if_pos hi, if_pos hi, List.getD_eq_getElem?_getD, List.getD_eq_getElem?_getD,
      List.getElem?_append, List.getElem?_append, List.length_replicate, List.length_replicate,
      List.getElem?_replicate, List.getElem?_replicate]
    by_cases hk : i < k
    · simp [hk, hi]
    · rw [if_neg (by omega), if_neg hk, Nat.min_eq_right (by omega)]
  · rw [if_neg hi, if_neg hi]

theorem flatMap_places_padTo (n : Nat) (groups : List Nat) : ∃ k,
    (padTo n groups).flatMap places =
      (groups.flatMap places).take (4 * n) ++ List.replicate k 0 := by
  have hzeros : ∀ m, (List.replicate m 0).flatMap places = List.replicate (4 * m) 0 := by
    intro m
    induction m with
    | zero => rfl
    | succ m ih =>
      rw [List.replicate_succ, List.flatMap_cons, ih, Nat.mul_succ, Nat.add_comm,
        List.replicate_add]
      rfl
  have htake : ∀ m (gs : List Nat),
      (gs.take m).flatMap places = (gs.flatMap places).take (4 * m) := by
    intro m gs
    induction gs generalizing m with
    | nil => simp
    | cons g rest ih =>
      cases m with
      | zero => rfl
      | succ m =>
        rw [List.take_succ_cons, List.flatMap_cons, List.flatMap_cons, ih, Nat.mul_succ]
        rfl
  exact ⟨4 * (n - groups.length), by rw [padTo, List.flatMap_append, htake, hzeros]⟩

/-! ### The digits shown -/

/-- The digits before the point, leading zeros included, and those after it. -/
def shownDigits (d : Decimal) : List Nat := d.wholeGroups.flatMap places ++ d.fractionDigits

theorem wholeGroups_append_fractionGroups (d : Decimal) (n : Nat) :
    d.wholeGroups ++ d.fractionGroups n =
      padTo ((d.weight + 1).toNat + n)
        (List.replicate (-(d.weight + 1)).toNat 0 ++ d.groups) := by
  rw [wholeGroups, fractionGroups]
  by_cases hweight : 0 ≤ d.weight + 1
  · rw [show (-(d.weight + 1)).toNat = 0 by omega, Nat.min_zero, List.replicate_zero,
      List.nil_append, List.nil_append, padTo_append_padTo]
  · rw [show (d.weight + 1).toNat = 0 by omega, List.drop_zero, Nat.zero_add, padTo_zeros_append,
      List.eq_nil_of_length_eq_zero (length_padTo 0 d.groups), List.nil_append]

theorem length_fractionDigits (d : Decimal) : d.fractionDigits.length = d.scale := by
  rw [fractionDigits, List.length_take, length_flatMap_places, fractionGroups, length_padTo,
    scaleGroups]
  omega

theorem length_wholeGroups (d : Decimal) : d.wholeGroups.length = (d.weight + 1).toNat :=
  length_padTo _ _

theorem length_shownDigits (d : Decimal) :
    d.shownDigits.length = 4 * (d.weight + 1).toNat + d.scale := by
  rw [shownDigits, List.length_append, length_flatMap_places, length_wholeGroups,
    length_fractionDigits]

/-- The digits shown are those before a cut, read from the left edge of the whole groups. -/
theorem fractional_shownDigits (d : Decimal) :
    fractional 10 d.shownDigits = fractional 10
      (((List.replicate (-(d.weight + 1)).toNat 0 ++ d.groups).flatMap places).take
        (4 * (d.weight + 1).toNat + d.scale)) := by
  have hshown : d.shownDigits =
      ((d.wholeGroups ++ d.fractionGroups d.scaleGroups).flatMap places).take
        (4 * (d.weight + 1).toNat + d.scale) := by
    rw [shownDigits, fractionDigits, List.flatMap_append, ← length_wholeGroups,
      ← length_flatMap_places, List.take_length_add_append]
  obtain ⟨k, hk⟩ := flatMap_places_padTo ((d.weight + 1).toNat + d.scaleGroups)
    (List.replicate (-(d.weight + 1)).toNat 0 ++ d.groups)
  have hle : 4 * (d.weight + 1).toNat + d.scale ≤
      4 * ((d.weight + 1).toNat + d.scaleGroups) := by
    rw [scaleGroups]
    omega
  rw [hshown, wholeGroups_append_fractionGroups, hk, List.take_append, List.take_take,
    Nat.min_eq_left hle, List.take_replicate, fractional_append_zeros]

/-- **The digits shown spell the number rounded down** to the display scale. -/
theorem magnitude_shownDigits {d : Decimal} (h : ∀ g ∈ d.groups, g < 10000) :
    Literal.magnitude d.shownDigits = ⌊d.magnitude * 10 ^ d.scale⌋₊ := by
  have hgroups : ∀ g ∈ List.replicate (-(d.weight + 1)).toNat 0 ++ d.groups, g < 10000 := by
    intro g hg
    rcases List.mem_append.1 hg with hg | hg
    · rw [List.eq_of_mem_replicate hg]
      decide
    · exact h g hg
  have hmag : d.magnitude = fractional 10000
      (List.replicate (-(d.weight + 1)).toNat 0 ++ d.groups) * 10000 ^ (d.weight + 1).toNat := by
    have hpow : (10000 : ℚ) ^ (d.weight + 1) * 10000 ^ (-(d.weight + 1)).toNat =
        10000 ^ (d.weight + 1).toNat := by
      rw [← zpow_natCast, ← zpow_natCast, ← zpow_add₀ (by norm_num)]
      congr 1
      omega
    rw [magnitude_eq, fractional_zeros_append, ← hpow]
    push_cast
    field_simp
  have hunits : d.magnitude * 10 ^ d.scale = fractional 10
      ((List.replicate (-(d.weight + 1)).toNat 0 ++ d.groups).flatMap places) *
        10 ^ (4 * (d.weight + 1).toNat + d.scale) := by
    rw [hmag, fractional_places, pow_add, pow_mul]
    norm_num
    ring
  have hq : (Literal.magnitude d.shownDigits : ℚ) = (⌊d.magnitude * 10 ^ d.scale⌋₊ : ℚ) := by
    rw [Literal.magnitude_eq, length_shownDigits, fractional_shownDigits,
      fractional_take (by decide) (flatMap_places_lt hgroups), hunits]
    push_cast
    field_simp
  exact_mod_cast hq

/-! ### The literal that is printed -/

/-- The literal that a decimal is printed as. -/
def literal (d : Decimal) : Literal := ⟨d.negative, d.wholeDigits, d.fractionDigits, 0⟩

theorem literal_digits (d : Decimal) :
    d.literal.digits = d.wholeDigits ++ d.fractionDigits := rfl

theorem magnitude_dropWhile (ds : List Nat) :
    Literal.magnitude (ds.dropWhile (· == 0)) = Literal.magnitude ds := by
  induction ds with
  | nil => rfl
  | cons d rest ih =>
    by_cases hd : d = 0
    · rw [List.dropWhile_cons_of_pos (by simpa using hd), ih, hd, Literal.magnitude_cons,
        Nat.zero_mul, Nat.zero_add]
    · rw [List.dropWhile_cons_of_neg (by simpa using hd)]

theorem magnitude_wholeDigits (d : Decimal) :
    Literal.magnitude d.wholeDigits = Literal.magnitude (d.wholeGroups.flatMap places) := by
  rw [← magnitude_dropWhile (d.wholeGroups.flatMap places), wholeDigits]
  split
  next heq => rw [heq]; rfl
  next => rfl

theorem magnitude_literal_digits (d : Decimal) :
    Literal.magnitude d.literal.digits = Literal.magnitude d.shownDigits := by
  rw [literal_digits, shownDigits, Literal.magnitude_append, Literal.magnitude_append,
    magnitude_wholeDigits]

theorem padTo_lt {groups : List Nat} (h : ∀ g ∈ groups, g < 10000) (n : Nat) :
    ∀ g ∈ padTo n groups, g < 10000 := by
  intro g hg
  rw [padTo] at hg
  rcases List.mem_append.1 hg with hg | hg
  · exact h g (List.mem_of_mem_take hg)
  · rw [List.eq_of_mem_replicate hg]
    decide

theorem wholeDigits_lt {d : Decimal} (h : ∀ g ∈ d.groups, g < 10000) :
    ∀ x ∈ d.wholeDigits, x < 10 := by
  have hplaces := flatMap_places_lt (padTo_lt h (d.weight + 1).toNat)
  intro x hx
  unfold wholeDigits at hx
  split at hx
  next =>
    rw [List.mem_singleton.1 hx]
    decide
  next => exact hplaces x ((List.dropWhile_sublist _).subset hx)

theorem fractionGroups_lt {d : Decimal} (h : ∀ g ∈ d.groups, g < 10000) (n : Nat) :
    ∀ g ∈ d.fractionGroups n, g < 10000 := by
  rw [fractionGroups]
  apply padTo_lt
  intro g hg
  rcases List.mem_append.1 hg with hg | hg
  · rw [List.eq_of_mem_replicate hg]
    decide
  · exact h g (List.mem_of_mem_drop hg)

theorem fractionDigits_lt {d : Decimal} (h : ∀ g ∈ d.groups, g < 10000) :
    ∀ x ∈ d.fractionDigits, x < 10 := by
  intro x hx
  rw [fractionDigits] at hx
  exact flatMap_places_lt (fractionGroups_lt h _) x (List.mem_of_mem_take hx)

theorem literal_digits_lt {d : Decimal} (h : ∀ g ∈ d.groups, g < 10000) :
    ∀ x ∈ d.literal.digits, x < 10 := by
  intro x hx
  rw [literal_digits] at hx
  rcases List.mem_append.1 hx with hx | hx
  · exact wholeDigits_lt h x hx
  · exact fractionDigits_lt h x hx

theorem wholeDigits_ne_nil (d : Decimal) : d.wholeDigits ≠ [] := by
  unfold wholeDigits
  split
  next => simp
  next hne => exact hne

/-- **Reading what is printed truncates.** -/
theorem toDecimal_literal {d : Decimal} (h : ∀ g ∈ d.groups, g < 10000) :
    d.literal.toDecimal = d.truncate d.scale := by
  have hread : d.literal.toDecimal.Canonical := Literal.toDecimal_canonical (literal_digits_lt h)
  have hcut : (d.truncate d.scale).Canonical := truncate_canonical h d.scale
  have hexponent : d.literal.exponent = 0 := rfl
  have hlength : (d.literal.fraction.length : Int) = d.scale := by
    rw [literal, length_fractionDigits]
  have hscale := Literal.scale_toDecimal d.literal
  rw [hlength, hexponent] at hscale
  have hvalue : d.literal.toDecimal.value = (d.truncate d.scale).value := by
    rw [Literal.value_toDecimal, magnitude_literal_digits, magnitude_shownDigits h,
      value_truncate h, abs_value, hlength, hexponent, zero_sub, zpow_neg, div_eq_mul_inv,
      zpow_natCast]
    rfl
  apply hread.eq_of_value_eq hcut _ hvalue
  rw [scale_truncate]
  omega

end Decimal

/-! ### Plain texts -/

namespace Literal

/-- The text of a literal without an exponent, a plus sign or a point that no digit follows. -/
def plain (l : Literal) : List Char :=
  (if l.negative then ['-'] else []) ++
    (spell l.whole ++ if l.fraction = [] then [] else '.' :: spell l.fraction)

/-- The literal has no exponent, and its first digit is a zero only where it is the only one before
the point. -/
structure Plain (l : Literal) : Prop where
  exponent_eq : l.exponent = 0
  digit_lt : ∀ d ∈ l.digits, d < 10
  whole_ne_nil : l.whole ≠ []
  head_ne_zero : l.whole = [0] ∨ l.whole.head? ≠ some 0

theorem spells_plain {l : Literal} (hexponent : l.exponent = 0) (hlt : ∀ d ∈ l.digits, d < 10)
    (hwhole : l.whole ≠ []) : l.Spells l.plain := by
  have hsign : SignText l.negative (if l.negative then ['-'] else []) := by
    cases l.negative with
    | true => exact .minus
    | false => exact .absent
  have hmantissa : MantissaText l.whole l.fraction
      (spell l.whole ++ if l.fraction = [] then [] else '.' :: spell l.fraction) := by
    by_cases hfraction : l.fraction = []
    · rw [if_pos hfraction, hfraction, List.append_nil]
      exact .whole hwhole
    · rw [if_neg hfraction]
      exact .point hwhole
  have hpower : ExponentText l.exponent [] := hexponent ▸ ExponentText.absent
  have h := Spells.intro hsign hlt hmantissa hpower
  rwa [List.append_nil] at h

theorem whole_eq_of_magnitude_eq {xs ys : List Nat} (hx : ∀ d ∈ xs, d < 10)
    (hy : ∀ d ∈ ys, d < 10) (hxne : xs ≠ []) (hyne : ys ≠ [])
    (hxhead : xs = [0] ∨ xs.head? ≠ some 0) (hyhead : ys = [0] ∨ ys.head? ≠ some 0)
    (h : magnitude xs = magnitude ys) : xs = ys := by
  have hzero : ∀ {ds : List Nat}, (∀ d ∈ ds, d < 10) → ds.head? ≠ some 0 →
      magnitude ds = magnitude [] → ds = [] := fun hds hhead heq =>
    eq_of_magnitude_eq_of_head hds (by simp) hhead (by simp) heq
  rcases hxhead with rfl | hxhead
  · rcases hyhead with rfl | hyhead
    · rfl
    · exact absurd (hzero hy hyhead h.symm) hyne
  · rcases hyhead with rfl | hyhead
    · exact absurd (hzero hx hxhead h) hxne
    · exact eq_of_magnitude_eq_of_head hx hy hxhead hyhead h

end Literal

namespace Decimal

theorem chars_eq_plain (d : Decimal) : d.chars = d.literal.plain := by
  have hnil : d.fractionDigits = [] ↔ d.scale = 0 := by
    rw [← length_fractionDigits, List.length_eq_zero_iff]
  rw [chars, Literal.plain, List.append_assoc]
  simp only [literal, hnil]
  rfl

theorem head_wholeDigits (d : Decimal) :
    d.wholeDigits = [0] ∨ d.wholeDigits.head? ≠ some 0 := by
  unfold wholeDigits
  split
  next => exact Or.inl rfl
  next => exact Or.inr (head?_dropWhile_ne _)

/-- **Printing what is read** gives a plain text back, but for the sign of a zero. -/
theorem literal_toDecimal {l : Literal} (h : l.Plain) :
    l.toDecimal.literal = { l with negative := l.toDecimal.negative } := by
  have hlt : ∀ g ∈ l.toDecimal.groups, g < 10000 :=
    (Literal.toDecimal_canonical h.digit_lt).group_lt
  have hwholelt : ∀ x ∈ l.whole, x < 10 := fun x hx => h.digit_lt x (List.mem_append_left _ hx)
  have hfractionlt : ∀ x ∈ l.fraction, x < 10 :=
    fun x hx => h.digit_lt x (List.mem_append_right _ hx)
  have hscale : l.toDecimal.scale = l.fraction.length := by
    have := Literal.scale_toDecimal l
    rw [h.exponent_eq] at this
    omega
  have hlength : l.toDecimal.fractionDigits.length = l.fraction.length := by
    rw [length_fractionDigits, hscale]
  -- both runs of digits spell the same number, and they have the point at the same place
  have hnumber : Literal.magnitude (l.toDecimal.wholeDigits ++ l.toDecimal.fractionDigits) =
      Literal.magnitude (l.whole ++ l.fraction) := by
    rw [← literal_digits, magnitude_literal_digits, magnitude_shownDigits hlt,
      Literal.magnitude_toDecimal, h.exponent_eq, hscale, zero_sub, zpow_neg, zpow_natCast,
      inv_mul_cancel_right₀ (by positivity), Nat.floor_natCast, Literal.digits]
  obtain ⟨hwhole, hfraction⟩ :=
    Literal.magnitude_div_mod l.toDecimal.wholeDigits (fractionDigits_lt hlt)
  obtain ⟨hwhole', hfraction'⟩ := Literal.magnitude_div_mod l.whole hfractionlt
  rw [hnumber, hlength] at hwhole hfraction
  have hws : l.toDecimal.wholeDigits = l.whole :=
    Literal.whole_eq_of_magnitude_eq (wholeDigits_lt hlt) hwholelt (wholeDigits_ne_nil _)
      h.whole_ne_nil (head_wholeDigits _) h.head_ne_zero (hwhole.symm.trans hwhole')
  have hfs : l.toDecimal.fractionDigits = l.fraction :=
    Literal.eq_of_magnitude_eq (fractionDigits_lt hlt) hfractionlt hlength
      (hfraction.symm.trans hfraction')
  rw [literal, hws, hfs, ← h.exponent_eq]

end Decimal

namespace Literal

/-- A literal keeps its sign, unless all of its digits are zero. -/
theorem negative_toDecimal {l : Literal} (h : l.Plain) :
    l.toDecimal.negative = if ∀ x ∈ l.digits, x = 0 then false else l.negative := by
  have hmag := magnitude_toDecimal l
  have hpow : (10 : ℚ) ^ (l.exponent - (l.fraction.length : Int)) ≠ 0 :=
    zpow_ne_zero _ (by norm_num)
  by_cases hzero : ∀ x ∈ l.digits, x = 0
  · rw [if_pos hzero]
    rw [magnitude_eq, List.eq_replicate_of_mem hzero, fractional_zeros, zero_mul, zero_mul] at hmag
    rw [(toDecimal_canonical h.digit_lt).eq_zero hmag]
    rfl
  · rw [if_neg hzero]
    rcases Decimal.negative_strip ⟨l.negative, l.weight, l.scale,
      gather (List.replicate l.lead 0 ++ l.digits)⟩ with hneg | hmag'
    · exact hneg
    · rw [toDecimal, Decimal.magnitude_strip, hmag', eq_comm, mul_eq_zero, magnitude_eq,
        mul_eq_zero] at hmag
      exact absurd (Decimal.all_zero_of_fractional_eq_zero
        ((hmag.resolve_right hpow).resolve_right (by positivity))) hzero

end Literal

namespace Numeric

theorem parse_ofList {l : Literal} {s : List Char} (h : l.Spells s) :
    parse (String.ofList s) = .ok (finite l.toDecimal) := by
  rw [parse_eq_ok_iff, String.toList_ofList]
  exact Or.inr ⟨l, h, rfl⟩

theorem scan?_literal {d : Decimal} (h : ∀ g ∈ d.groups, g < 10000) :
    Literal.scan? d.chars = some (d.literal, []) := by
  rw [Decimal.chars_eq_plain]
  exact Literal.scan?_complete (Literal.spells_plain rfl (Decimal.literal_digits_lt h)
    (Decimal.wholeDigits_ne_nil d))

theorem reaches_of_plain {l : Literal} {s : List Char} {most : Nat} (h : s.length ≤ most)
    (hscan : Literal.scan? s = some (l, [])) (hexponent : l.exponent = 0) :
    Literal.Reaches most s where
  length_le := h
  shifted_le l' rest hscan' := by
    rw [hscan] at hscan'
    cases hscan'
    rwa [hexponent]

/-- **Text is read back.**  A numeric that is printed as fewer than 2^31 - 7 bytes is read as
itself, truncated to its display scale, and no word of the machine that reads it runs over.  A plain
text of less than 2^30 bytes is printed as it was read, but for the sign of a zero. -/
theorem text_round_trip :
    (∀ n : Numeric, n.Canonical → n.text.utf8ByteSize < 2 ^ 31 - 7 →
      parse? n.text = some (.ok (n.truncate n.scale))) ∧
    ∀ l : Literal, l.Plain → (String.ofList l.plain).utf8ByteSize < 2 ^ 30 →
      ∃ n, parse? (String.ofList l.plain) = some (.ok n) ∧ n.text = String.ofList
        (if ∀ x ∈ l.digits, x = 0 then { l with negative := false }.plain else l.plain) := by
  constructor
  · intro n hn hsize
    cases n with
    | nan => decide
    | finite d =>
      have hd : d.Canonical := hn
      have hlength := (length_le_utf8ByteSize (text (finite d))).trans_lt hsize
      rw [text, String.length_ofList] at hlength
      have hreach : Literal.Reaches 2147483640 (text (finite d)).toList := by
        rw [text, String.toList_ofList]
        exact reaches_of_plain (by omega) (scan?_literal hd.group_lt) rfl
      have hspells := Literal.spells_plain (l := d.literal) rfl
        (Decimal.literal_digits_lt hd.group_lt) (Decimal.wholeDigits_ne_nil d)
      rw [parse?_eq hreach, text, Decimal.chars_eq_plain, parse_ofList hspells,
        Decimal.toDecimal_literal hd.group_lt]
      rfl
  · intro l hl hsize
    have hspells := Literal.spells_plain hl.exponent_eq hl.digit_lt hl.whole_ne_nil
    refine ⟨finite l.toDecimal, ?_, ?_⟩
    · rw [parse?_eq (reaches_of_utf8ByteSize hsize), parse_ofList hspells]
    · rw [text, Decimal.chars_eq_plain, Decimal.literal_toDecimal hl,
        Literal.negative_toDecimal hl]
      congr 1
      split <;> rfl

/-- Two hidden digits are lost, and the sign of a zero is. -/
theorem text_round_trip_hidden :
    parse? (text (finite ⟨true, 0, 2, [1, 2345]⟩)) =
      some (.ok (finite ⟨true, 0, 2, [1, 2300]⟩)) ∧
    ∃ n, parse? "-0.0" = some (.ok n) ∧ n.text = "0.0" := by
  have hcanonical : (finite ⟨true, 0, 2, [1, 2345]⟩).Canonical :=
    ⟨by decide, by decide, by decide, by decide⟩
  have hplain : Literal.Plain ⟨true, [0], [0], 0⟩ := ⟨rfl, by decide, by decide, by decide⟩
  obtain ⟨n, hread, htext⟩ := text_round_trip.2 _ hplain (by decide)
  rw [if_pos (by decide)] at htext
  exact ⟨text_round_trip.1 _ hcanonical (by decide), n, hread, htext⟩

theorem parse?_eq_none {text : String} {l : Literal} {b : Literal.Buffered} {rest : List Char}
    (hspells : l.Spells text.toList) (hread : Literal.read? text.toList = some (some (b, rest)))
    (hframe : Literal.frame? b.power b.count = none) : parse? text = none := by
  have hframe' : Literal.frameWith? FixedWidth.int32? b.power b.count = none := hframe
  have hnone : b.toDecimal? = none := by
    rw [Literal.Buffered.toDecimal?, Literal.Buffered.group?, hframe']
    rfl
  rw [parse?, parsePrefix?, if_neg (take_three_ne_nan hspells), hread]
  simp only [hnone, Option.bind_eq_bind, Option.bind_some, Option.bind_none]

/-- The text of one, shown to so many places, is read into a buffer.  But the number of its digits
with that of the zeros that are to go around them is too much for a word. -/
theorem parse?_text_eq_none {scale : Nat} (h : scale = 2147483641) :
    parse? (text (finite ⟨false, 0, scale, [1]⟩)) = none := by
  let d : Decimal := ⟨false, 0, scale, [1]⟩
  have hlt : ∀ g ∈ d.groups, g < 10000 := by simp [d]
  have hwhole : d.wholeDigits = [1] := rfl
  have hfraction : d.fractionDigits.length = scale := d.length_fractionDigits
  have hlength : d.chars.length ≤ 2147483647 := by
    have hscale : d.scale ≠ 0 := by
      show scale ≠ 0
      omega
    have hsign : (if d.negative then ['-'] else []) = [] := rfl
    rw [Decimal.chars, hwhole, if_neg hscale, hsign]
    simp only [List.nil_append, List.length_append, List.length_cons, List.length_map,
      List.length_nil, hfraction, h]
    norm_num
  have hscan := scan?_literal hlt
  have hread : Literal.read? d.chars = some (some (d.literal.buffered, [])) := by
    rw [Literal.read?_eq (reaches_of_plain hlength hscan rfl), hscan]
    rfl
  have hpower : d.literal.buffered.power = 0 := by
    show (d.wholeDigits.length : Int) - 1 + 0 = 0
    rw [hwhole]
    rfl
  have hcount : d.literal.buffered.count = 2147483642 := by
    show ((d.wholeDigits ++ d.fractionDigits).length : Int) = _
    rw [List.length_append, hwhole, hfraction, List.length_singleton, h]
    norm_num
  have hspells : d.literal.Spells d.chars := by
    rw [Decimal.chars_eq_plain]
    exact Literal.spells_plain rfl (Decimal.literal_digits_lt hlt) (Decimal.wholeDigits_ne_nil d)
  rw [← String.toList_ofList (l := d.chars)] at hspells hread
  exact parse?_eq_none hspells hread (by rw [hpower, hcount]; rfl)

/-- One, shown to 2147483641 places, is canonical, and its text is not read. -/
theorem text_round_trip_runs_over :
    let n := finite ⟨false, 0, 2147483641, [1]⟩
    n.Canonical ∧ parse? n.text = none :=
  ⟨⟨by decide, by decide, by decide, by decide⟩, parse?_text_eq_none rfl⟩

end Numeric

end SqlWire
