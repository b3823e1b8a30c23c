import SqlWire.Proofs.Numeric.Printing
import SqlWire.Proofs.Numeric.WireRoundTrip

/-!
# Printing on both sides of the wire

A decimal that hides digits is printed without them, and it loses them when it is
sent.  The digits shown are the same on both sides (`literal_truncate`): what is
printed is a plain literal, reading it back truncates, and printing a plain literal
that was read gives it back.

The sign is another matter.  Printing goes by the sign that is stored, and what is
left of a number may be zero, which is positive.  `Decimal.Vanishes` says when:
`negative_truncate_scale`.
-/

namespace SqlWire

namespace Literal

theorem magnitude_eq_zero_iff (ds : List Nat) : magnitude ds = 0 ↔ ∀ d ∈ ds, d = 0 := by
  have hpow : (10 : ℚ) ^ ds.length ≠ 0 := by positivity
  rw [← Nat.cast_eq_zero (R := ℚ), magnitude_eq, mul_eq_zero, or_iff_left hpow]
  constructor
  · intro h
    exact Decimal.all_zero_of_fractional_eq_zero h
  · intro h
    rw [List.eq_replicate_of_mem h, fractional_zeros]

end Literal

namespace Decimal

/-- The number is below one unit of the last place shown, so that no digit of it is. -/
def Vanishes (d : Decimal) : Prop := |d.value| < 10 ^ (-(d.scale : Int))

theorem vanishes_iff {d : Decimal} (h : ∀ g ∈ d.groups, g < 10000) :
    d.Vanishes ↔ ∀ x ∈ d.literal.digits, x = 0 := by
  have hpow : (0 : ℚ) < 10 ^ d.scale := by positivity
  rw [← Literal.magnitude_eq_zero_iff, magnitude_literal_digits, magnitude_shownDigits h,
    Nat.floor_eq_zero, Vanishes, abs_value, zpow_neg, zpow_natCast, ← one_div,
    lt_div_iff₀ hpow]

theorem plain_literal {d : Decimal} (h : ∀ g ∈ d.groups, g < 10000) : d.literal.Plain :=
  ⟨rfl, literal_digits_lt h, wholeDigits_ne_nil d, head_wholeDigits d⟩

/-- **Truncation keeps the digits shown.** -/
theorem literal_truncate {d : Decimal} (h : ∀ g ∈ d.groups, g < 10000) :
    (d.truncate d.scale).literal =
      { d.literal with negative := (d.truncate d.scale).negative } := by
  rw [← toDecimal_literal h]
  exact literal_toDecimal (plain_literal h)

theorem negative_truncate_scale {d : Decimal} (h : ∀ g ∈ d.groups, g < 10000) :
    (d.truncate d.scale).negative = true ↔ d.negative = true ∧ ¬ d.Vanishes := by
  rw [← toDecimal_literal h, Literal.negative_toDecimal (plain_literal h), vanishes_iff h]
  by_cases hzero : ∀ x ∈ d.literal.digits, x = 0
  · rw [if_pos hzero]
    exact iff_of_false (by decide) fun hand => hand.2 hzero
  · rw [if_neg hzero]
    exact (and_iff_left hzero).symm

theorem chars_truncate_scale {d : Decimal} (h : ∀ g ∈ d.groups, g < 10000)
    (hsign : ¬ (d.negative = true ∧ d.Vanishes)) : (d.truncate d.scale).chars = d.chars := by
  have hnegative : (d.truncate d.scale).negative = d.negative := by
    rw [Bool.eq_iff_iff, negative_truncate_scale h]
    exact ⟨fun hand => hand.1, fun hneg => ⟨hneg, fun hvanish => hsign ⟨hneg, hvanish⟩⟩⟩
  rw [chars_eq_plain, chars_eq_plain, literal_truncate h, hnegative]
  rfl

theorem chars_of_vanishes {d : Decimal} (h : ∀ g ∈ d.groups, g < 10000)
    (hneg : d.negative = true) (hvanish : d.Vanishes) :
    d.chars = '-' :: (d.truncate d.scale).chars := by
  have hnegative : (d.truncate d.scale).negative = false := by
    rw [Bool.eq_false_iff, ne_eq, negative_truncate_scale h]
    exact fun hand => hand.2 hvanish
  rw [chars_eq_plain, chars_eq_plain, literal_truncate h, hnegative, Literal.plain, Literal.plain]
  simp only [literal, hneg]
  rfl

end Decimal

namespace Numeric

/-- The number is below one unit of the last place shown. -/
def Vanishes : Numeric → Prop
  | nan => False
  | finite d => d.Vanishes

/-- **A numeric that was sent is printed as before**, unless it is negative and vanishes at its
display scale; then the minus sign alone is gone. -/
theorem text_of_sent {n : Numeric} (hn : n.Canonical) (hlength : n.groups.length ≤ 2000)
    {bytes : Bytes} (h : n.encode = .ok bytes) :
    ∃ m, decode bytes = .ok m ∧
      (m.text = n.text ↔ ¬ (n.isNegative = true ∧ n.Vanishes)) ∧
      (n.isNegative = true ∧ n.Vanishes → n.text = "-" ++ m.text) := by
  obtain ⟨hsend, rfl⟩ := (encode_eq_ok_iff n bytes).1 h
  have hread := decode_wireForm hsend hn.group_lt hlength []
  rw [List.append_nil] at hread
  refine ⟨_, hread, ?_⟩
  cases n with
  | nan => exact ⟨iff_of_true rfl fun hand => hand.2, fun hand => hand.2.elim⟩
  | finite d =>
    have hlt : ∀ g ∈ d.groups, g < 10000 := hn.group_lt
    by_cases hsign : d.negative = true ∧ d.Vanishes
    · have htext : text (finite d) = "-" ++ text (finite (d.truncate d.scale)) := by
        rw [text, text, Decimal.chars_of_vanishes hlt hsign.1 hsign.2]
        exact @String.ofList_append ['-'] _
      refine ⟨iff_of_false ?_ fun hnot => hnot hsign, fun _ => htext⟩
      intro hsame
      have hlonger : text (finite (d.truncate d.scale)) =
          "-" ++ text (finite (d.truncate d.scale)) := hsame.trans htext
      have hcount := congrArg String.length hlonger
      rw [String.length_append, show "-".length = 1 from rfl] at hcount
      omega
    · have htext : text (finite (d.truncate d.scale)) = text (finite d) := by
        rw [text, text, Decimal.chars_truncate_scale hlt hsign]
      exact ⟨iff_of_true htext hsign, fun hvanish => absurd hvanish hsign⟩

/-- Three digits are hidden, and what is left to show keeps its sign. -/
theorem text_of_sent_hidden :
    ∃ m, decode [0, 2, 0, 0, 64, 0, 0, 1, 0, 3, 5, 135] = .ok m ∧
      m.text = text (finite ⟨true, 0, 1, [3, 1415]⟩) := by
  have hcanonical : (finite ⟨true, 0, 1, [3, 1415]⟩).Canonical :=
    ⟨by decide, by decide, by decide, by decide⟩
  have hencode : encode (finite ⟨true, 0, 1, [3, 1415]⟩) =
      .ok [0, 2, 0, 0, 64, 0, 0, 1, 0, 3, 5, 135] := by decide
  obtain ⟨m, hm, hsame, -⟩ := text_of_sent hcanonical (by decide) hencode
  refine ⟨m, hm, hsame.2 fun hand => ?_⟩
  have hdigits := (Decimal.vanishes_iff (d := ⟨true, 0, 1, [3, 1415]⟩) (by decide)).1 hand.2
  revert hdigits
  decide

/-- **The minus sign of a number that vanishes** at its display scale is lost on the way. -/
theorem text_of_sent_vanishes :
    (finite ⟨true, -1, 1, [10]⟩).Canonical ∧ (finite ⟨true, -1, 1, [10]⟩).groups.length ≤ 2000 ∧
    ∃ bytes m, encode (finite ⟨true, -1, 1, [10]⟩) = .ok bytes ∧ decode bytes = .ok m ∧
      text (finite ⟨true, -1, 1, [10]⟩) = "-0.0" ∧ m.text = "0.0" := by
  refine ⟨⟨by decide, by decide, by decide, by decide⟩, by decide,
    [0, 1, 255, 255, 64, 0, 0, 1, 0, 10], finite (Decimal.zero 1), ?_, ?_, ?_, ?_⟩
  · decide
  · decide
  · decide
  · decide

end Numeric

end SqlWire
