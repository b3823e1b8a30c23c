import SqlWire.Proofs.Numeric.Grammar
import SqlWire.Proofs.Numeric.Value

/-!
# What a numeric literal means

`Grammar.lean` says which texts write a literal, and `Value.lean` which number a
decimal stands for.  This file joins them: gathering the digits of a literal
into groups keeps their number (`value_toDecimal`), and reading a whole text
succeeds on the grammar and on `NaN`, and on nothing else (`parse_eq_ok_iff`).
-/

namespace SqlWire

namespace Literal

/-! ### Gathering keeps the number -/

theorem fractional_gather (ds : List Nat) : fractional 10000 (gather ds) = fractional 10 ds := by
  fun_induction gather ds with
  | case1 a b c d rest ih =>
    simp only [fractional_cons, ih]
    push_cast
    ring
  | case2 a b c =>
    simp only [fractional_cons, fractional_nil]
    push_cast
    ring
  | case3 a b =>
    simp only [fractional_cons, fractional_nil]
    push_cast
    ring
  | case4 a =>
    simp only [fractional_cons, fractional_nil]
    push_cast
    ring
  | case5 => rfl

/-- The weight and the zeros in front make up the power of ten that the first digit counts. -/
theorem pow_weight (l : Literal) :
    (10000 : ℚ) ^ (l.weight + 1) = 10 ^ ((l.whole.length : Int) + l.exponent) * 10 ^ l.lead := by
  have hlead := lead_eq l
  have hpower : l.leadingPower = (l.whole.length : Int) - 1 + l.exponent := rfl
  rw [← zpow_natCast (10 : ℚ) l.lead, ← zpow_add₀ (by norm_num),
    show (l.whole.length : Int) + l.exponent + l.lead = 4 * (l.weight + 1) by omega, zpow_mul]
  norm_num

theorem magnitude_toDecimal (l : Literal) :
    l.toDecimal.magnitude =
      magnitude l.digits * (10 : ℚ) ^ (l.exponent - (l.fraction.length : Int)) := by
  have hlength : (l.digits.length : Int) = l.whole.length + l.fraction.length := by
    rw [digits, List.length_append]
    push_cast
    rfl
  have hpow : (10 : ℚ) ^ ((l.whole.length : Int) + l.exponent) =
      10 ^ l.digits.length * 10 ^ (l.exponent - (l.fraction.length : Int)) := by
    rw [← zpow_natCast (10 : ℚ) l.digits.length, ← zpow_add₀ (by norm_num), hlength]
    congr 1
    ring
  rw [toDecimal, Decimal.magnitude_strip, Decimal.magnitude_eq]
  dsimp only
  rw [fractional_gather, fractional_zeros_append, pow_weight, magnitude_eq, hpow]
  push_cast
  field_simp

/-- **The decimal of a literal is the number its digits spell**, moved by the exponent and by the
point. -/
theorem value_toDecimal (l : Literal) :
    l.toDecimal.value = (if l.negative then -1 else 1) *
      (magnitude l.digits * (10 : ℚ) ^ (l.exponent - (l.fraction.length : Int))) := by
  rw [← magnitude_toDecimal, toDecimal, Decimal.value_strip, Decimal.magnitude_strip, Decimal.value]
  split <;> ring

theorem scale_toDecimal (l : Literal) :
    (l.toDecimal.scale : Int) = max ((l.fraction.length : Int) - l.exponent) 0 := by
  rw [toDecimal, Decimal.scale_strip]
  dsimp only [scale]
  omega

end Literal

/-! ### Whole texts -/

namespace Numeric

/-- The text is `NaN`, in whatever letter case. -/
def NaNText (s : List Char) : Prop := s.map Char.toLower = ['n', 'a', 'n']

instance (s : List Char) : Decidable (NaNText s) :=
  inferInstanceAs (Decidable (s.map Char.toLower = ['n', 'a', 'n']))

theorem take_three_ne_nan {l : Literal} {s : List Char} (h : l.Spells s) :
    (s.take 3).map Char.toLower ≠ ['n', 'a', 'n'] := by
  have hstart : ∀ c : Char, c.isDigit = true ∨ c = '.' ∨ c = '+' ∨ c = '-' →
      c.toLower ≠ 'n' := by
    intro c hc
    rcases hc with hdigit | rfl | rfl | rfl
    · obtain ⟨d, hd, rfl⟩ : ∃ d, d < 10 ∧ c = Nat.digitChar d := by
        refine ⟨c.toNat - 48, ?_, (Literal.digitChar_of_isDigit hdigit).symm⟩
        have := Literal.splitDigits_lt [c] (c.toNat - 48) (by simp [Literal.splitDigits, hdigit])
        exact this
      interval_cases d <;> decide
    · decide
    · decide
    · decide
  obtain ⟨c, rest, rfl, hc⟩ : ∃ c rest, s = c :: rest ∧
      (c.isDigit = true ∨ c = '.' ∨ c = '+' ∨ c = '-') := by
    cases h with
    | intro hsign hlt hmantissa _ =>
      cases hsign with
      | absent =>
        obtain ⟨c, rest, rfl, hc⟩ := hmantissa.head_eq hlt
        exact ⟨c, _, rfl, hc.imp_right Or.inl⟩
      | plus => exact ⟨'+', _, rfl, Or.inr (Or.inr (Or.inl rfl))⟩
      | minus => exact ⟨'-', _, rfl, Or.inr (Or.inr (Or.inr rfl))⟩
  intro heq
  rw [List.take_succ_cons, List.map_cons, List.cons.injEq] at heq
  exact hstart c hc heq.1

theorem scan?_nan {s : List Char} (h : NaNText s) : scan? s = some (nan, []) := by
  have hlength : s.length = 3 := by
    have := congrArg List.length h
    rwa [List.length_map] at this
  rw [scan?, List.take_of_length_le hlength.le, if_pos (show s.map Char.toLower = _ from h),
    List.drop_of_length_le hlength.le]

/-- **Which texts are numerics**, and what they are read as. -/
theorem parse_eq_ok_iff (text : String) (n : Numeric) :
    parse text = .ok n ↔ (NaNText text.toList ∧ n = nan) ∨
      ∃ l : Literal, l.Spells text.toList ∧ n = finite l.toDecimal := by
  constructor
  · intro h
    unfold parse at h
    split at h
    next n' heq =>
      cases h
      unfold scan? at heq
      split at heq
      next hnan =>
        -- the whole text is the three letters, since nothing is left of it
        simp only [Option.some.injEq, Prod.mk.injEq] at heq
        obtain ⟨rfl, hrest⟩ := heq
        refine Or.inl ⟨?_, rfl⟩
        rwa [List.take_of_length_le (List.drop_eq_nil_iff.1 hrest)] at hnan
      next =>
        obtain ⟨⟨l, rest⟩, hscan, heq⟩ := Option.map_eq_some_iff.1 heq
        simp only [Prod.mk.injEq] at heq
        obtain ⟨rfl, rfl⟩ := heq
        obtain ⟨s, hs, htext⟩ := Literal.scan?_sound hscan
        rw [List.append_nil] at htext
        exact Or.inr ⟨l, htext ▸ hs, rfl⟩
    next => cases h
  · rintro (⟨hnan, rfl⟩ | ⟨l, hl, rfl⟩)
    · rw [parse, scan?_nan hnan]
    · rw [parse, scan?, if_neg (take_three_ne_nan hl), Literal.scan?_complete hl]
      rfl

/-- **Reading is exact.**  A text is accepted when it is `NaN` or writes a literal, and in no other
case.  `NaN` is read as such.  A literal is read as the canonical decimal of the number that all its
digits spell, moved by the exponent less the digits after the point, and it shows as many places as
are left of these digits. -/
theorem parse_exact (text : String) :
    ((∃ n, parse text = .ok n) ↔
      NaNText text.toList ∨ ∃ l : Literal, l.Spells text.toList) ∧
    (NaNText text.toList → parse text = .ok nan) ∧
    ∀ l : Literal, l.Spells text.toList → ∃ d : Decimal, parse text = .ok (finite d) ∧
      d.value = (if l.negative then -1 else 1) * ((Nat.ofDigits 10 l.digits.reverse : ℕ) : ℚ) *
        10 ^ (l.exponent - (l.fraction.length : Int)) ∧
      (d.scale : Int) = max ((l.fraction.length : Int) - l.exponent) 0 ∧ d.Canonical := by
  refine ⟨⟨?_, ?_⟩, ?_, ?_⟩
  · rintro ⟨n, hn⟩
    rcases (parse_eq_ok_iff text n).1 hn with ⟨hnan, -⟩ | ⟨l, hl, -⟩
    · exact Or.inl hnan
    · exact Or.inr ⟨l, hl⟩
  · rintro (hnan | ⟨l, hl⟩)
    · exact ⟨nan, (parse_eq_ok_iff text _).2 (Or.inl ⟨hnan, rfl⟩)⟩
    · exact ⟨_, (parse_eq_ok_iff text _).2 (Or.inr ⟨l, hl, rfl⟩)⟩
  · intro hnan
    exact (parse_eq_ok_iff text _).2 (Or.inl ⟨hnan, rfl⟩)
  · intro l hl
    refine ⟨l.toDecimal, (parse_eq_ok_iff text _).2 (Or.inr ⟨l, hl, rfl⟩), ?_,
      Literal.scale_toDecimal l, Literal.toDecimal_canonical hl.digits_lt⟩
    rw [Literal.value_toDecimal, Literal.magnitude_eq_ofDigits]
    ring

/-- Any letter case of `NaN`, and a literal with all its parts. -/
theorem parse_exact_signed :
    parse "nAn" = .ok nan ∧ ∃ d : Decimal, parse "-1.25e+2" = .ok (finite d) ∧
      d.value = -125 ∧ (d.scale : Int) = 0 ∧ d.Canonical := by
  refine ⟨(parse_exact "nAn").2.1 (by decide), ?_⟩
  have hpower : Literal.ExponentText 2 ['e', '+', '2'] :=
    Literal.ExponentText.present (Or.inl rfl) .plus (show [2] ≠ [] by decide) (by decide)
      (by decide)
  have hmantissa : Literal.MantissaText [1] [2, 5] ['1', '.', '2', '5'] := .point (by decide)
  have hspells : Literal.Spells ⟨true, [1], [2, 5], 2⟩ "-1.25e+2".toList :=
    .intro .minus (by decide) hmantissa hpower
  obtain ⟨d, hd, hvalue, hscale, hcanonical⟩ := (parse_exact "-1.25e+2").2.2 _ hspells
  refine ⟨d, hd, ?_, hscale, hcanonical⟩
  rw [hvalue]
  norm_num [Literal.digits, Nat.ofDigits]

end Numeric

end SqlWire
