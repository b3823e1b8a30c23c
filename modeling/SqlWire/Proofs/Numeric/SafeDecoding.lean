import SqlWire.Proofs.Numeric.Reachable
import SqlWire.Proofs.Numeric.SafeCuts

/-!
# Reading numerics that nobody has vouched for

The weight, the display scale and the groups that bytes announce are whatever their sender has
chosen, and so are the type modifier and the scale of a later cut.  `Numeric.decodeConforming?`
reads with the steps of `SqlWire.Numeric.FixedWidth`, which come to nothing at an overflow,
an index out of bounds or a division by zero.

What has been read is within narrow bounds (`within_sent`), and each cut widens them by no more
than the groups there are.  So the machine always gets through, and `decoding_safe` says that what
it reaches is what `Numeric.decodeConforming` is.
-/

namespace SqlWire

open FixedWidth

/-! ### Type modifiers -/

namespace TypeModifier

theorem unpack?_of_lt {word : Int32} (h : word.toInt < 4) : unpack? word = none :=
  if_pos (Int32.lt_iff_toInt_lt.2 h)

theorem exists_unpack?_eq {word : Int32} (h : 4 ≤ word.toInt) :
    ∃ m, unpack? word = some m ∧ (word.toInt - 4) / 65536 % 65536 = m.precision ∧
      (word.toInt - 4) % 65536 = m.scale := by
  have hlt : word.toInt < 2 ^ 31 := word.toInt_lt
  have hsub : (word - offset).toInt = word.toInt - 4 := by
    rw [Int32.toInt_sub]
    show (word.toInt - 4).bmod (2 ^ 32) = _
    exact Int.bmod_eq_of_le (by omega) (by omega)
  have hnonneg : (0 : Int32) ≤ word - offset := by
    rw [Int32.le_iff_toInt_le, hsub]
    exact Int.sub_nonneg_of_le h
  have hbits : (word - offset).toUInt32.toNat = (word.toInt - 4).toNat := by
    rw [Int32.toNat_toUInt32_of_le hnonneg, ← hsub]
    rfl
  have hsome : ¬ word < offset := by
    rw [Int32.lt_iff_toInt_lt]
    exact not_lt.2 h
  refine ⟨_, if_neg hsome, ?_, ?_⟩
  · dsimp only
    omega
  · dsimp only
    omega

end TypeModifier

namespace Decimal

variable {d : Decimal} {reach count : Nat}

theorem leadingZeros_le (g : Nat) : leadingZeros g ≤ 3 := by
  unfold leadingZeros
  split_ifs <;> omega

/-- Only the first group of a canonical decimal is looked at. -/
theorem tooLong?_eq (h : d.Canonical) (hlow : -536870912 ≤ d.weight)
    (hhigh : d.weight ≤ 536870910) (m : TypeModifier) :
    tooLong? m.wholeDigits ((d.weight + 1) * 4) d.groups = some (!d.fits m) := by
  unfold tooLong? fits leadingPlaces?
  cases hgroups : d.groups with
  | nil =>
    rw [leadsBeyond?, ite_self]
    rfl
  | cons g rest =>
    have hne : g ≠ 0 := by
      rintro rfl
      exact h.head_ne_zero (by rw [hgroups]; rfl)
    have hzeros := leadingZeros_le g
    have hdigits (places : Int) : (!(some places).all fun n => decide (n ≤ m.wholeDigits)) =
        decide (m.wholeDigits < places) := by
      rw [Option.all_some, ← decide_not, decide_eq_decide, not_le]
    rw [leadsBeyond?, if_neg hne, int32?_eq (by omega), Option.bind_eq_bind, Option.bind_some,
      hdigits]
    by_cases hlong : m.wholeDigits < (d.weight + 1) * 4
    · rw [if_pos hlong]
      rfl
    · rw [if_neg hlong, decide_eq_false (by omega)]

/-- The machine rounds to what has been declared, where it rounds at all and the number of digits
that a weight stands for is a word. -/
theorem exists_conform?_eq_of_round (hlt : ∀ g ∈ d.groups, g < 10000)
    (hround : ∀ scale : Nat, scale < 65536 → d.round? scale = some (d.round scale) ∧
      -536870912 ≤ (d.round scale).weight ∧ (d.round scale).weight ≤ 536870910)
    (word : Int32) : ∃ d' outcome, d.conform? word = some (d', outcome) ∧
      (Numeric.finite d).conform word = (.finite d', outcome) ∧
      (d' = d ∨ ∃ scale : Nat, d' = d.round scale) := by
  have hword : word.toInt < 2 ^ 31 := word.toInt_lt
  by_cases hnone : word.toInt < 4
  · refine ⟨d, .ok (), if_pos hnone, ?_, .inl rfl⟩
    simp only [Numeric.conform, TypeModifier.unpack?_of_lt hnone]
  · obtain ⟨m, hunpack, hprecision, hscale⟩ :=
      TypeModifier.exists_unpack?_eq (by omega : 4 ≤ word.toInt)
    obtain ⟨hrounded, hlow, hhigh⟩ := hround m.scale (by omega)
    have hlong := tooLong?_eq (round_canonical hlt m.scale) hlow hhigh m
    refine ⟨d.round m.scale, if (d.round m.scale).fits m then .ok () else .error m.overflow,
      ?_, ?_, .inr ⟨m.scale, rfl⟩⟩
    · rw [conform?, if_neg hnone, int32?_eq (by omega), Option.bind_eq_bind, Option.bind_some]
      dsimp only
      rw [hprecision, hscale, int32?_eq (by omega), Option.bind_eq_bind, Option.bind_some,
        hrounded, Option.bind_some, int32?_eq (by omega), Option.bind_some, int32?_eq (by omega),
        Option.bind_some, ← TypeModifier.wholeDigits, hlong]
      cases (d.round m.scale).fits m <;> rfl
    · simp only [Numeric.conform, hunpack]

/-- **The machine rounds to what has been declared.** -/
theorem exists_conform?_eq (h : d.Within reach count) (hbound : reach + count ≤ 900000)
    (word : Int32) : ∃ d' outcome, d.conform? word = some (d', outcome) ∧
      (Numeric.finite d).conform word = (.finite d', outcome) ∧
      d'.Within (reach + 1 + (count + 1)) (count + 1) := by
  have hround (scale : Nat) (hscale : scale < 65536) :
      d.round? scale = some (d.round scale) ∧ -536870912 ≤ (d.round scale).weight ∧
        (d.round scale).weight ≤ 536870910 := by
    have hrounded := h.round scale
    have hlow := hrounded.weight_ge
    have hhigh := hrounded.weight_le
    exact ⟨round?_eq h (by omega) (by omega), by omega, by omega⟩
  obtain ⟨d', outcome, hmachine, hconform, hwhich⟩ :=
    exists_conform?_eq_of_round h.group_lt hround word
  refine ⟨d', outcome, hmachine, hconform, ?_⟩
  rcases hwhich with rfl | ⟨scale, rfl⟩
  · exact h.mono (by omega) (by omega)
  · exact h.round scale

end Decimal

namespace Numeric

theorem within_sent {bytes : Bytes} {t : Transmitted} (h : readParts bytes = .ok t)
    (negative : Bool) :
    Decimal.Within 32768 2000 ⟨negative, t.weight, t.scale, t.groups⟩ := by
  obtain ⟨hform, -, ht⟩ := (readParts_eq_ok_iff bytes t).1 h
  have hweight : t.weight = sentWeight bytes := by rw [ht]
  have hgroups : t.groups = sentGroups bytes := by rw [ht]
  have hword := bytes.word_lt 1
  have hbmod : sentWeight bytes = (bytes.word 1 : Int).bmod 65536 := rfl
  rw [Int.bmod_def] at hbmod
  refine ⟨?_, ?_, ?_, readParts_group_lt h⟩
  · dsimp only
    rw [hweight, hbmod]
    split <;> omega
  · dsimp only
    rw [hweight, hbmod]
    split <;> omega
  · dsimp only
    rw [hgroups, length_sentGroups]
    exact hform.count_le

theorem scale_le_of_readParts {bytes : Bytes} {t : Transmitted} (h : readParts bytes = .ok t) :
    t.scale ≤ 0x3FFF := by
  obtain ⟨hform, -, ht⟩ := (readParts_eq_ok_iff bytes t).1 h
  rw [ht]
  exact hform.scale_le

/-- **The machine reads whatever bytes there are**, and a decimal that it gives is within bounds. -/
theorem decodeConforming?_eq (bytes : Bytes) (word : Int32) :
    decodeConforming? bytes word = some (decodeConforming bytes word) ∧
    ∀ d, decodeConforming bytes word = .ok (finite d) → d.Within 36770 2001 := by
  rw [decodeConforming?, decodeConforming]
  cases ht : readParts bytes with
  | error e => exact ⟨rfl, nofun⟩
  | ok t =>
    by_cases hnan : t.sign = .nan
    · have hnumeric : t.toNumeric = nan := if_pos hnan
      dsimp only
      rw [if_pos hnan]
      simp only [bind, Except.bind, hnumeric, conform]
      exact ⟨rfl, nofun⟩
    · have hnumeric : t.toNumeric = finite
          (Decimal.truncate ⟨t.sign == .negative, t.weight, t.scale, t.groups⟩ t.scale) :=
        if_neg hnan
      have hsent := within_sent ht (t.sign == .negative)
      have hscale := scale_le_of_readParts ht
      have htruncate := Decimal.truncate?_eq hsent (by decide) (r := t.scale) (by omega)
      obtain ⟨d, outcome, hmachine, hconform, hwithin⟩ :=
        Decimal.exists_conform?_eq (hsent.truncate t.scale) (by decide) word
      dsimp only
      rw [if_neg hnan, htruncate, Option.bind_eq_bind, Option.bind_some, hmachine]
      simp only [bind, Except.bind, hnumeric, hconform]
      cases outcome with
      | error e => exact ⟨rfl, nofun⟩
      | ok _ =>
        refine ⟨rfl, ?_⟩
        rintro _ ⟨⟩
        exact hwithin.mono (by decide) (by decide)

/-- **Reading bytes of unknown origin is safe.**  Whatever the bytes and the type modifier are, no
number goes beyond its word on the way, no index is out of bounds, and nothing is divided by zero;
and the same holds of rounding or truncating what has been read, at any scale.  What is read is
canonical, its groups below 10000. -/
theorem decoding_safe (bytes : Bytes) (word r : Int32) :
    decodeConforming? bytes word = some (decodeConforming bytes word) ∧
    ∀ n, decodeConforming bytes word = .ok n →
      n.Canonical ∧ (∀ g ∈ n.groups, g < 10000) ∧
      n.round? r.toInt = some (n.round r.toInt) ∧
      n.truncate? r.toInt = some (n.truncate r.toInt) := by
  obtain ⟨hmachine, hwithin⟩ := decodeConforming?_eq bytes word
  refine ⟨hmachine, fun n hn => ?_⟩
  have hcanonical := decodeConforming_canonical hn
  have hlow : -2 ^ 31 ≤ r.toInt := r.le_toInt
  have hhigh : r.toInt < 2 ^ 31 := r.toInt_lt
  cases n with
  | nan => exact ⟨hcanonical, nofun, rfl, rfl⟩
  | finite d =>
    have hround := Decimal.round?_eq (hwithin d hn) (by decide) (r := r.toInt) (by omega)
    have htruncate := Decimal.truncate?_eq (hwithin d hn) (by decide) (r := r.toInt) (by omega)
    refine ⟨hcanonical, Decimal.Canonical.group_lt hcanonical, ?_, ?_⟩
    · rw [round?, hround]
      rfl
    · rw [truncate?, htruncate]
      rfl

/-- The hidden digit of 99.9951 is cut off, 99.995 is rounded for two places and carries, and at
the largest and the least of all scales it is left alone and comes to nothing. -/
theorem decoding_safe_carry :
    let bytes : Bytes := [0, 2, 0, 0, 0, 0, 0, 3, 0, 99, 38, 223]
    let n := finite ⟨false, 0, 2, [100]⟩
    decodeConforming? bytes 327686 = some (.ok n) ∧ n.Canonical ∧
    n.round? Int32.minValue.toInt = some zero ∧
    n.truncate? Int32.maxValue.toInt = some (finite ⟨false, 0, 2147483647, [100]⟩) := by
  intro bytes n
  have hdecode : decodeConforming bytes 327686 = .ok n := by decide
  obtain ⟨hmachine, hsafe⟩ := decoding_safe bytes 327686 Int32.minValue
  obtain ⟨hcanonical, -, hround, -⟩ := hsafe n hdecode
  obtain ⟨-, hsafe⟩ := decoding_safe bytes 327686 Int32.maxValue
  obtain ⟨-, -, -, htruncate⟩ := hsafe n hdecode
  refine ⟨by rw [hmachine, hdecode], hcanonical, hround.trans ?_, htruncate.trans ?_⟩
  · decide
  · decide

end Numeric

end SqlWire
