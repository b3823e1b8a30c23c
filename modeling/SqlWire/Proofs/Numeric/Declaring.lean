import SqlWire.Proofs.Numeric.Conforming
import SqlWire.Proofs.Numeric.Storage

/-!
# Declaring a precision and a scale

A precision and a scale are the halves of a word, and an offset is added to it.  The word is signed,
and the precision lies where its sign is.  So a precision with the highest of its bits makes the
word negative, and negative words declare nothing: `unpack?_of_pack?` says which precisions are read
back, and `declared_unless_sign_bit` what becomes of a numeric.

`TypeModifier.pack?` adds the offset with the steps of `SqlWire.Numeric.FixedWidth`.  It
comes to nothing for the last scales of one precision (`pack?_eq_none_iff`), and in every other case
gives the word that `TypeModifier.pack` is.
-/

namespace SqlWire

open FixedWidth

namespace TypeModifier

variable {precision scale : UInt16} {word : Int32}

theorem toInt_halves (precision scale : UInt16) : (halves precision scale).toInt =
    ((precision.toNat * 65536 + scale.toNat : Nat) : Int).bmod (2 ^ 32) := by
  have hprecision := precision.toNat_lt
  have hscale := scale.toNat_lt
  have hupper : (precision.toUInt32 <<< 16).toNat = precision.toNat * 65536 := by
    rw [UInt32.toNat_shiftLeft, UInt16.toNat_toUInt32, show (16 : UInt32).toNat % 32 = 16 from rfl,
      Nat.shiftLeft_eq]
    omega
  have hbits : (precision.toUInt32 <<< 16 ||| scale.toUInt32).toNat =
      precision.toNat * 65536 + scale.toNat := by
    rw [UInt32.toNat_or, hupper, UInt16.toNat_toUInt32]
    exact PackedNumeric.or_eq_add 16 (Dvd.intro_left _ rfl) hscale
  rw [← hbits]
  exact BitVec.toInt_eq_toNat_bmod _

theorem toInt_halves_of_lt (h : precision.toNat < 32768) :
    (halves precision scale).toInt = precision.toNat * 65536 + scale.toNat := by
  have hscale := scale.toNat_lt
  rw [toInt_halves, Int.bmod_eq_of_le (by omega) (by omega)]
  push_cast
  rfl

/-- The highest bit of the precision counts down by the number of words. -/
theorem toInt_halves_of_le (h : 32768 ≤ precision.toNat) :
    (halves precision scale).toInt = precision.toNat * 65536 + scale.toNat - 2 ^ 32 := by
  have hprecision := precision.toNat_lt
  have hscale := scale.toNat_lt
  rw [toInt_halves, Int.bmod_def, if_neg (by omega)]
  omega

theorem pack?_eq_some_iff :
    pack? precision scale = some word ↔ word.toInt = (halves precision scale).toInt + 4 := by
  have hlow := word.le_toInt
  have hhigh := word.toInt_lt
  have hoffset : offset.toInt = 4 := rfl
  rw [pack?, hoffset]
  constructor
  · intro h
    obtain ⟨sum, hsum, rfl⟩ := Option.map_eq_some_iff.1 h
    unfold int32? within? at hsum
    split_ifs at hsum with hbounds
    cases hsum
    exact Int32.toInt_ofInt_of_le (by omega) (by omega)
  · intro h
    rw [← h, int32?_eq (by omega), Option.map_some, Int32.ofInt_toInt]

theorem pack_eq_of_pack? (h : pack? precision scale = some word) :
    pack precision scale = word := by
  have hlow := word.le_toInt
  have hhigh := word.toInt_lt
  have hword := pack?_eq_some_iff.1 h
  have hsum : (pack precision scale).toInt =
      ((halves precision scale).toInt + 4).bmod (2 ^ 32) := Int32.toInt_add _ _
  apply Int32.toInt_inj.1
  rw [hsum, ← hword]
  exact Int.bmod_eq_of_le (by omega) (by omega)

/-- The sum goes beyond the word for the last four scales of the largest precision whose word is not
negative. -/
theorem pack?_eq_none_iff :
    pack? precision scale = none ↔ precision.toNat = 32767 ∧ 65532 ≤ scale.toNat := by
  have hprecision := precision.toNat_lt
  have hscale := scale.toNat_lt
  rw [Option.eq_none_iff_forall_ne_some]
  constructor
  · intro hnone
    by_contra hroom
    have hsum : -2 ^ 31 ≤ (halves precision scale).toInt + 4 ∧
        (halves precision scale).toInt + 4 < 2 ^ 31 := by
      by_cases hsign : precision.toNat < 32768
      · rw [toInt_halves_of_lt hsign]
        omega
      · rw [toInt_halves_of_le (by omega)]
        omega
    exact hnone _ (pack?_eq_some_iff.2 (Int32.toInt_ofInt_of_le hsum.1 hsum.2))
  · rintro ⟨hlast, hlate⟩ word hword
    have hlt := word.toInt_lt
    rw [pack?_eq_some_iff.1 hword, toInt_halves_of_lt (by omega)] at hlt
    omega

/-- **A precision and a scale are read back, unless the precision reaches the sign of the word.**
Nothing is declared then. -/
theorem unpack?_of_pack? (h : pack? precision scale = some word) : unpack? word =
    if precision.toNat < 32768 then some ⟨precision.toNat, scale.toNat⟩ else none := by
  have hprecision := precision.toNat_lt
  have hscale := scale.toNat_lt
  have hword := pack?_eq_some_iff.1 h
  by_cases hsign : precision.toNat < 32768
  · rw [toInt_halves_of_lt hsign] at hword
    obtain ⟨⟨p, s⟩, hunpack, hupper, hlower⟩ := @exists_unpack?_eq word (by omega)
    dsimp only at hupper hlower
    rw [if_pos hsign, hunpack, Option.some.injEq, TypeModifier.mk.injEq]
    omega
  · rw [toInt_halves_of_le (by omega)] at hword
    rw [if_neg hsign, unpack?_of_lt (by omega)]

end TypeModifier

namespace Numeric

variable {n : Numeric} {word : Int32} {m : TypeModifier}

/-- What is declared rounds a numeric, and is kept by `NaN` and by what lies below its power of
ten. -/
theorem conform_of_unpack? (h : n.Canonical) (hunpack : TypeModifier.unpack? word = some m) :
    (n.conform word).1 = n.round m.scale ∧
    ((n.conform word).2 = .ok () ↔ n = nan ∨
      ∃ d, n.round m.scale = finite d ∧ |d.value| < 10 ^ m.wholeDigits) ∧
    ((n.conform word).2 = .ok () ∨ (n.conform word).2 = .error m.overflow) := by
  cases n with
  | nan => exact ⟨rfl, iff_of_true rfl (.inl rfl), .inl rfl⟩
  | finite d =>
    have hfits := Decimal.fits_iff
      (Decimal.round_canonical (Decimal.Canonical.group_lt h) m.scale) m
    rw [← Decimal.abs_value] at hfits
    rw [conform_finite hunpack]
    by_cases hbelow : (d.round m.scale).fits m = true
    · rw [if_pos hbelow]
      exact ⟨rfl, iff_of_true rfl (.inr ⟨_, rfl, hfits.1 hbelow⟩), .inl rfl⟩
    · rw [if_neg hbelow]
      refine ⟨rfl, iff_of_false nofun ?_, .inr rfl⟩
      rintro (hnan | ⟨_, ⟨rfl⟩, hlt⟩)
      · cases hnan
      · exact hbelow (hfits.2 hlt)

theorem conform_of_undeclared (n : Numeric) (hunpack : TypeModifier.unpack? word = none) :
    n.conform word = (n, .ok ()) := by
  cases n <;> simp only [conform, hunpack]

theorem Canonical.conform?_eq (h : n.Canonical) (hweight : |n.weight| < 2 ^ 29 - 2)
    (hlength : n.groups.length ≤ maxIndex) (word : Int32) :
    n.conform? word = some (n.conform word) := by
  cases n with
  | nan => rfl
  | finite d =>
    obtain ⟨d', outcome, hmachine, hconform⟩ :=
      Decimal.Canonical.exists_conform?_eq h hweight hlength word
    rw [conform?, hmachine, hconform]
    rfl

/-- **What has been declared is enforced, unless the precision reaches the sign of the word.**  For
the last four scales of precision 32767 there is no word.  Any other precision below 32768 makes
a word that rounds a numeric to the scale, and admits it just if it is `NaN` or has come to lie
below the power of ten of precision less scale.  From precision 32768 on the word declares nothing
and leaves the numeric as it is. -/
theorem declared_unless_sign_bit (h : n.Canonical) (hweight : |n.weight| < 2 ^ 29 - 2)
    (precision scale : UInt16) :
    (TypeModifier.pack? precision scale = none ↔
      precision.toNat = 32767 ∧ 65532 ≤ scale.toNat) ∧
    ∀ word, TypeModifier.pack? precision scale = some word →
      TypeModifier.pack precision scale = word ∧
      (n.groups.length ≤ maxIndex → n.conform? word = some (n.conform word)) ∧
      (precision.toNat < 32768 →
        (n.conform word).1 = n.round scale.toNat ∧
        ((n.conform word).2 = .ok () ↔ n = nan ∨ ∃ d, n.round scale.toNat = finite d ∧
          |d.value| < 10 ^ ((precision.toNat : ℤ) - scale.toNat)) ∧
        ((n.conform word).2 = .ok () ∨
          (n.conform word).2 = .error (TypeModifier.overflow ⟨precision.toNat, scale.toNat⟩))) ∧
      (32768 ≤ precision.toNat → n.conform word = (n, .ok ())) := by
  refine ⟨TypeModifier.pack?_eq_none_iff, fun word hword => ?_⟩
  have hunpack := TypeModifier.unpack?_of_pack? hword
  refine ⟨TypeModifier.pack_eq_of_pack? hword, fun hlength => h.conform?_eq hweight hlength word,
    fun hsign => ?_, fun hsign => ?_⟩
  · rw [if_pos hsign] at hunpack
    exact conform_of_unpack? h hunpack
  · rw [if_neg (Nat.not_lt.2 hsign)] at hunpack
    exact n.conform_of_undeclared hunpack

/-- With five digits, two of them behind the point, 999.995 is rounded and then refused.  Nothing is
declared with the largest precision of all, and with one below the sign there may be no word. -/
theorem declared_unless_sign_bit_five_two :
    let n := finite ⟨false, 0, 3, [999, 9950]⟩
    (n.conform 327686).1 = n.round 2 ∧
    (n.conform 327686).2 = .error (TypeModifier.overflow ⟨5, 2⟩) ∧
    (¬ ∃ d, n.round 2 = finite d ∧ |d.value| < 10 ^ ((5 : ℤ) - 2)) ∧
    n.conform? 327686 = some (n.conform 327686) ∧
    TypeModifier.pack? 32767 65532 = none ∧ n.conform (-65532) = (n, .ok ()) := by
  intro n
  have hcanonical : n.Canonical := ⟨by decide, by decide, by decide, by decide⟩
  have hweight : |n.weight| < 2 ^ 29 - 2 := by decide
  obtain ⟨-, hdeclared⟩ := declared_unless_sign_bit hcanonical hweight 5 2
  obtain ⟨-, hmachine, hbelow, -⟩ := hdeclared 327686 (by decide)
  obtain ⟨hround, hadmits, houtcome⟩ := hbelow (by decide)
  obtain ⟨hnone, -⟩ := declared_unless_sign_bit hcanonical hweight 32767 65532
  obtain ⟨-, hundeclared⟩ := declared_unless_sign_bit hcanonical hweight 65535 0
  have hlong : (n.conform 327686).2 ≠ .ok () := by decide
  refine ⟨hround, houtcome.resolve_left hlong, ?_, hmachine (by decide), hnone.2 (by decide), ?_⟩
  · intro hlt
    exact hlong (hadmits.2 (.inr hlt))
  · exact (hundeclared (-65532) (by decide)).2.2.2 (by decide)

/-- The least precision that reaches the sign has a word, which leaves 1.5 as it is although no
places are declared. -/
theorem precision_in_sign_bit :
    let n := finite ⟨false, 0, 1, [1, 5000]⟩
    n.Canonical ∧ |n.weight| < 2 ^ 29 - 2 ∧
    TypeModifier.pack? 32768 0 = some (-2147483644) ∧
    TypeModifier.pack 32768 0 = -2147483644 ∧
    n.conform (-2147483644) = (n, .ok ()) ∧
    n.round 0 = finite ⟨false, 0, 0, [2]⟩ ∧ (n.conform (-2147483644)).1 ≠ n.round 0 := by
  exact ⟨⟨by decide, by decide, by decide, by decide⟩, by decide, by decide, by decide, by decide,
    by decide, by decide⟩

end Numeric

end SqlWire
