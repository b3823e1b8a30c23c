import SqlWire.Proofs.Numeric.Storage
import SqlWire.Proofs.Numeric.Value

/-!
# Numerics in storage

Storing drops the zero groups at the ends of a numeric, and what is taken out is the
numeric without them (`unpack_pack`).  Everything the words say of it is read off
that form: `fields_pack` and `isShort_pack`.

A numeric is refused for the size of its weight or its scale only, and the words of
two numerics are the same only if the numerics are, up to zero groups at their ends.
-/

namespace SqlWire

theorem Decimal.mem_of_mem_strip {d : Decimal} {g : Nat} (h : g ∈ d.strip.groups) :
    g ∈ d.groups := by
  unfold strip at h
  dsimp only at h
  split at h
  next => cases h
  next => exact (List.dropWhile_sublist _).subset (mem_of_mem_trimEnd h)

namespace Numeric

variable {n : Numeric} {p : PackedNumeric}

theorem strip_group_lt {d : Decimal} (hn : ∀ g ∈ (finite d).groups, g < 65536) :
    ∀ g ∈ d.strip.groups, g < 65536 :=
  fun g hg => hn g (Decimal.mem_of_mem_strip hg)

/-- **Storage strips.**  What was stored is taken out without zero groups at its ends. -/
theorem unpack_pack (hn : ∀ g ∈ n.groups, g < 65536) (h : PackedNumeric.pack n = .ok p) :
    p.unpack = n.strip := by
  cases n with
  | nan => cases h; rfl
  | finite d =>
    rw [PackedNumeric.pack_finite] at h
    exact (PackedNumeric.ofDecimal_holds (strip_group_lt hn) h).unpack_eq

theorem fields_pack (hn : ∀ g ∈ n.groups, g < 65536) (h : PackedNumeric.pack n = .ok p) :
    p.isNaN = n.strip.isNaN ∧ p.sign = n.strip.sign ∧ p.weight = n.strip.weight ∧
      p.scale = n.strip.scale ∧ p.groups = n.strip.groups := by
  cases n with
  | nan =>
    cases h
    decide
  | finite d =>
    rw [PackedNumeric.pack_finite] at h
    have hholds := PackedNumeric.ofDecimal_holds (strip_group_lt hn) h
    exact ⟨hholds.isNaN_eq, hholds.sign_eq, hholds.weight_eq, hholds.scale_eq, hholds.groups_eq⟩

theorem isShort_pack (hn : ∀ g ∈ n.groups, g < 65536) (h : PackedNumeric.pack n = .ok p) :
    p.isShort = true ↔
      n.isNaN = false ∧ n.scale ≤ 63 ∧ -64 ≤ n.strip.weight ∧ n.strip.weight ≤ 63 := by
  cases n with
  | nan =>
    cases h
    decide
  | finite d =>
    rw [PackedNumeric.pack_finite] at h
    obtain ⟨-, rfl⟩ := (PackedNumeric.ofDecimal_eq_ok_iff (strip_group_lt hn)).1 h
    rw [PackedNumeric.isShort_layOut, PackedNumeric.fitsShort, decide_eq_true_eq,
      Decimal.scale_strip]
    exact ⟨fun hfits => ⟨rfl, hfits⟩, fun hfits => hfits.2⟩

theorem exists_pack_iff (hn : ∀ g ∈ n.groups, g < 65536) :
    (∃ p, PackedNumeric.pack n = .ok p) ↔ n.isNaN = true ∨
      -32768 ≤ n.strip.weight ∧ n.strip.weight ≤ 32767 ∧ n.scale ≤ 0x3FFF := by
  cases n with
  | nan => exact iff_of_true ⟨_, rfl⟩ (.inl rfl)
  | finite d =>
    have hfits : PackedNumeric.FitsLong d.strip ↔
        -32768 ≤ d.strip.weight ∧ d.strip.weight ≤ 32767 ∧ d.scale ≤ 0x3FFF := by
      rw [PackedNumeric.FitsLong, Decimal.scale_strip]
    rw [PackedNumeric.pack_finite]
    constructor
    · rintro ⟨p, h⟩
      exact .inr (hfits.1 ((PackedNumeric.ofDecimal_eq_ok_iff (strip_group_lt hn)).1 h).1)
    · rintro (hnan | hroom)
      · cases hnan
      · exact ⟨_, (PackedNumeric.ofDecimal_eq_ok_iff (strip_group_lt hn)).2
          ⟨hfits.2 hroom, rfl⟩⟩

theorem error_pack {e : Error} (h : PackedNumeric.pack n = .error e) :
    e = .outOfRange "numeric" "value overflows numeric format" := by
  cases n with
  | nan => cases h
  | finite d =>
    simp only [PackedNumeric.pack, PackedNumeric.ofDecimal] at h
    split at h
    next => cases h
    next => exact (Except.error.inj h).symm

/-- **A numeric is stored whole, or refused for its size.**  It is stored exactly when its weight,
without zero groups at its ends, fits a signed 16-bit word and its scale fits 14 bits, or when it is
`NaN`.  What is taken out, and every part read off the words, is the numeric without those groups;
the short layout is taken whenever it has room; and the same words are never those of another
numeric. -/
theorem storage_exact (hn : ∀ g ∈ n.groups, g < 65536) :
    ((∃ p, PackedNumeric.pack n = .ok p) ↔ n.isNaN = true ∨
      -32768 ≤ n.strip.weight ∧ n.strip.weight ≤ 32767 ∧ n.scale ≤ 0x3FFF) ∧
    (∀ e, PackedNumeric.pack n = .error e →
      e = .outOfRange "numeric" "value overflows numeric format") ∧
    (∀ p, PackedNumeric.pack n = .ok p →
      p.unpack = n.strip ∧
      (p.isNaN = n.strip.isNaN ∧ p.sign = n.strip.sign ∧ p.weight = n.strip.weight ∧
        p.scale = n.strip.scale ∧ p.groups = n.strip.groups) ∧
      (p.isShort = true ↔
        n.isNaN = false ∧ n.scale ≤ 63 ∧ -64 ≤ n.strip.weight ∧ n.strip.weight ≤ 63)) ∧
    ∀ m p q, (∀ g ∈ m.groups, g < 65536) → PackedNumeric.pack n = .ok p →
      PackedNumeric.pack m = .ok q → n.strip ≠ m.strip → p.words ≠ q.words := by
  refine ⟨exists_pack_iff hn, fun e => error_pack, fun p hp => ?_, ?_⟩
  · exact ⟨unpack_pack hn hp, fields_pack hn hp, isShort_pack hn hp⟩
  · intro m p q hm hp hq hne hwords
    apply hne
    rw [← unpack_pack hn hp, ← unpack_pack hm hq, PackedNumeric.eq_of_words_eq hwords]

/-- Zero groups in front bring the weight down to the least one, which with the largest scale needs
the long layout. -/
theorem storage_exact_least :
    (∀ g ∈ (finite ⟨true, -32766, 16383, [0, 0, 9999, 7, 0]⟩).groups, g < 65536) ∧
    ∃ p, PackedNumeric.pack (finite ⟨true, -32766, 16383, [0, 0, 9999, 7, 0]⟩) = .ok p ∧
      p.isShort = false ∧ p.unpack = finite ⟨true, -32768, 16383, [9999, 7]⟩ := by
  have hn : ∀ g ∈ (finite ⟨true, -32766, 16383, [0, 0, 9999, 7, 0]⟩).groups, g < 65536 := by decide
  obtain ⟨hiff, -, hfields, -⟩ := storage_exact hn
  obtain ⟨p, hp⟩ := hiff.2 (.inr (by decide))
  obtain ⟨hunpack, -, hshort⟩ := hfields p hp
  refine ⟨hn, p, hp, ?_, hunpack⟩
  rw [Bool.eq_false_iff, Ne, hshort]
  decide

end Numeric

end SqlWire
