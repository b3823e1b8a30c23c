import Mathlib.Data.List.TakeWhile
import Mathlib.Tactic
import SqlWire.Numeric.Literal

/-!
# The grammar of numeric literals

`Literal.Spells l s` says that the text `s` writes the literal `l`: a sign that
may be missing, digits with a point that may be missing, and an exponent that
may be missing.  The rules say nothing about how a text is read.

`scan?_sound` and `scan?_complete` tie them to `Literal.scan?`: whatever is
scanned off the front of a text is written there, and a text that writes a
literal is scanned to its end.
-/

namespace SqlWire

namespace Literal

/-- Decimal digits as characters. -/
def spell (digits : List Nat) : List Char := digits.map Nat.digitChar

/-- A sign as it may be written. -/
inductive SignText : Bool → List Char → Prop
  | absent : SignText false []
  | plus : SignText false ['+']
  | minus : SignText true ['-']

/-- The digits before and after the point as they may be written. -/
inductive MantissaText : List Nat → List Nat → List Char → Prop
  | whole {whole : List Nat} : whole ≠ [] → MantissaText whole [] (spell whole)
  | point {whole fraction : List Nat} : whole ≠ [] →
      MantissaText whole fraction (spell whole ++ '.' :: spell fraction)
  | fraction {fraction : List Nat} : fraction ≠ [] →
      MantissaText [] fraction ('.' :: spell fraction)

/-- An exponent as it may be written. -/
inductive ExponentText : Int → List Char → Prop
  | absent : ExponentText 0 []
  | present {mark : Char} {negative : Bool} {sign : List Char} {digits : List Nat} :
      mark = 'e' ∨ mark = 'E' → SignText negative sign → digits ≠ [] → (∀ d ∈ digits, d < 10) →
      magnitude digits ≤ maxExponent →
      ExponentText (if negative then -(magnitude digits : Int) else magnitude digits)
        (mark :: (sign ++ spell digits))

/-- The text writes the literal. -/
inductive Spells : Literal → List Char → Prop
  | intro {negative : Bool} {whole fraction : List Nat} {exponent : Int}
      {sign mantissa power : List Char} :
      SignText negative sign → (∀ d ∈ whole ++ fraction, d < 10) →
      MantissaText whole fraction mantissa → ExponentText exponent power →
      Spells ⟨negative, whole, fraction, exponent⟩ (sign ++ (mantissa ++ power))

theorem Spells.digits_lt {l : Literal} {s : List Char} (h : Spells l s) :
    ∀ d ∈ l.digits, d < 10 := by
  cases h with
  | intro _ hdigits _ _ => exact hdigits

/-! ### Characters -/

/-- The text does not go on with a digit. -/
def NoDigit (s : List Char) : Prop := ∀ c, s.head? = some c → c.isDigit = false

theorem isDigit_of_mem_spell {digits : List Nat} (h : ∀ d ∈ digits, d < 10) :
    ∀ c ∈ spell digits, c.isDigit = true := by
  intro c hc
  obtain ⟨d, hd, rfl⟩ := List.mem_map.1 hc
  rw [Nat.isDigit_digitChar]
  exact decide_eq_true (h d hd)

theorem digitChar_of_isDigit {c : Char} (h : c.isDigit = true) :
    Nat.digitChar (c.toNat - '0'.toNat) = c := by
  have hrange : 48 ≤ c.toNat ∧ c.toNat ≤ 57 := by
    simp only [Char.isDigit, Bool.and_eq_true, decide_eq_true_eq, ge_iff_le,
      UInt32.le_iff_toNat_le] at h
    exact h
  have hzero : '0'.toNat = 48 := rfl
  apply Char.toNat_inj.1
  rw [Nat.toNat_digitChar_of_lt_ten (by omega)]
  omega

theorem exists_spell_cons {digits : List Nat} (hne : digits ≠ []) (h : ∀ d ∈ digits, d < 10) :
    ∃ c s, spell digits = c :: s ∧ c.isDigit = true := by
  cases digits with
  | nil => exact absurd rfl hne
  | cons d rest =>
    exact ⟨Nat.digitChar d, spell rest, rfl,
      isDigit_of_mem_spell h _ (by simp [spell])⟩

/-! ### What is read is written -/

theorem splitSign_sound (s : List Char) :
    ∃ sign, SignText (splitSign s).1 sign ∧ s = sign ++ (splitSign s).2 := by
  unfold splitSign
  split
  · exact ⟨['+'], .plus, rfl⟩
  · exact ⟨['-'], .minus, rfl⟩
  · exact ⟨[], .absent, rfl⟩

theorem spell_splitDigits (s : List Char) :
    s = spell (splitDigits s).1 ++ (splitDigits s).2 := by
  have hspell : spell (splitDigits s).1 = s.takeWhile Char.isDigit := by
    rw [splitDigits, spell, List.map_map]
    refine (List.map_congr_left fun c hc => ?_).trans (List.map_id _)
    exact digitChar_of_isDigit (List.mem_takeWhile_imp hc)
  rw [hspell]
  exact List.takeWhile_append_dropWhile.symm

theorem fraction?_sound {s rest : List Char} {digits : List Nat}
    (h : fraction? s = some (digits, rest)) :
    (digits = [] ∧ s = rest) ∨ s = '.' :: (spell digits ++ rest) := by
  unfold fraction? at h
  split at h
  next s =>
    dsimp only at h
    split at h
    · cases h
    · cases h
      exact Or.inr (congrArg _ (spell_splitDigits s))
  next => cases h; exact Or.inl ⟨rfl, rfl⟩

theorem exponent?_sound {s rest : List Char} {e : Int} (h : exponent? s = some (e, rest)) :
    ∃ power, ExponentText e power ∧ s = power ++ rest := by
  cases s with
  | nil =>
    cases h
    exact ⟨[], .absent, rfl⟩
  | cons c s =>
    simp only [exponent?] at h
    split at h
    next hmark =>
      split at h
      · cases h
      next hok =>
        cases h
        obtain ⟨sign, hsign, hs⟩ := splitSign_sound s
        have hdigits := spell_splitDigits (splitSign s).2
        rw [not_or, not_lt] at hok
        refine ⟨_, .present hmark hsign hok.1 (splitDigits_lt _) hok.2, ?_⟩
        rw [List.cons_append, List.append_assoc, ← hdigits, ← hs]
    next =>
      cases h
      exact ⟨[], .absent, rfl⟩

/-- **What is scanned is written** at the front of the text. -/
theorem scan?_sound {s rest : List Char} {l : Literal} (h : scan? s = some (l, rest)) :
    ∃ text, Spells l text ∧ s = text ++ rest := by
  have hlt := scan?_digits_lt h
  simp only [scan?, Option.bind_eq_bind] at h
  obtain ⟨⟨fraction, s'⟩, hfraction, h⟩ := Option.bind_eq_some_iff.1 h
  dsimp only at h
  split at h
  · cases h
  next hne =>
    obtain ⟨⟨exponent, s''⟩, hexponent, h⟩ := Option.bind_eq_some_iff.1 h
    cases h
    obtain ⟨sign, hsign, hs⟩ := splitSign_sound s
    have hwhole := spell_splitDigits (splitSign s).2
    obtain ⟨power, hpower, hs'⟩ := exponent?_sound hexponent
    -- the mantissa is what stands between the sign and the exponent
    obtain ⟨mantissa, hmantissa, hm⟩ : ∃ mantissa,
        MantissaText (splitDigits (splitSign s).2).1 fraction mantissa ∧
          (splitSign s).2 = mantissa ++ s' := by
      rcases fraction?_sound hfraction with ⟨rfl, hrest⟩ | hrest
      · rw [hrest] at hwhole
        exact ⟨_, .whole (by simpa using hne), hwhole⟩
      · rw [hrest] at hwhole
        by_cases hnil : (splitDigits (splitSign s).2).1 = []
        · rw [hnil] at hwhole hne ⊢
          exact ⟨_, .fraction (by simpa using hne), by simpa [spell] using hwhole⟩
        · exact ⟨_, .point hnil, by simpa using hwhole⟩
    refine ⟨_, .intro hsign hlt hmantissa hpower, ?_⟩
    rw [List.append_assoc, List.append_assoc, ← hs', ← hm, ← hs]

/-! ### What is written is read -/

theorem splitSign_append {negative : Bool} {sign s : List Char} (h : SignText negative sign)
    (hs : ∀ c, s.head? = some c → c ≠ '+' ∧ c ≠ '-') : splitSign (sign ++ s) = (negative, s) := by
  cases h with
  | plus => rfl
  | minus => rfl
  | absent =>
    rw [List.nil_append]
    unfold splitSign
    split
    · exact absurd rfl (hs _ rfl).1
    · exact absurd rfl (hs _ rfl).2
    · rfl

theorem splitDigits_spell_append {digits : List Nat} {s : List Char} (h : ∀ d ∈ digits, d < 10)
    (hs : NoDigit s) : splitDigits (spell digits ++ s) = (digits, s) := by
  have hchars := isDigit_of_mem_spell h
  have htake : s.takeWhile Char.isDigit = [] := by
    cases s with
    | nil => rfl
    | cons c s => exact List.takeWhile_cons_of_neg (by simp [hs c rfl])
  have hdrop : s.dropWhile Char.isDigit = s := by
    cases s with
    | nil => rfl
    | cons c s => exact List.dropWhile_cons_of_neg (by simp [hs c rfl])
  have hvalues : (spell digits).map (fun c => c.toNat - '0'.toNat) = digits := by
    rw [spell, List.map_map]
    refine (List.map_congr_left fun d hd => ?_).trans (List.map_id digits)
    exact Nat.toNat_digitChar_sub_48_of_lt_ten (h d hd)
  rw [splitDigits, List.takeWhile_append_of_pos hchars, List.dropWhile_append_of_pos hchars, htake,
    hdrop, List.append_nil, hvalues]

theorem splitDigits_spell {digits : List Nat} (h : ∀ d ∈ digits, d < 10) :
    splitDigits (spell digits) = (digits, []) := by
  have := splitDigits_spell_append (s := []) h (by simp [NoDigit])
  rwa [List.append_nil] at this

theorem ExponentText.head_eq {e : Int} {power : List Char} (h : ExponentText e power) :
    ∀ c, power.head? = some c → c = 'e' ∨ c = 'E' := by
  cases h with
  | absent => simp
  | present hmark _ _ _ _ => simpa using hmark

theorem ExponentText.noDigit {e : Int} {power : List Char} (h : ExponentText e power) :
    NoDigit power := by
  intro c hc
  rcases h.head_eq c hc with rfl | rfl <;> decide

theorem exponent?_complete {e : Int} {power : List Char} (h : ExponentText e power) :
    exponent? power = some (e, []) := by
  cases h with
  | absent => rfl
  | @present mark negative sign digits hmark hsign hne hlt hle =>
    have hhead : ∀ c, (spell digits).head? = some c → c ≠ '+' ∧ c ≠ '-' := by
      intro c hc
      obtain ⟨c', s, hs, hdigit⟩ := exists_spell_cons hne hlt
      rw [hs, List.head?_cons, Option.some.injEq] at hc
      subst hc
      constructor <;> rintro rfl <;> exact absurd hdigit (by decide)
    simp only [exponent?, if_pos hmark, splitSign_append hsign hhead, splitDigits_spell hlt]
    rw [if_neg (by rw [not_or, not_lt]; exact ⟨hne, hle⟩)]

theorem fraction?_of_ne {s : List Char} (h : ∀ c, s.head? = some c → c ≠ '.') :
    fraction? s = some ([], s) := by
  unfold fraction?
  split
  · exact absurd rfl (h _ rfl)
  · rfl

theorem fraction?_point {fraction : List Nat} {s : List Char} (h : ∀ d ∈ fraction, d < 10)
    (hs : NoDigit s) (hpoint : ∀ c, s.head? = some c → c ≠ '.') :
    fraction? ('.' :: (spell fraction ++ s)) = some (fraction, s) := by
  simp only [fraction?, splitDigits_spell_append h hs]
  rw [if_neg fun hhead => hpoint _ hhead rfl]

theorem MantissaText.head_eq {whole fraction : List Nat} {mantissa : List Char}
    (h : MantissaText whole fraction mantissa) (hlt : ∀ d ∈ whole ++ fraction, d < 10) :
    ∃ c s, mantissa = c :: s ∧ (c.isDigit = true ∨ c = '.') := by
  cases h with
  | whole hne =>
    obtain ⟨c, s, hs, hc⟩ := exists_spell_cons hne fun d hd => hlt d (List.mem_append_left _ hd)
    exact ⟨c, s, hs, Or.inl hc⟩
  | point hne =>
    obtain ⟨c, s, hs, hc⟩ := exists_spell_cons hne fun d hd => hlt d (List.mem_append_left _ hd)
    exact ⟨c, _, by rw [hs, List.cons_append], Or.inl hc⟩
  | fraction _ => exact ⟨'.', _, rfl, Or.inr rfl⟩

theorem mantissa_complete {whole fraction : List Nat} {mantissa power : List Char} {e : Int}
    (h : MantissaText whole fraction mantissa) (hlt : ∀ d ∈ whole ++ fraction, d < 10)
    (hpower : ExponentText e power) :
    (splitDigits (mantissa ++ power)).1 = whole ∧
      fraction? (splitDigits (mantissa ++ power)).2 = some (fraction, power) := by
  have hwlt : ∀ d ∈ whole, d < 10 := fun d hd => hlt d (List.mem_append_left _ hd)
  have hflt : ∀ d ∈ fraction, d < 10 := fun d hd => hlt d (List.mem_append_right _ hd)
  have hpoint : ∀ c, power.head? = some c → c ≠ '.' := by
    intro c hc
    rcases hpower.head_eq c hc with rfl | rfl <;> decide
  have hstop : ∀ s : List Char, NoDigit ('.' :: s) := by
    intro s c hc
    cases hc
    rfl
  cases h with
  | whole _ =>
    rw [splitDigits_spell_append hwlt hpower.noDigit]
    exact ⟨rfl, fraction?_of_ne hpoint⟩
  | point _ =>
    rw [List.append_assoc, List.cons_append, splitDigits_spell_append hwlt (hstop _)]
    exact ⟨rfl, fraction?_point hflt hpower.noDigit hpoint⟩
  | fraction _ =>
    have hnone : ∀ d ∈ ([] : List Nat), d < 10 := by simp
    have hsplit := splitDigits_spell_append hnone (hstop (spell fraction ++ power))
    rw [List.cons_append]
    rw [spell, List.map_nil, List.nil_append] at hsplit
    rw [hsplit]
    exact ⟨rfl, fraction?_point hflt hpower.noDigit hpoint⟩

/-- **What is written is scanned**, to the end of the text. -/
theorem scan?_complete {l : Literal} {s : List Char} (h : Spells l s) : scan? s = some (l, []) := by
  cases h with
  | @intro negative whole fraction exponent sign mantissa power hsign hlt hmantissa hpower =>
    obtain ⟨hwhole, hfraction⟩ := mantissa_complete hmantissa hlt hpower
    have hhead : ∀ c, (mantissa ++ power).head? = some c → c ≠ '+' ∧ c ≠ '-' := by
      intro c hc
      obtain ⟨c', s, rfl, hc'⟩ := hmantissa.head_eq hlt
      rw [List.cons_append, List.head?_cons, Option.some.injEq] at hc
      subst hc
      constructor <;> rintro rfl <;> revert hc' <;> decide
    have hdigits : ¬ (whole = [] ∧ fraction = []) := by
      rintro ⟨rfl, rfl⟩
      cases hmantissa with
      | whole hne => exact hne rfl
      | point hne => exact hne rfl
      | fraction hne => exact hne rfl
    simp only [scan?, splitSign_append hsign hhead, Option.bind_eq_bind, hfraction,
      Option.bind_some, hwhole, if_neg hdigits, exponent?_complete hpower]
    rfl

end Literal

end SqlWire
