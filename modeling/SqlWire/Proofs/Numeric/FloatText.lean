import Mathlib.Data.List.DropRight
import SqlWire.Numeric.Float
import SqlWire.Proofs.Binary64.LeadingDigit
import SqlWire.Proofs.Numeric.Parsing

/-!
# Floating-point numbers through their text

A floating-point number can be turned into a numeric through text: it is printed in scientific
notation, the zeros at the end of the mantissa are cut off, the point with them if it is left bare,
and what remains is read as any other literal (`Numeric.ofScientificText`).  Printed with fifteen
digits, this is what `Numeric.ofBinary64` computes (`ofBinary64_eq`).

* `ScientificText.spells_trimmed`: the trimmed text writes the literal of the digits that are kept.
* `Literal.isLeast_scale`: a literal that does not end in a zero shows as many places as its number
  needs, and no more.
* `Scientific.wellFormed_printed`: what is printed has one digit before the point, fourteen after
  it, and a short exponent.
-/

namespace SqlWire

/-! ### Texts in scientific notation -/

/-- A number in scientific notation as it is printed: `-D.ddde-X`, either sign missing when it is
positive. -/
structure ScientificText where
  negative : Bool
  /-- The digit before the point. -/
  lead : Nat
  /-- The digits after it. -/
  fraction : List Nat
  /-- The exponent is negative. -/
  below : Bool
  /-- The digits of the exponent. -/
  power : List Nat
  deriving Repr, DecidableEq, Inhabited

namespace ScientificText

/-- A sign as it is printed. -/
def signChars (negative : Bool) : List Char := if negative then ['-'] else []

def exponent (p : ScientificText) : Int :=
  if p.below then -(Literal.magnitude p.power : Int) else Literal.magnitude p.power

def value (p : ScientificText) : ℚ :=
  (if p.negative then -1 else 1) *
    ((p.lead + (Nat.ofDigits 10 p.fraction.reverse : ℕ) / 10 ^ p.fraction.length) *
      10 ^ p.exponent)

/-- What stands before the exponent. -/
def mantissa (p : ScientificText) : List Char :=
  signChars p.negative ++ Nat.digitChar p.lead :: '.' :: Literal.spell p.fraction

/-- The digits of the exponent, with their sign. -/
def powerChars (p : ScientificText) : List Char := signChars p.below ++ Literal.spell p.power

def chars (p : ScientificText) : List Char := p.mantissa ++ 'e' :: p.powerChars

/-- One digit before the point, fourteen after it, and an exponent of magnitude at most 400. -/
structure WellFormed (p : ScientificText) : Prop where
  lead_lt : p.lead < 10
  length_fraction : p.fraction.length = 14
  fraction_lt : ∀ d ∈ p.fraction, d < 10
  power_ne_nil : p.power ≠ []
  power_lt : ∀ d ∈ p.power, d < 10
  magnitude_le : Literal.magnitude p.power ≤ 400

/-! ### Trimming -/

/-- What stands before the first `e` and after it. -/
def splitExponent? (s : List Char) : Option (List Char × List Char) :=
  match s.dropWhile (· != 'e') with
  | [] => none
  | _ :: rest => some (s.takeWhile (· != 'e'), rest)

/-- A mantissa without the zeros at its end, nor a point after which nothing stands. -/
def trimMantissa (mantissa : List Char) : List Char :=
  (mantissa.rdropWhile (· == '0')).rdropWhile (· == '.')

/-- A text with its mantissa trimmed, if that has a point. -/
def trim (s : List Char) : List Char :=
  match splitExponent? s with
  | some (mantissa, power) =>
    if '.' ∈ mantissa then trimMantissa mantissa ++ 'e' :: power else s
  | none => s

/-- The literal of the digits that are kept. -/
def literal (p : ScientificText) : Literal :=
  ⟨p.negative, [p.lead], Decimal.trimEnd p.fraction, p.exponent⟩

end ScientificText

/-- The numeric of a text in scientific notation, trimmed and then read. -/
def Numeric.ofScientificText (s : List Char) : Except Error Numeric :=
  Numeric.parse (String.ofList (ScientificText.trim s))

/-! ### Cutting characters off the end -/

section

variable {c : Char}

theorem rdropWhile_append_replicate (s : List Char) (n : ℕ) :
    (s ++ List.replicate n c).rdropWhile (· == c) = s.rdropWhile (· == c) := by
  induction n with
  | zero => simp
  | succ n ih =>
    rw [List.replicate_succ', ← List.append_assoc, List.rdropWhile_concat_pos _ _ _ (by simp), ih]

theorem rdropWhile_of_getLast?_ne {s : List Char} (h : s.getLast? ≠ some c) :
    s.rdropWhile (· == c) = s := by
  refine List.rdropWhile_eq_self_iff.2 fun hs hlast => h ?_
  rw [List.getLast?_eq_some_getLast hs, beq_iff_eq.1 hlast]

end

namespace Literal

/-! ### Digits as characters -/

theorem notMem_spell {c : Char} (hc : c.isDigit = false) {ds : List Nat} (h : ∀ d ∈ ds, d < 10) :
    c ∉ spell ds := by
  intro hmem
  rw [isDigit_of_mem_spell h c hmem] at hc
  cases hc

theorem getLast?_spell_ne {ds : List Nat} (h : ∀ d ∈ ds, d < 10) (hlast : ds.getLast? ≠ some 0) :
    (spell ds).getLast? ≠ some '0' := by
  have hzero : ∀ d < 10, Nat.digitChar d = '0' → d = 0 := by decide
  rw [spell, List.getLast?_map]
  intro heq
  obtain ⟨d, hd, hchar⟩ := Option.map_eq_some_iff.1 heq
  rw [hd, hzero d (h d (List.mem_of_getLast? hd)) hchar] at hlast
  exact hlast rfl

theorem rdropWhile_spell {s : List Char} {ds : List Nat} (h : ∀ d ∈ ds, d < 10)
    (hs : s.getLast? ≠ some '0') :
    (s ++ spell ds).rdropWhile (· == '0') = s ++ spell (Decimal.trimEnd ds) := by
  obtain ⟨n, hn⟩ := Decimal.exists_trimEnd_append ds
  have hspell : spell ds = spell (Decimal.trimEnd ds) ++ List.replicate n '0' := by
    conv_lhs => rw [hn]
    rw [spell, List.map_append, List.map_replicate]
    rfl
  have hkept : ∀ d ∈ Decimal.trimEnd ds, d < 10 := fun d hd => h d (Decimal.mem_of_mem_trimEnd hd)
  rw [hspell, ← List.append_assoc, rdropWhile_append_replicate]
  refine rdropWhile_of_getLast?_ne ?_
  rw [List.getLast?_append]
  cases hlast : (spell (Decimal.trimEnd ds)).getLast? with
  | none => exact hs
  | some c =>
    have hne := getLast?_spell_ne hkept (Decimal.getLast?_trimEnd ds)
    rwa [hlast] at hne

/-! ### How many places a number needs -/

/-- A whole number that does not end in a zero, moved by a power of ten, needs as many places as it
was moved down. -/
theorem isLeast_places {c e : ℤ} (h : ¬ 10 ∣ c) :
    IsLeast {k : ℕ | ∃ z : ℤ, (c : ℚ) * 10 ^ e * 10 ^ k = z} (-e).toNat := by
  have hshift : ∀ k : ℕ, (c : ℚ) * 10 ^ e * 10 ^ k = c * 10 ^ (e + k) := by
    intro k
    rw [zpow_add₀ (by norm_num), zpow_natCast, mul_assoc]
  constructor
  · obtain ⟨j, hj⟩ := Int.eq_ofNat_of_zero_le (show 0 ≤ e + (-e).toNat by omega)
    refine ⟨c * 10 ^ j, ?_⟩
    rw [hshift, hj, zpow_natCast]
    push_cast
    rfl
  · rintro k ⟨z, hz⟩
    by_contra hlt
    -- short by `j + 1` places, the number keeps its last digit behind the point
    obtain ⟨j, hj⟩ : ∃ j : ℕ, e + k = -((j + 1 : ℕ) : ℤ) := ⟨(-e - k - 1).toNat, by omega⟩
    rw [hshift, hj, zpow_neg, zpow_natCast, ← div_eq_mul_inv, div_eq_iff (by positivity)] at hz
    have hwhole : c = z * 10 ^ (j + 1) := by exact_mod_cast hz
    rw [pow_succ, ← mul_assoc] at hwhole
    exact h (hwhole ▸ dvd_mul_left _ _)

/-- **A literal that does not end in a zero shows the places that its number needs**: the least
power of ten that makes the number whole. -/
theorem isLeast_scale {l : Literal} (h : ¬ 10 ∣ magnitude l.digits) :
    IsLeast {k : ℕ | ∃ z : ℤ, l.toDecimal.value * 10 ^ k = z} l.toDecimal.scale := by
  have hscale := scale_toDecimal l
  have hplaces : l.toDecimal.scale = (-(l.exponent - (l.fraction.length : ℤ))).toNat := by omega
  have hwhole : ¬ (10 : ℤ) ∣ magnitude l.digits := by exact_mod_cast h
  rw [hplaces, value_toDecimal]
  split
  · simpa using isLeast_places (e := l.exponent - l.fraction.length) (mt (dvd_neg).1 hwhole)
  · simpa using isLeast_places (e := l.exponent - l.fraction.length) hwhole

end Literal

namespace ScientificText

variable {p : ScientificText}

/-! ### What a trimmed text writes -/

theorem signText (negative : Bool) : Literal.SignText negative (signChars negative) := by
  cases negative
  · exact .absent
  · exact .minus

theorem notMem_signChars {c : Char} (h : c ≠ '-') (negative : Bool) : c ∉ signChars negative := by
  cases negative <;> simp [signChars, h]

theorem splitExponent?_chars (h : p.WellFormed) :
    splitExponent? p.chars = some (p.mantissa, p.powerChars) := by
  have hlead : ∀ d ∈ [p.lead], d < 10 := by simpa using h.lead_lt
  have hmark : 'e' ∉ p.mantissa := by
    have hfirst := Literal.notMem_spell (c := 'e') (by decide) hlead
    have hrest := Literal.notMem_spell (c := 'e') (by decide) h.fraction_lt
    have hsign := notMem_signChars (c := 'e') (by decide) p.negative
    simp only [Literal.spell, List.map_cons, List.map_nil, List.mem_singleton] at hfirst
    simp [mantissa, hsign, hfirst, hrest]
  have hbefore : ∀ c ∈ p.mantissa, (c != 'e') = true := by
    intro c hc
    rw [bne_iff_ne]
    rintro rfl
    exact hmark hc
  simp only [splitExponent?, chars, List.dropWhile_append_of_pos hbefore,
    List.takeWhile_append_of_pos hbefore]
  simp

theorem trimMantissa_mantissa (h : p.WellFormed) :
    ∃ kept, Literal.MantissaText [p.lead] (Decimal.trimEnd p.fraction) kept ∧
      trimMantissa p.mantissa = signChars p.negative ++ kept := by
  have hkept : ∀ d ∈ Decimal.trimEnd p.fraction, d < 10 :=
    fun d hd => h.fraction_lt d (Decimal.mem_of_mem_trimEnd hd)
  have hzeros : p.mantissa.rdropWhile (· == '0') =
      signChars p.negative ++ Nat.digitChar p.lead :: '.' ::
        Literal.spell (Decimal.trimEnd p.fraction) := by
    have := Literal.rdropWhile_spell (s := signChars p.negative ++ [Nat.digitChar p.lead, '.'])
      h.fraction_lt (by simp)
    simpa [mantissa] using this
  unfold trimMantissa
  rw [hzeros]
  by_cases hnil : Decimal.trimEnd p.fraction = []
  · rw [hnil]
    refine ⟨Literal.spell [p.lead], .whole (List.cons_ne_nil _ _), ?_⟩
    -- the point is left bare, and what stands before it is a digit
    have hpoint := rdropWhile_append_replicate (c := '.')
      (signChars p.negative ++ [Nat.digitChar p.lead]) 1
    rw [rdropWhile_of_getLast?_ne (s := signChars p.negative ++ [Nat.digitChar p.lead])
      (by simp)] at hpoint
    simpa [Literal.spell] using hpoint
  · refine ⟨Literal.spell [p.lead] ++ '.' :: Literal.spell (Decimal.trimEnd p.fraction),
      .point (List.cons_ne_nil _ _), ?_⟩
    refine (rdropWhile_of_getLast?_ne ?_).trans (by simp [Literal.spell])
    have hne : Literal.spell (Decimal.trimEnd p.fraction) ≠ [] := by
      simpa [Literal.spell] using hnil
    have hpoint := Literal.notMem_spell (c := '.') (by decide) hkept
    intro hlast
    rw [List.getLast?_append_of_ne_nil _ (by simp), List.getLast?_cons_cons,
      ← List.singleton_append, List.getLast?_append_of_ne_nil _ hne] at hlast
    exact hpoint (List.mem_of_getLast? hlast)

/-- **The trimmed text writes the literal of the digits that are kept.** -/
theorem spells_trimmed (h : p.WellFormed) : p.literal.Spells (trim p.chars) := by
  obtain ⟨kept, hmantissa, hkept⟩ := trimMantissa_mantissa h
  have hpoint : '.' ∈ p.mantissa := by simp [mantissa]
  have htrim : trim p.chars = signChars p.negative ++ (kept ++ 'e' :: p.powerChars) := by
    simp only [trim, splitExponent?_chars h, if_pos hpoint, hkept, List.append_assoc]
  have hdigits : ∀ d ∈ [p.lead] ++ Decimal.trimEnd p.fraction, d < 10 := by
    intro d hd
    rcases List.mem_append.1 hd with hd | hd
    · rw [List.mem_singleton.1 hd]
      exact h.lead_lt
    · exact h.fraction_lt d (Decimal.mem_of_mem_trimEnd hd)
  have hsmall : Literal.magnitude p.power ≤ Literal.maxExponent :=
    h.magnitude_le.trans (by decide)
  rw [htrim]
  exact .intro (signText p.negative) hdigits hmantissa
    (.present (Or.inl rfl) (signText p.below) h.power_ne_nil h.power_lt hsmall)

theorem ofScientificText_chars (h : p.WellFormed) :
    Numeric.ofScientificText p.chars = .ok (.finite p.literal.toDecimal) :=
  (Numeric.parse_eq_ok_iff _ _).2
    (Or.inr ⟨p.literal, by rw [String.toList_ofList]; exact spells_trimmed h, rfl⟩)

/-! ### The number and its places -/

/-- No digit is lost: the zeros cut off count nothing. -/
theorem value_literal (p : ScientificText) : p.literal.toDecimal.value = p.value := by
  obtain ⟨n, hn⟩ := Decimal.exists_trimEnd_append p.fraction
  have hfraction : ((Nat.ofDigits 10 p.fraction.reverse : ℕ) : ℚ) / 10 ^ p.fraction.length =
      fractional 10 (Decimal.trimEnd p.fraction) := by
    rw [← Literal.magnitude_eq_ofDigits, Literal.magnitude_eq,
      mul_div_assoc, div_self (by positivity), mul_one]
    conv_lhs => rw [hn, fractional_append_zeros]
  have hlead : (Literal.magnitude p.literal.digits : ℚ) =
      (p.lead + fractional 10 (Decimal.trimEnd p.fraction)) *
        10 ^ (Decimal.trimEnd p.fraction).length := by
    rw [Literal.digits, literal, List.singleton_append, Literal.magnitude_cons]
    push_cast
    rw [Literal.magnitude_eq]
    ring
  have hpower : (10 : ℚ) ^ (p.exponent - (Decimal.trimEnd p.fraction).length) =
      10 ^ p.exponent / 10 ^ (Decimal.trimEnd p.fraction).length := by
    rw [zpow_sub₀ (by norm_num), zpow_natCast]
  rw [Literal.value_toDecimal, hlead, value, hfraction]
  refine congrArg₂ (· * ·) rfl ?_
  rw [show p.literal.exponent - p.literal.fraction.length =
    p.exponent - (Decimal.trimEnd p.fraction).length from rfl, hpower]
  field_simp

theorem value_eq_zero_iff (p : ScientificText) :
    p.value = 0 ↔ Literal.magnitude p.literal.digits = 0 := by
  have hsign : (if p.literal.negative then -1 else 1 : ℚ) ≠ 0 := by split <;> norm_num
  have hpower : (10 : ℚ) ^ (p.literal.exponent - p.literal.fraction.length) ≠ 0 := by positivity
  rw [← value_literal, Literal.value_toDecimal, mul_eq_zero, or_iff_right hsign, mul_eq_zero,
    or_iff_left hpower, Nat.cast_eq_zero]

theorem not_dvd_of_kept (h : p.WellFormed) (hkept : Decimal.trimEnd p.fraction ≠ []) :
    ¬ 10 ∣ Literal.magnitude p.literal.digits := by
  have hlast := Decimal.getLast?_trimEnd p.fraction
  obtain ⟨before, d, hd⟩ := (List.eq_nil_or_concat' (Decimal.trimEnd p.fraction)).resolve_left hkept
  have hlt : d < 10 := by
    refine h.fraction_lt d (Decimal.mem_of_mem_trimEnd ?_)
    rw [hd]
    simp
  rw [hd, List.getLast?_concat, ne_eq, Option.some.injEq] at hlast
  have hdigits : Literal.magnitude p.literal.digits =
      Literal.magnitude (p.lead :: before) * 10 + d := by
    rw [Literal.digits, literal, hd, ← List.append_assoc, Literal.magnitude_append]
    simp [Literal.magnitude]
  omega

theorem not_dvd_of_value_ne (h : p.WellFormed) (hvalue : p.value ≠ 0) :
    ¬ 10 ∣ Literal.magnitude p.literal.digits := by
  by_cases hkept : Decimal.trimEnd p.fraction = []
  · have hdigits : Literal.magnitude p.literal.digits = p.lead := by
      simp [literal, Literal.digits, hkept, Literal.magnitude]
    have hlead := h.lead_lt
    rw [ne_eq, value_eq_zero_iff] at hvalue
    omega
  · exact not_dvd_of_kept h hkept

theorem value_ne_zero_of_lead (hlead : 0 < p.lead) : p.value ≠ 0 := by
  have hpower : 0 < p.lead * 10 ^ (Decimal.trimEnd p.fraction).length := by positivity
  rw [ne_eq, value_eq_zero_iff, Literal.digits, literal, List.singleton_append,
    Literal.magnitude_cons]
  exact (Nat.add_pos_left hpower _).ne'

theorem isLeast_scale (h : p.WellFormed) (hvalue : p.value ≠ 0) :
    IsLeast {k : ℕ | ∃ z : ℤ, p.value * 10 ^ k = z} p.literal.toDecimal.scale := by
  rw [← value_literal]
  exact Literal.isLeast_scale (not_dvd_of_value_ne h hvalue)

/-- Zero has all its digits cut off, and shows the places that its exponent asks for. -/
theorem toDecimal_of_value_eq_zero (h : p.WellFormed) (hvalue : p.value = 0) :
    p.literal.toDecimal = Decimal.zero (-p.exponent).toNat := by
  have hcanonical := Literal.toDecimal_canonical (spells_trimmed h).digits_lt
  have hscale := Literal.scale_toDecimal p.literal
  have hmagnitude : p.literal.toDecimal.magnitude = 0 := by
    rw [← Decimal.abs_value, value_literal, hvalue, abs_zero]
  have hkept : Decimal.trimEnd p.fraction = [] := by
    by_contra hne
    refine not_dvd_of_kept h hne ?_
    rw [(value_eq_zero_iff p).1 hvalue]
    exact dvd_zero 10
  have hplaces : p.literal.toDecimal.scale = (-p.exponent).toNat := by
    rw [literal, hkept] at hscale ⊢
    dsimp only [List.length_nil] at hscale
    omega
  rw [← hplaces]
  exact hcanonical.eq_zero hmagnitude

end ScientificText

/-! ### What is printed of a floating-point number -/

namespace Scientific

variable {s : Scientific}

/-- The digits of a whole number; a lone zero for zero. -/
def decimalDigits (n : Nat) : List Nat := if n = 0 then [0] else (Nat.digits 10 n).reverse

/-- A number in scientific notation as it is printed, after its sign. -/
def printed (negative : Bool) (s : Scientific) : ScientificText :=
  ⟨negative, s.leadDigit, s.fractionDigits, decide (s.exponent < 0),
    decimalDigits s.exponent.natAbs⟩

theorem decimalDigits_lt (n : ℕ) : ∀ d ∈ decimalDigits n, d < 10 := by
  intro d hd
  unfold decimalDigits at hd
  split at hd
  · rw [List.mem_singleton.1 hd]
    decide
  · exact Nat.digits_lt_base (by decide) (List.mem_reverse.1 hd)

theorem decimalDigits_ne_nil (n : ℕ) : decimalDigits n ≠ [] := by
  unfold decimalDigits
  split
  · exact List.cons_ne_nil _ _
  next hn => exact mt List.reverse_eq_nil_iff.1 (Nat.digits_ne_nil_iff_ne_zero.2 hn)

theorem magnitude_decimalDigits (n : ℕ) : Literal.magnitude (decimalDigits n) = n := by
  unfold decimalDigits
  split
  next hn => rw [hn]; rfl
  next => rw [Literal.magnitude_eq_ofDigits, List.reverse_reverse, Nat.ofDigits_digits]

theorem exponent_printed (negative : Bool) (s : Scientific) :
    (s.printed negative).exponent = s.exponent := by
  simp only [ScientificText.exponent, printed, magnitude_decimalDigits, decide_eq_true_eq]
  split <;> omega

/-- Trimming what is printed leaves the literal that is computed. -/
theorem literal_printed (negative : Bool) (s : Scientific) :
    (s.printed negative).literal = s.toLiteral negative := by
  rw [ScientificText.literal, exponent_printed]
  rfl

end Scientific

namespace Binary64

/-- What is printed of a finite floating-point number. -/
def printed? (x : Binary64) : Option ScientificText :=
  match x.decode with
  | .finite negative m q =>
    some ((Scientific.ofDyadic (Numeric.floatDigits - 1) m q).printed negative)
  | _ => none

/-- **A finite number is printed with one digit before the point and fourteen after it**, and with
an exponent of at most three digits. -/
theorem wellFormed_printed {x : Binary64} {negative : Bool} {m : ℕ} {q : ℤ}
    (h : x.decode = .finite negative m q) :
    ((Scientific.ofDyadic (Numeric.floatDigits - 1) m q).printed negative).WellFormed := by
  obtain ⟨hm, hlow, hhigh⟩ := decode_finite h
  have hplaces := Scientific.ofDyadic_places (Numeric.floatDigits - 1) m q
  have hcoefficient := Scientific.ofDyadic_coefficient_lt (Numeric.floatDigits - 1) hm hlow hhigh
  have hexponent := Scientific.ofDyadic_exponent_bounds (Numeric.floatDigits - 1) hm hlow hhigh
  refine ⟨Scientific.leadDigit_lt (by rwa [hplaces]), ?_, Scientific.lastDigits_lt _ _,
    Scientific.decimalDigits_ne_nil _, Scientific.decimalDigits_lt _, ?_⟩
  · exact (Scientific.length_lastDigits _ _).trans hplaces
  · refine (Scientific.magnitude_decimalDigits _).trans_le ?_
    omega

theorem value_printed_ne_zero {x : Binary64} {negative : Bool} {m : ℕ} {q : ℤ}
    (h : x.decode = .finite negative m q) (hpos : 0 < m) :
    ((Scientific.ofDyadic (Numeric.floatDigits - 1) m q).printed negative).value ≠ 0 := by
  obtain ⟨hm, hlow, hhigh⟩ := decode_finite h
  have hplaces := Scientific.ofDyadic_places (Numeric.floatDigits - 1) m q
  have hcoefficient :=
    Scientific.le_ofDyadic_coefficient (Numeric.floatDigits - 1) hpos hm hlow hhigh
  refine ScientificText.value_ne_zero_of_lead ?_
  refine Nat.div_pos ?_ (by positivity)
  rwa [hplaces]

theorem printed_zero (negative : Bool) (q : ℤ) :
    ((Scientific.ofDyadic (Numeric.floatDigits - 1) 0 q).printed negative).value = 0 ∧
      ((Scientific.ofDyadic (Numeric.floatDigits - 1) 0 q).printed negative).exponent = 0 := by
  have hzero : Scientific.ofDyadic (Numeric.floatDigits - 1) 0 q = ⟨14, 0, 0⟩ := rfl
  rw [ScientificText.value_eq_zero_iff, Scientific.exponent_printed, hzero]
  exact ⟨rfl, rfl⟩

end Binary64

namespace Numeric

/-- **Importing a floating-point number is reading its trimmed text.** -/
theorem ofBinary64_eq {x : Binary64} {p : ScientificText} (h : x.printed? = some p) :
    ofBinary64 x = ofScientificText p.chars := by
  unfold Binary64.printed? at h
  split at h
  next negative m q hx =>
    cases h
    rw [ScientificText.ofScientificText_chars (Binary64.wellFormed_printed hx),
      Scientific.literal_printed, ofBinary64, hx]
  next => cases h

/-- **Floating-point numbers are imported exactly as they are printed.**  A finite number is printed
with one digit before the point, fourteen after it and an exponent of magnitude at most 400.  Its
numeric is what is read off that text: it is the number printed, it shows the least number of places
that makes this number whole, and of a zero of either sign it is the positive zero.

The same is true of every text of this shape, wherever its digits come from, except that the places
a zero shows are those its exponent asks for. -/
theorem float_import_exact :
    (∀ {x : Binary64} {negative : Bool} {m : ℕ} {q : ℤ}, x.decode = .finite negative m q →
      ∃ p d, x.printed? = some p ∧ p.negative = negative ∧ p.WellFormed ∧
        ofBinary64 x = ofScientificText p.chars ∧ ofBinary64 x = .ok (finite d) ∧
        d.value = p.value ∧ IsLeast {k : ℕ | ∃ z : ℤ, p.value * 10 ^ k = z} d.scale ∧
        (m = 0 → d = Decimal.zero 0)) ∧
    ∀ {p : ScientificText}, p.WellFormed →
      ∃ d, ofScientificText p.chars = .ok (finite d) ∧ d.value = p.value ∧
        (p.value ≠ 0 → IsLeast {k : ℕ | ∃ z : ℤ, p.value * 10 ^ k = z} d.scale) ∧
        (p.value = 0 → d = Decimal.zero (-p.exponent).toNat) := by
  constructor
  · intro x negative m q hx
    have hwell := Binary64.wellFormed_printed hx
    have hread := ScientificText.ofScientificText_chars hwell
    have hprinted : x.printed? =
        some ((Scientific.ofDyadic (floatDigits - 1) m q).printed negative) := by
      rw [Binary64.printed?, hx]
    have heq := ofBinary64_eq hprinted
    refine ⟨_, _, hprinted, rfl, hwell, heq, heq.trans hread, ScientificText.value_literal _, ?_⟩
    rcases Nat.eq_zero_or_pos m with rfl | hpos
    · obtain ⟨hvalue, hexponent⟩ := Binary64.printed_zero negative q
      have hdecimal := ScientificText.toDecimal_of_value_eq_zero hwell hvalue
      rw [hexponent] at hdecimal
      rw [hvalue, hdecimal]
      exact ⟨⟨⟨0, by simp⟩, fun _ _ => Nat.zero_le _⟩, fun _ => rfl⟩
    · exact ⟨ScientificText.isLeast_scale hwell (Binary64.value_printed_ne_zero hx hpos),
        fun hzero => absurd hzero hpos.ne'⟩
  · intro p hwell
    exact ⟨_, ScientificText.ofScientificText_chars hwell, ScientificText.value_literal p,
      ScientificText.isLeast_scale hwell, ScientificText.toDecimal_of_value_eq_zero hwell⟩

/-- The negative zero; a number printed with zeros to trim; and a text that is far smaller than any
floating-point number. -/
theorem float_import_exact_examples :
    ofBinary64 ⟨0x8000000000000000⟩ = .ok (finite (Decimal.zero 0)) ∧
    (∃ p d, (⟨0xC05EDCCCCCCCCCCD⟩ : Binary64).printed? = some p ∧
      p.chars = "-1.23450000000000e2".toList ∧
      ScientificText.trim p.chars = "-1.2345e2".toList ∧
      ofBinary64 ⟨0xC05EDCCCCCCCCCCD⟩ = .ok (finite d) ∧ d.value = -12345 / 100 ∧
      IsLeast {k : ℕ | ∃ z : ℤ, (-12345 / 100 : ℚ) * 10 ^ k = z} d.scale) ∧
    ∃ d, ofScientificText "1.50000000000000e-400".toList = .ok (finite d) ∧
      d.value = 3 / 2 * 10 ^ (-400 : ℤ) := by
  refine ⟨?_, ?_, ?_⟩
  · obtain ⟨p, d, -, -, -, -, hd, -, -, hzero⟩ := float_import_exact.1
      (show (⟨0x8000000000000000⟩ : Binary64).decode = .finite true 0 (-1074) by decide +kernel)
    rw [hd, hzero rfl]
  · have hprinted : (⟨0xC05EDCCCCCCCCCCD⟩ : Binary64).printed? =
        some ⟨true, 1, [2, 3, 4, 5, 0, 0, 0, 0, 0, 0, 0, 0, 0, 0], false, [2]⟩ := by decide +kernel
    obtain ⟨p, d, hp, -, -, -, hd, hvalue, hleast, -⟩ := float_import_exact.1
      (show (⟨0xC05EDCCCCCCCCCCD⟩ : Binary64).decode = .finite true 0x1EDCCCCCCCCCCD (-46) by
        decide +kernel)
    cases hp.symm.trans hprinted
    have hnumber : ScientificText.value
        ⟨true, 1, [2, 3, 4, 5, 0, 0, 0, 0, 0, 0, 0, 0, 0, 0], false, [2]⟩ = -12345 / 100 := by
      norm_num [ScientificText.value, ScientificText.exponent, Literal.magnitude, Nat.ofDigits]
    rw [hnumber] at hvalue hleast
    exact ⟨_, d, hprinted, by decide, by decide, hd, hvalue, hleast⟩
  · obtain ⟨d, hd, hvalue, -, -⟩ := float_import_exact.2
      (show ScientificText.WellFormed
        ⟨false, 1, [5, 0, 0, 0, 0, 0, 0, 0, 0, 0, 0, 0, 0, 0], true, [4, 0, 0]⟩ from
        ⟨by decide, by decide, by decide, by decide, by decide, by decide⟩)
    refine ⟨d, hd, hvalue.trans ?_⟩
    norm_num [ScientificText.value, ScientificText.exponent, Literal.magnitude, Nat.ofDigits]

end Numeric

end SqlWire
