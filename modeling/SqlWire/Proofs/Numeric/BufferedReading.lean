import SqlWire.Numeric.Buffer
import SqlWire.Proofs.Numeric.Grammar
import SqlWire.Proofs.Numeric.Positional

/-!
# What a machine reads

`Literal.read?` takes a literal into a buffer in the words of a machine.  `read?_eq` says that it
reads what `Literal.scan?` reads, of every text that its words have room to count (`Reaches`).

A run of digits is taken in by induction (`readDigits?_append`), with the room that is left in the
counters (`Intake.HasRoom`) as the invariant.

Whatever text there is, the machine puts nothing but digits into the buffer, and does not show less
than no places (`read?_sound`).  One whose words run over may (`readWith?_wrapped`).
-/

namespace SqlWire

namespace Literal

open FixedWidth

/-! ### The exponent -/

theorem magnitude_concat (digits : List Nat) (d : Nat) :
    magnitude (digits ++ [d]) = magnitude digits * 10 + d := by
  rw [magnitude, List.foldl_append]
  rfl

/-- A sum that stays at the largest word is the sum without an end, or the largest word if that is
less. -/
theorem saturatedMagnitude_eq (digits : List Nat) :
    saturatedMagnitude digits = min (magnitude digits : Int) 9223372036854775807 := by
  induction digits using List.reverseRecOn with
  | nil => rfl
  | append_singleton digits d ih =>
    rw [saturatedMagnitude, List.foldl_append, ← saturatedMagnitude, ih, magnitude_concat]
    simp only [List.foldl_cons, List.foldl_nil, saturate64]
    omega

/-- A machine can do with 64 bits, since an exponent that they do not hold is refused. -/
theorem exists_readExponent?_eq (s : List Char) : ∃ r, readExponent? s = some r ∧
    exponent? s = r.map fun (exponent, rest) => (exponent.getD 0, rest) := by
  cases s with
  | nil => exact ⟨_, rfl, rfl⟩
  | cons c s =>
    simp only [readExponent?, exponent?]
    by_cases hmark : c = 'e' ∨ c = 'E'
    · rw [if_pos hmark, if_pos hmark]
      generalize (splitDigits (splitSign s).2).1 = digits
      generalize (splitSign s).1 = negative
      have hsum := saturatedMagnitude_eq digits
      have hmax : maxExponent = 1000 := rfl
      by_cases hnone : digits = []
      · rw [if_pos hnone, if_pos (.inl hnone)]
        exact ⟨none, rfl, rfl⟩
      have habs : (if negative then -saturatedMagnitude digits
          else saturatedMagnitude digits).natAbs = saturatedMagnitude digits := by
        split <;> omega
      rw [if_neg hnone, int64?_bind (by split <;> omega), habs, int64?_bind (by omega)]
      by_cases hlarge : maxExponent < magnitude digits
      · -- wherever the sum has stopped, it is beyond the largest magnitude too
        rw [if_pos (by omega), if_pos (.inr hlarge)]
        exact ⟨none, rfl, rfl⟩
      · have hexact : saturatedMagnitude digits = magnitude digits := by omega
        have hkept : ¬ (digits = [] ∨ maxExponent < magnitude digits) :=
          not_or.2 ⟨hnone, hlarge⟩
        rw [if_neg (by omega), if_neg hkept, hexact, int32?_bind (by split <;> omega)]
        exact ⟨_, rfl, rfl⟩
    · rw [if_neg hmark, if_neg hmark]
      exact ⟨_, rfl, rfl⟩

theorem abs_exponent_le {s rest : List Char} {e : Int} (h : exponent? s = some (e, rest)) :
    |e| ≤ 1000 := by
  obtain ⟨power, hpower, -⟩ := exponent?_sound h
  have hmax : maxExponent = 1000 := rfl
  cases hpower with
  | absent => simp
  | present _ _ _ _ hle =>
    rw [abs_le]
    split <;> omega

/-! ### Runs of digits -/

theorem splitDigits_cons_of_isDigit {c : Char} (h : c.isDigit = true) (s : List Char) :
    splitDigits (c :: s) =
      ((c.toNat - '0'.toNat) :: (splitDigits s).1, (splitDigits s).2) := by
  rw [splitDigits, List.takeWhile_cons_of_pos h, List.dropWhile_cons_of_pos h]
  rfl

theorem splitDigits_of_noDigit {s : List Char} (h : NoDigit s) : splitDigits s = ([], s) :=
  @splitDigits_spell_append [] s (by simp) h

theorem splitDigits_ne_nil {s : List Char} (h : ¬ NoDigit s) : (splitDigits s).1 ≠ [] := by
  cases s with
  | nil => exact absurd (by simp [NoDigit]) h
  | cons c s =>
    rw [splitDigits_cons_of_isDigit (by simpa [NoDigit] using h)]
    exact List.cons_ne_nil _ _

theorem any_isDigit_head? (s : List Char) :
    s.head?.any Char.isDigit = true ↔ ¬ NoDigit s := by
  cases s <;> simp [NoDigit]

theorem noDigit_splitDigits (s : List Char) : NoDigit (splitDigits s).2 := by
  intro c hc
  have hnot := List.head?_dropWhile_not Char.isDigit s
  rw [show (s.dropWhile Char.isDigit).head? = some c from hc] at hnot
  exact hnot

theorem length_splitDigits (s : List Char) :
    (splitDigits s).1.length + (splitDigits s).2.length = s.length := by
  have hsplit := congrArg List.length
    (List.takeWhile_append_dropWhile (p := Char.isDigit) (l := s))
  rwa [List.length_append, ← List.length_map (f := fun c : Char => c.toNat - '0'.toNat)] at hsplit

namespace Intake

/-- With more digits, which stand behind the point or in front of it. -/
def append (m : Intake) (point : Bool) (digits : List Nat) : Intake :=
  if point then ⟨m.buffer ++ digits, m.power, m.places + digits.length⟩
  else ⟨m.buffer ++ digits, m.power + digits.length, m.places⟩

/-- With `n` more digits, both counters are still words. -/
structure HasRoom (m : Intake) (n : Nat) : Prop where
  power_ge : -1 ≤ m.power
  power_le : m.power + n ≤ 2147483647
  places_ge : 0 ≤ m.places
  places_le : m.places + n ≤ 2147483647

variable {m : Intake} {point : Bool}

@[simp] theorem append_nil (m : Intake) (point : Bool) : m.append point [] = m := by
  cases point <;> simp [append]

theorem append_append (m : Intake) (point : Bool) (xs ys : List Nat) :
    (m.append point xs).append point ys = m.append point (xs ++ ys) := by
  cases point <;> simp [append, add_assoc]

theorem hasRoom_start {n : Nat} (h : n ≤ 2147483647) : start.HasRoom n where
  power_ge := by simp [start]
  power_le := by simp only [start]; omega
  places_ge := by simp [start]
  places_le := by simp only [start]; omega

theorem HasRoom.append {digits : List Nat} {n : Nat} (h : m.HasRoom (digits.length + n)) :
    (m.append point digits).HasRoom n := by
  obtain ⟨hpower, hpower', hplaces, hplaces'⟩ := h
  unfold Intake.append
  split
  · constructor <;> dsimp only <;> omega
  · constructor <;> dsimp only <;> omega

theorem push?_eq {n : Nat} (h : m.HasRoom (n + 1)) (d : Nat) :
    m.push? int32? point d = some (m.append point [d]) := by
  obtain ⟨hpower, hpower', hplaces, hplaces'⟩ := h
  cases point with
  | true =>
    simp only [push?, if_true]
    rw [int32?_eq (by omega)]
    rfl
  | false =>
    simp only [push?, Bool.false_eq_true, if_false]
    rw [int32?_eq (by omega)]
    rfl

theorem readDigits?_append {s : List Char} (h : m.HasRoom s.length) :
    m.readDigits? int32? point s =
      (m.append point (splitDigits s).1).readDigits? int32? point (splitDigits s).2 := by
  induction s generalizing m with
  | nil => rw [show splitDigits [] = ([], []) from rfl, append_nil]
  | cons c s ih =>
    by_cases hdigit : c.isDigit = true
    · have hrest : (m.append point [c.toNat - '0'.toNat]).HasRoom s.length :=
        HasRoom.append (by rwa [List.length_singleton, Nat.add_comm])
      rw [readDigits?, if_pos hdigit, push?_eq h, Option.bind_eq_bind, Option.bind_some, ih hrest,
        append_append, splitDigits_cons_of_isDigit hdigit]
      rfl
    · rw [splitDigits_of_noDigit (by simpa [NoDigit] using hdigit), append_nil]

/-- Behind the point the digits go on until another point, which is refused, or something else. -/
theorem readDigits?_behind {s : List Char} (h : m.HasRoom s.length) :
    m.readDigits? int32? true s = some (if (splitDigits s).2.head? = some '.' then none
      else some (m.append true (splitDigits s).1, (splitDigits s).2)) := by
  rw [readDigits?_append h]
  have hstop := noDigit_splitDigits s
  cases hrest : (splitDigits s).2 with
  | nil => rfl
  | cons c rest =>
    have hdigit : ¬ c.isDigit = true := by simp [hstop c (by rw [hrest]; rfl)]
    rw [readDigits?, if_neg hdigit, List.head?_cons]
    by_cases hpoint : c = '.'
    · simp [hpoint]
    · simp [hpoint]

theorem readDigits?_front {s : List Char} (h : m.HasRoom s.length) :
    m.readDigits? int32? false s = some ((fraction? (splitDigits s).2).map fun (fraction, rest) =>
      ((m.append false (splitDigits s).1).append true fraction, rest)) := by
  rw [readDigits?_append h]
  have hstop := noDigit_splitDigits s
  have hlength := length_splitDigits s
  cases hrest : (splitDigits s).2 with
  | nil => simp [readDigits?, fraction?]
  | cons c rest =>
    have hdigit : ¬ c.isDigit = true := by simp [hstop c (by rw [hrest]; rfl)]
    rw [readDigits?, if_neg hdigit]
    by_cases hpoint : c = '.'
    · have hroom : (m.append false (splitDigits s).1).HasRoom rest.length := by
        rw [hrest, List.length_cons] at hlength
        refine HasRoom.append ?_
        obtain ⟨hpower, hpower', hplaces, hplaces'⟩ := h
        constructor <;> omega
      subst hpoint
      rw [if_pos rfl, if_neg (by decide), readDigits?_behind hroom]
      simp only [fraction?]
      split <;> rfl
    · rw [if_neg hpoint, fraction?_of_ne (by simpa using hpoint)]
      simp

/-- What has been read when all digits of a mantissa have. -/
def ofMantissa (whole fraction : List Nat) : Intake :=
  ⟨List.replicate 4 0 ++ (whole ++ fraction), (whole.length : Int) - 1, fraction.length⟩

theorem shift?_eq {exponent : Option Int} (hplaces : 0 ≤ m.places)
    (hpower : -2147483648 ≤ m.power + exponent.getD 0 ∧
      m.power + exponent.getD 0 ≤ 2147483647)
    (hscale : -2147483648 ≤ m.places - exponent.getD 0 ∧
      m.places - exponent.getD 0 ≤ 2147483647) :
    m.shift? int32? exponent =
      some (m.power + exponent.getD 0, max (m.places - exponent.getD 0) 0) := by
  cases exponent with
  | none =>
    simp only [shift?, Option.getD_none]
    rw [add_zero, sub_zero, max_eq_left hplaces]
  | some exponent =>
    simp only [Option.getD_some] at hpower hscale ⊢
    rw [shift?, int32?_bind hpower, int32?_bind hscale]
    rfl

theorem append_start (whole fraction : List Nat) :
    (start.append false whole).append true fraction = ofMantissa whole fraction := by
  simp only [append, start, ofMantissa, if_true, Bool.false_eq_true, if_false, mk.injEq,
    List.append_assoc, true_and]
  omega

end Intake

/-! ### The mantissa -/

/-- The digits in front of the point and behind it that a text begins with, and the rest. -/
def mantissa? (s : List Char) : Option ((List Nat × List Nat) × List Char) :=
  (fraction? (splitDigits s).2).bind fun (fraction, rest) =>
    if (splitDigits s).1 = [] ∧ fraction = [] then none
    else some (((splitDigits s).1, fraction), rest)

theorem scan?_eq (s : List Char) :
    scan? s = (mantissa? (splitSign s).2).bind fun ((whole, fraction), s') =>
      (exponent? s').map fun (exponent, rest) =>
        (⟨(splitSign s).1, whole, fraction, exponent⟩, rest) := by
  simp only [scan?, mantissa?, Option.bind_eq_bind]
  cases hfraction : fraction? (splitDigits (splitSign s).2).2 with
  | none => rfl
  | some t =>
    obtain ⟨fraction, rest⟩ := t
    simp only [Option.bind_some]
    split
    · rfl
    · rw [Option.bind_some]
      cases exponent? rest <;> rfl

theorem readMantissa?_point {s : List Char} (h : s.length ≤ 2147483647) :
    readMantissa? int32? ('.' :: s) =
      some ((mantissa? ('.' :: s)).map fun ((whole, fraction), rest) =>
        (Intake.ofMantissa whole fraction, rest)) := by
  have hfront : splitDigits ('.' :: s) = ([], '.' :: s) :=
    splitDigits_of_noDigit (by simp [NoDigit])
  simp only [readMantissa?, splitPoint, mantissa?, hfront, fraction?, true_and,
    ← Intake.append_start]
  by_cases hdigit : NoDigit s
  · rw [if_neg (by rwa [any_isDigit_head?, not_not]), splitDigits_of_noDigit hdigit]
    split <;> simp
  · have hsome := splitDigits_ne_nil hdigit
    rw [if_pos ((any_isDigit_head? s).2 hdigit),
      Intake.readDigits?_behind (Intake.hasRoom_start h)]
    split
    · rfl
    · simp [hsome]

theorem readMantissa?_of_ne {s : List Char} (h : s.length ≤ 2147483647)
    (hpoint : ∀ c, s.head? = some c → c ≠ '.') :
    readMantissa? int32? s = some ((mantissa? s).map fun ((whole, fraction), rest) =>
      (Intake.ofMantissa whole fraction, rest)) := by
  have hsplit : splitPoint s = (false, s) := by
    unfold splitPoint
    split
    · exact absurd rfl (hpoint _ rfl)
    · rfl
  simp only [readMantissa?, hsplit, mantissa?, ← Intake.append_start]
  by_cases hdigit : NoDigit s
  · rw [if_neg (by rwa [any_isDigit_head?, not_not]), splitDigits_of_noDigit hdigit,
      fraction?_of_ne hpoint]
    rfl
  · have hsome := splitDigits_ne_nil hdigit
    rw [if_pos ((any_isDigit_head? s).2 hdigit),
      Intake.readDigits?_front (Intake.hasRoom_start h)]
    cases fraction? (splitDigits s).2 with
    | none => rfl
    | some t => simp [hsome]

/-- **The machine reads the mantissa**, and puts its digits into the buffer one behind the other. -/
theorem readMantissa?_eq {s : List Char} (h : s.length ≤ 2147483647) :
    readMantissa? int32? s = some ((mantissa? s).map fun ((whole, fraction), rest) =>
      (Intake.ofMantissa whole fraction, rest)) := by
  by_cases hpoint : s.head? = some '.'
  · obtain ⟨rest, rfl⟩ := List.head?_eq_some_iff.1 hpoint
    exact readMantissa?_point (by rw [List.length_cons] at h; omega)
  · refine readMantissa?_of_ne h fun c hc => ?_
    rintro rfl
    exact hpoint hc

theorem length_mantissa? {s rest : List Char} {whole fraction : List Nat}
    (h : mantissa? s = some ((whole, fraction), rest)) :
    0 < whole.length + fraction.length ∧ whole.length + fraction.length ≤ s.length := by
  obtain ⟨⟨fraction', rest'⟩, hfraction, h⟩ := Option.bind_eq_some_iff.1 h
  dsimp only at h
  split_ifs at h with hnone
  cases h
  have hlength := length_splitDigits s
  refine ⟨?_, ?_⟩
  · rw [← List.length_append]
    exact List.length_pos_of_ne_nil (by simpa using hnone)
  · rcases fraction?_sound hfraction with ⟨rfl, -⟩ | hrest
    · simp only [List.length_nil]
      omega
    · rw [hrest] at hlength
      simp only [List.length_cons, List.length_append, spell, List.length_map] at hlength
      omega

/-! ### The buffer -/

/-- A literal with its digits between four zeros and three. -/
def buffered (l : Literal) : Buffered :=
  ⟨l.negative, List.replicate 4 0 ++ l.digits ++ List.replicate 3 0, l.digits.length,
    l.leadingPower, l.scale⟩

theorem length_splitSign (s : List Char) : (splitSign s).2.length ≤ s.length := by
  obtain ⟨sign, -, hsign⟩ := splitSign_sound s
  have hlength := congrArg List.length hsign
  rw [List.length_append] at hlength
  omega

theorem digits_of_scan? {s rest : List Char} {l : Literal} (h : scan? s = some (l, rest)) :
    0 < l.digits.length ∧ l.digits.length ≤ s.length ∧ |l.exponent| ≤ 1000 := by
  rw [scan?_eq] at h
  obtain ⟨⟨⟨whole, fraction⟩, s'⟩, hmantissa, h⟩ := Option.bind_eq_some_iff.1 h
  obtain ⟨⟨exponent, s''⟩, hexponent, h⟩ := Option.map_eq_some_iff.1 h
  cases h
  obtain ⟨hpos, hlength⟩ := length_mantissa? hmantissa
  have hle := length_splitSign s
  simp only [digits, List.length_append]
  exact ⟨hpos, by omega, abs_exponent_le hexponent⟩

/-- Counting no further than `most`, one comes to the end of the text, and as far beyond it as the
exponent of its literal moves the point. -/
structure Reaches (most : Nat) (s : List Char) : Prop where
  length_le : s.length ≤ most
  shifted_le : ∀ l rest, scan? s = some (l, rest) → s.length + l.exponent.natAbs ≤ most

theorem Reaches.mono {most most' : Nat} {s : List Char} (h : Reaches most s)
    (hle : most ≤ most') : Reaches most' s where
  length_le := h.length_le.trans hle
  shifted_le l rest hscan := (h.shifted_le l rest hscan).trans hle

theorem reaches_of_length_le {s : List Char} (h : s.length ≤ 2 ^ 30) :
    Reaches 2147483640 s where
  length_le := by omega
  shifted_le l rest hscan := by
    obtain ⟨-, -, hexponent⟩ := digits_of_scan? hscan
    have habs := abs_le.1 hexponent
    omega

/-- **The machine reads literals** as long as its words have room, whatever text there is. -/
theorem read?_eq {s : List Char} (h : Reaches 2147483647 s) :
    read? s = some ((scan? s).map fun (l, rest) => (l.buffered, rest)) := by
  have hlong := h.length_le
  have hle := length_splitSign s
  have hshifted := h.shifted_le
  rw [scan?_eq] at hshifted ⊢
  rw [read?, readWith?]
  dsimp only
  rw [readMantissa?_eq (by omega), Option.bind_eq_bind, Option.bind_some]
  cases hmantissa : mantissa? (splitSign s).2 with
  | none => rfl
  | some t =>
    obtain ⟨⟨whole, fraction⟩, s'⟩ := t
    obtain ⟨-, hlength⟩ := length_mantissa? hmantissa
    have hbuffer : (Intake.ofMantissa whole fraction).buffer.length - (4 : Int) =
        (whole.length + fraction.length : Nat) := by
      rw [Intake.ofMantissa, List.length_append, List.length_append, List.length_replicate]
      omega
    obtain ⟨r, hread, hexponent⟩ := exists_readExponent?_eq s'
    rw [hmantissa] at hshifted
    simp only [Option.bind_some, hexponent] at hshifted
    simp only [Option.map_some, Option.bind_some, hexponent]
    rw [hbuffer, index?_bind (by rw [maxIndex]; omega), int32?_bind (by omega), hread,
      Option.bind_eq_bind, Option.bind_some]
    cases r with
    | none => rfl
    | some t =>
      obtain ⟨exponent, rest⟩ := t
      have hroom := hshifted _ _ rfl
      have hshift := @Intake.shift?_eq (Intake.ofMantissa whole fraction) exponent
        (by simp only [Intake.ofMantissa]; omega)
        (by simp only [Intake.ofMantissa]; dsimp only at hroom; omega)
        (by simp only [Intake.ofMantissa]; dsimp only at hroom; omega)
      dsimp only
      rw [hshift]
      simp [Intake.ofMantissa, buffered, leadingPower, scale, digits]

/-! ### Texts of any length -/

theorem digit_lt {c : Char} (h : c.isDigit = true) : c.toNat - '0'.toNat < 10 := by
  refine splitDigits_lt [c] _ ?_
  rw [splitDigits_cons_of_isDigit h]
  exact List.mem_cons_self

/-- There are only digits in the buffer, and no fewer places than none. -/
structure Intake.Sound (m : Intake) : Prop where
  digit_lt : ∀ d ∈ m.buffer, d < 10
  places_nonneg : 0 ≤ m.places

theorem Intake.sound_start : start.Sound where
  digit_lt := by decide
  places_nonneg := le_rfl

theorem Intake.Sound.push? {m m' : Intake} {point : Bool} {d : Nat} (h : m.Sound) (hd : d < 10)
    (hpush : m.push? int32? point d = some m') : m'.Sound := by
  have hdigits : ∀ x ∈ m.buffer ++ [d], x < 10 := by
    intro x hx
    rcases List.mem_append.1 hx with hx | hx
    · exact h.digit_lt x hx
    · rwa [List.mem_singleton.1 hx]
  cases point with
  | true =>
    obtain ⟨places, hplaces, hm⟩ := Option.bind_eq_some_iff.1 hpush
    cases hm
    obtain ⟨rfl, -⟩ := of_int32? hplaces
    exact ⟨hdigits, Int.le_add_one h.places_nonneg⟩
  | false =>
    obtain ⟨power, -, hm⟩ := Option.bind_eq_some_iff.1 hpush
    cases hm
    exact ⟨hdigits, h.places_nonneg⟩

theorem Intake.Sound.readDigits? {m m' : Intake} {point : Bool} {s rest : List Char}
    (h : m.Sound) (hread : m.readDigits? int32? point s = some (some (m', rest))) : m'.Sound := by
  induction s generalizing m point with
  | nil =>
    cases hread
    exact h
  | cons c s ih =>
    rw [Intake.readDigits?] at hread
    split_ifs at hread with hdigit hpoint hsecond
    · obtain ⟨m₁, hpush, hread⟩ := Option.bind_eq_some_iff.1 hread
      exact ih (h.push? (Literal.digit_lt hdigit) hpush) hread
    · cases hread
    · exact ih h hread
    · cases hread
      exact h

/-- **What the machine reads are digits and a number of places**, of a text of any length. -/
theorem read?_sound {s rest : List Char} {b : Buffered} (h : read? s = some (some (b, rest))) :
    (∀ d ∈ b.buffer, d < 10) ∧ 0 ≤ b.scale := by
  rw [read?, readWith?] at h
  obtain ⟨_ | ⟨m, s'⟩, hmantissa, h⟩ := Option.bind_eq_some_iff.1 h
  · cases h
  have hsound : m.Sound := by
    rw [readMantissa?] at hmantissa
    dsimp only at hmantissa
    split_ifs at hmantissa
    · exact Intake.sound_start.readDigits? hmantissa
    · cases hmantissa
  obtain ⟨count, -, h⟩ := Option.bind_eq_some_iff.1 h
  obtain ⟨count', -, h⟩ := Option.bind_eq_some_iff.1 h
  obtain ⟨_ | ⟨exponent, s''⟩, -, h⟩ := Option.bind_eq_some_iff.1 h
  · cases h
  obtain ⟨⟨power, scale⟩, hshift, h⟩ := Option.bind_eq_some_iff.1 h
  cases h
  constructor
  · intro d hd
    rcases List.mem_append.1 hd with hd | hd
    · exact hsound.digit_lt d hd
    · rw [List.eq_of_mem_replicate hd]
      decide
  · cases exponent with
    | none =>
      cases hshift
      exact hsound.places_nonneg
    | some exponent =>
      obtain ⟨power', -, hshift⟩ := Option.bind_eq_some_iff.1 hshift
      obtain ⟨scale', -, hshift⟩ := Option.bind_eq_some_iff.1 hshift
      cases hshift
      exact le_max_right _ _

/-! ### Words that run over -/

/-- Zeros behind the point, as many as one likes: their number is kept as far as its word goes. -/
theorem Intake.readDigits?_wrapped_zeros (buffer : List Nat) (power k : Int) (n : Nat) :
    Intake.readDigits? wrapped32? true ⟨buffer, power, k.bmod 4294967296⟩
        (List.replicate n '0') =
      some (some (⟨buffer ++ List.replicate n 0, power, (k + n).bmod 4294967296⟩, [])) := by
  induction n generalizing buffer k with
  | zero => simp [Intake.readDigits?]
  | succ n ih =>
    have hpush : Intake.push? wrapped32? ⟨buffer, power, k.bmod 4294967296⟩ true 0 =
        some ⟨buffer ++ [0], power, (k + 1).bmod 4294967296⟩ := by
      simp [Intake.push?, wrapped32?]
    have hsum : k + 1 + n = k + (n + 1 : Nat) := by
      push_cast
      ring
    rw [List.replicate_succ, Intake.readDigits?, if_pos (by decide),
      show '0'.toNat - '0'.toNat = 0 from rfl, hpush, Option.bind_eq_bind, Option.bind_some, ih,
      hsum, List.append_assoc]
    rfl

/-- Ten ones, a point and zeros: none of the counts is looked at. -/
theorem readWith?_wrapped {n : Nat} (h : n ≤ 2 ^ 33) :
    readWith? wrapped32? (List.replicate 10 '1' ++ '.' :: List.replicate n '0') =
      some (some (⟨false, List.replicate 4 0 ++ List.replicate 10 1 ++ List.replicate n 0 ++
        List.replicate 3 0, ((10 + n : Nat) : Int).bmod 4294967296, 9,
        (n : Int).bmod 4294967296⟩, [])) := by
  have hones : readMantissa? wrapped32? (List.replicate 10 '1' ++ '.' :: List.replicate n '0') =
      Intake.readDigits? wrapped32? true
        ⟨List.replicate 4 0 ++ List.replicate 10 1, 9, (0 : Int).bmod 4294967296⟩
        (List.replicate n '0') := rfl
  have hbuffer : ((List.replicate 4 0 ++ List.replicate 10 1 ++ List.replicate n 0).length - 4 :
      Int) = (10 + n : Nat) := by
    simp only [List.length_append, List.length_replicate]
    omega
  have hsign : splitSign (List.replicate 10 '1' ++ '.' :: List.replicate n '0') =
      (false, List.replicate 10 '1' ++ '.' :: List.replicate n '0') := rfl
  rw [readWith?, hsign]
  dsimp only
  rw [hones, Intake.readDigits?_wrapped_zeros, Option.bind_eq_bind, Option.bind_some]
  dsimp only
  rw [hbuffer, index?_bind (by rw [maxIndex]; omega), zero_add]
  simp only [wrapped32?, readExponent?, Intake.shift?, Option.bind_eq_bind, Option.bind_some,
    Option.pure_def]

end Literal

end SqlWire
