import SqlWire.Numeric.Basic

/-!
# Numeric literals

A literal is a sign, decimal digits with at most one point among them, and an
optional exponent; or `NaN` in any letter case.  `Literal.scan?` reads the
longest literal a text begins with, and `Literal.toDecimal` gathers its digits
into groups of four.

The gathering starts from the power of ten that the first digit counts.  Zeros
put in front of the digits (`Literal.lead` of them, by `lead_le` never more than
three) make every group begin at a power of 10000.
-/

namespace SqlWire

/-- A decimal literal: `whole.fraction e exponent`, with a sign. -/
structure Literal where
  negative : Bool
  /-- The digits before the point. -/
  whole : List Nat
  /-- The digits after it. -/
  fraction : List Nat
  exponent : Int
  deriving Repr, DecidableEq, Inhabited

namespace Literal

/-- All digits, most significant first. -/
def digits (l : Literal) : List Nat := l.whole ++ l.fraction

/-! ### Reading -/

/-- The largest magnitude an exponent may have. -/
def maxExponent : Nat := 1000

/-- The digits a text begins with, and the rest of it. -/
def splitDigits (s : List Char) : List Nat × List Char :=
  ((s.takeWhile Char.isDigit).map fun c => c.toNat - '0'.toNat, s.dropWhile Char.isDigit)

/-- The sign a text begins with, and the rest of it; without one it is positive. -/
def splitSign : List Char → Bool × List Char
  | '+' :: s => (false, s)
  | '-' :: s => (true, s)
  | s => (false, s)

/-- The digits after the point a text begins with, and the rest.  A second point is refused. -/
def fraction? : List Char → Option (List Nat × List Char)
  | '.' :: s =>
    let (digits, s) := splitDigits s
    if s.head? = some '.' then none else some (digits, s)
  | s => some ([], s)

/-- The number decimal digits spell. -/
def magnitude (digits : List Nat) : Nat := digits.foldl (fun acc d => acc * 10 + d) 0

/-- The exponent a text begins with, and the rest; without one it is zero.  The letter has to be
followed by digits, and they may not exceed the largest magnitude. -/
def exponent? (s : List Char) : Option (Int × List Char) :=
  match s with
  | c :: s =>
    if c = 'e' ∨ c = 'E' then
      let (negative, s) := splitSign s
      let (digits, s) := splitDigits s
      let size := magnitude digits
      if digits = [] ∨ maxExponent < size then none
      else some (if negative then -(size : Int) else size, s)
    else some (0, c :: s)
  | [] => some (0, [])

/-- The literal a text begins with, and the rest of the text. -/
def scan? (s : List Char) : Option (Literal × List Char) := do
  let (negative, s) := splitSign s
  let (whole, s) := splitDigits s
  let (fraction, s) ← fraction? s
  if whole = [] ∧ fraction = [] then none
  else
    let (exponent, s) ← exponent? s
    return (⟨negative, whole, fraction, exponent⟩, s)

/-! ### What is read are decimal digits -/

theorem splitDigits_lt (s : List Char) : ∀ d ∈ (splitDigits s).1, d < 10 := by
  intro d hd
  obtain ⟨c, hc, rfl⟩ := List.mem_map.1 hd
  have hdigit : c.isDigit = true := by
    have := List.all_takeWhile (p := Char.isDigit) (l := s)
    exact List.all_eq_true.1 this c hc
  simp only [Char.isDigit, Bool.and_eq_true, decide_eq_true_eq, ge_iff_le,
    UInt32.le_iff_toNat_le] at hdigit
  have hvalue : c.toNat = c.val.toNat := rfl
  have hzero : '0'.toNat = 48 := rfl
  have hlow : '0'.val.toNat = 48 := rfl
  have hhigh : '9'.val.toNat = 57 := rfl
  omega

theorem fraction?_lt {s rest : List Char} {digits : List Nat}
    (h : fraction? s = some (digits, rest)) : ∀ d ∈ digits, d < 10 := by
  unfold fraction? at h
  split at h
  next s =>
    dsimp only at h
    split at h
    · cases h
    · cases h
      exact splitDigits_lt s
  next => cases h; simp

theorem scan?_digits_lt {s rest : List Char} {l : Literal} (h : scan? s = some (l, rest)) :
    ∀ d ∈ l.digits, d < 10 := by
  simp only [scan?, Option.bind_eq_bind] at h
  obtain ⟨⟨fraction, s'⟩, hfraction, h⟩ := Option.bind_eq_some_iff.1 h
  dsimp only at h
  split at h
  · cases h
  · obtain ⟨⟨exponent, s''⟩, -, h⟩ := Option.bind_eq_some_iff.1 h
    cases h
    intro d hd
    rcases List.mem_append.1 hd with hd | hd
    · exact splitDigits_lt _ d hd
    · exact fraction?_lt hfraction d hd

/-! ### Gathering digits into groups -/

/-- The power of ten that the first digit counts. -/
def leadingPower (l : Literal) : Int := (l.whole.length : Int) - 1 + l.exponent

/-- The power of 10000 that the first group counts. -/
def weight (l : Literal) : Int := l.leadingPower / 4

/-- How many zeros go in front of the digits. -/
def lead (l : Literal) : Nat := ((l.weight + 1) * 4 - (l.leadingPower + 1)).toNat

/-- Decimal digits taken four at a time; zeros fill up the last group. -/
def gather : List Nat → List Nat
  | a :: b :: c :: d :: rest => (((a * 10 + b) * 10 + c) * 10 + d) :: gather rest
  | [a, b, c] => [((a * 10 + b) * 10 + c) * 10]
  | [a, b] => [(a * 10 + b) * 100]
  | [a] => [a * 1000]
  | [] => []

/-- How many decimal places the literal shows. -/
def scale (l : Literal) : Nat := (l.fraction.length - l.exponent).toNat

/-- The decimal that the literal writes. -/
def toDecimal (l : Literal) : Decimal :=
  Decimal.strip ⟨l.negative, l.weight, l.scale, gather (List.replicate l.lead 0 ++ l.digits)⟩

theorem gather_lt {digits : List Nat} (h : ∀ d ∈ digits, d < 10) :
    ∀ g ∈ gather digits, g < 10000 := by
  fun_induction gather digits with
  | case1 a b c d rest ih =>
    intro g hg
    simp only [List.mem_cons, forall_eq_or_imp] at h
    obtain ⟨ha, hb, hc, hd, hrest⟩ := h
    rcases List.mem_cons.1 hg with rfl | hg
    · omega
    · exact ih hrest g hg
  | case2 a b c | case3 a b | case4 a =>
    simp only [List.mem_cons, List.not_mem_nil, or_false, forall_eq_or_imp, forall_eq] at h ⊢
    omega
  | case5 => simp

theorem length_gather (digits : List Nat) : (gather digits).length = (digits.length + 3) / 4 := by
  fun_induction gather digits with
  | case1 a b c d rest ih => simp only [List.length_cons, ih]; omega
  | case2 | case3 | case4 | case5 => simp

/-- The zeros put in front are as many as make the first group begin at a power of 10000. -/
theorem lead_eq (l : Literal) : (l.lead : Int) = (l.weight + 1) * 4 - (l.leadingPower + 1) := by
  simp only [lead, weight]
  omega

theorem lead_le (l : Literal) : l.lead ≤ 3 := by
  simp only [lead, weight]
  omega

theorem toDecimal_canonical {l : Literal} (h : ∀ d ∈ l.digits, d < 10) :
    l.toDecimal.Canonical := by
  refine Decimal.strip_canonical (gather_lt fun d hd => ?_)
  rcases List.mem_append.1 hd with hd | hd
  · rw [List.eq_of_mem_replicate hd]
    decide
  · exact h d hd

end Literal

/-! ### Numerics from text -/

namespace Numeric

/-- The numeric a text begins with, and the rest of the text. -/
def scan? (s : List Char) : Option (Numeric × List Char) :=
  if (s.take 3).map Char.toLower = ['n', 'a', 'n'] then some (nan, s.drop 3)
  else (Literal.scan? s).map fun (l, rest) => (finite l.toDecimal, rest)

/-- The numeric a text begins with, and how many characters it takes up.  They are ASCII, so this is
their number of bytes too. -/
def parsePrefix (text : String) : Except Error (Numeric × Nat) :=
  match scan? text.toList with
  | some (n, rest) => .ok (n, text.length - rest.length)
  | none => .error (.invalidSyntax "numeric" text)

/-- The numeric that a whole text writes. -/
def parse (text : String) : Except Error Numeric :=
  match scan? text.toList with
  | some (n, []) => .ok n
  | _ => .error (.invalidSyntax "numeric" text)

end Numeric

end SqlWire
