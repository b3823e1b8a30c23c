import SqlWire.Error

/-!
# Exact decimals

A numeric is `NaN` or a `Decimal`: a sign, a run of base-10000 digits called
*groups*, the weight of the first of them, and a display scale.  The group at
index `i` counts `10000 ^ (weight - i)`.  The display scale says how many
decimal places are shown; it is independent of how many are stored.

`Decimal.strip` brings a decimal to the form in which a number is written in
one way only, and `Decimal.Canonical` says what that form is: `strip_canonical`
says that stripping reaches it.
-/

namespace SqlWire

/-- A finite decimal. -/
structure Decimal where
  negative : Bool
  /-- The power of 10000 that the first group counts. -/
  weight : Int
  /-- How many decimal places are shown. -/
  scale : Nat
  /-- The base-10000 digits, most significant first. -/
  groups : List Nat
  deriving Repr, DecidableEq, Inhabited

/-- An exact decimal, or no number at all. -/
inductive Numeric where
  | nan
  | finite (d : Decimal)
  deriving Repr, DecidableEq, Inhabited

/-! ### Signs -/

/-- What the sign of a numeric can be. -/
inductive NumericSign where
  | positive | negative | nan
  deriving Repr, DecidableEq, Inhabited

namespace NumericSign

/-- The tag of a sign in binary forms. -/
def tag : NumericSign → Nat
  | positive => 0x0000
  | negative => 0x4000
  | nan => 0xC000

/-- The sign of a tag. -/
def ofTag? (tag : Nat) : Option NumericSign :=
  [positive, negative, nan].find? fun s => s.tag == tag

theorem ofTag?_tag (s : NumericSign) : ofTag? s.tag = some s := by cases s <;> decide

theorem ofTag?_eq_some_iff (tag : Nat) (s : NumericSign) :
    ofTag? tag = some s ↔ tag = s.tag := by
  constructor
  · intro h
    unfold ofTag? at h
    have htag := List.find?_some h
    exact (beq_iff_eq.1 htag).symm
  · intro h
    rw [h, ofTag?_tag]

end NumericSign

/-! ### Decimals -/

namespace Decimal

/-- Zero, shown to `scale` places. -/
def zero (scale : Nat) : Decimal := ⟨false, 0, scale, []⟩

def isZero (d : Decimal) : Bool := d.groups.all (· == 0)

/-- A run of groups without the zeros at its end. -/
def trimEnd (groups : List Nat) : List Nat := (groups.reverse.dropWhile (· == 0)).reverse

/-- The same number without zero groups at either end.  Zero itself is positive, of weight zero. -/
def strip (d : Decimal) : Decimal :=
  let kept := d.groups.dropWhile (· == 0)
  let dropped : Nat := d.groups.length - kept.length
  match trimEnd kept with
  | [] => zero d.scale
  | groups => ⟨d.negative, d.weight - dropped, d.scale, groups⟩

/-- A decimal is canonical when each group is below 10000, neither the first nor the last is zero,
and a decimal without groups is the positive zero of weight zero. -/
structure Canonical (d : Decimal) : Prop where
  group_lt : ∀ g ∈ d.groups, g < 10000
  head_ne_zero : d.groups.head? ≠ some 0
  last_ne_zero : d.groups.getLast? ≠ some 0
  of_groups_nil : d.groups = [] → d.negative = false ∧ d.weight = 0

/-! ### Stripping reaches the canonical form -/

theorem head?_dropWhile_ne (groups : List Nat) :
    (groups.dropWhile (· == 0)).head? ≠ some 0 := by
  induction groups with
  | nil => simp
  | cons g rest ih =>
    by_cases h : g = 0
    · simpa [h] using ih
    · simp [h]

theorem getLast?_trimEnd (groups : List Nat) : (trimEnd groups).getLast? ≠ some 0 := by
  rw [trimEnd, List.getLast?_reverse]
  exact head?_dropWhile_ne _

theorem mem_of_mem_trimEnd {g : Nat} {groups : List Nat} (h : g ∈ trimEnd groups) : g ∈ groups :=
  List.mem_reverse.1 ((List.dropWhile_sublist _).subset (List.mem_reverse.1 h))

theorem exists_trimEnd_append (groups : List Nat) :
    ∃ n, groups = trimEnd groups ++ List.replicate n 0 := by
  refine ⟨(groups.reverse.takeWhile (· == 0)).length, ?_⟩
  have hz : groups.reverse.takeWhile (· == 0) =
      List.replicate (groups.reverse.takeWhile (· == 0)).length 0 :=
    List.eq_replicate_of_mem fun g hg => by
      have := List.all_takeWhile (p := (· == 0)) (l := groups.reverse)
      simpa using List.all_eq_true.1 this g hg
  have h := congrArg List.reverse
    (List.takeWhile_append_dropWhile (p := (· == 0)) (l := groups.reverse))
  rw [List.reverse_append, List.reverse_reverse] at h
  rw [trimEnd]
  conv => lhs; rw [← h]
  congr 1
  rw [hz, List.reverse_replicate, List.length_replicate]

theorem head?_trimEnd {groups : List Nat} (h : groups.head? ≠ some 0) :
    (trimEnd groups).head? ≠ some 0 := by
  obtain ⟨n, hn⟩ := exists_trimEnd_append groups
  intro h0
  apply h
  rw [hn, List.head?_append, h0]
  rfl

theorem zero_canonical (scale : Nat) : (zero scale).Canonical :=
  ⟨by simp [zero], by simp [zero], by simp [zero], fun _ => ⟨rfl, rfl⟩⟩

theorem strip_canonical {d : Decimal} (h : ∀ g ∈ d.groups, g < 10000) : d.strip.Canonical := by
  have hz : ∀ g ∈ trimEnd (d.groups.dropWhile (· == 0)), g < 10000 := fun g hg =>
    h g ((List.dropWhile_sublist _).subset (mem_of_mem_trimEnd hg))
  have hh := head?_trimEnd (head?_dropWhile_ne d.groups)
  have hl := getLast?_trimEnd (d.groups.dropWhile (· == 0))
  unfold strip
  dsimp only
  split
  next => exact zero_canonical _
  next hne => exact ⟨hz, hh, hl, fun hnil => absurd hnil hne⟩

end Decimal

/-! ### Numerics -/

namespace Numeric

def zero : Numeric := finite (Decimal.zero 0)

/-- Every numeric but `NaN` has to be a canonical decimal. -/
def Canonical : Numeric → Prop
  | nan => True
  | finite d => d.Canonical

def sign : Numeric → NumericSign
  | nan => .nan
  | finite d => if d.negative then .negative else .positive

/-- The power of 10000 that the first group counts; zero for `NaN`. -/
def weight : Numeric → Int
  | nan => 0
  | finite d => d.weight

/-- How many decimal places are shown; none for `NaN`. -/
def scale : Numeric → Nat
  | nan => 0
  | finite d => d.scale

/-- The base-10000 digits; none for `NaN`. -/
def groups : Numeric → List Nat
  | nan => []
  | finite d => d.groups

def isNaN : Numeric → Bool
  | nan => true
  | finite _ => false

def isNegative : Numeric → Bool
  | nan => false
  | finite d => d.negative

def isZero : Numeric → Bool
  | nan => false
  | finite d => d.isZero

/-- Does to the decimal what `f` says, and nothing to `NaN`. -/
def map (f : Decimal → Decimal) : Numeric → Numeric
  | nan => nan
  | finite d => finite (f d)

/-- The same value without zero groups at either end. -/
def strip (n : Numeric) : Numeric := n.map Decimal.strip

/-- Builds a numeric from its parts.  The sign `NaN` takes no notice of the others; a negative
scale or a group of 10000 or more is refused. -/
def ofParts (sign : NumericSign) (weight scale : Int) (groups : List Nat) :
    Except Error Numeric :=
  if sign = .nan then .ok nan
  else if scale < 0 then .error (.outOfRange "numeric" "negative display scale")
  else match groups.find? fun g => decide (10000 ≤ g) with
    | some g => .error (.invalidBinary "numeric" s!"invalid digit {g}")
    | none => .ok (finite (Decimal.strip ⟨sign == .negative, weight, scale.toNat, groups⟩))

end Numeric

end SqlWire
