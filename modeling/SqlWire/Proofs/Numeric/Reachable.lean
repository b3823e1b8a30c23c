import SqlWire.Proofs.Binary64.SignificantDigits
import SqlWire.Proofs.Numeric.Regrouping
import SqlWire.Proofs.Numeric.StorageRoundTrip
import SqlWire.Proofs.Numeric.WireDecoding

/-!
# Reachable numerics are canonical

A numeric comes from parts, text, bytes, a floating-point number or storage, and
is then rounded, truncated, stripped or made to conform to a type modifier, in
any order.  `Numeric.Reachable` is what can be had in this way, and
`Numeric.ReachableInWords` what a machine has that reads texts in its words.

Every way in gives a canonical numeric, and `Adjustment.apply_canonical` is the
step: an adjustment keeps it canonical.  `ReachableFrom.canonical` is the invariant
of all of them.
-/

namespace SqlWire

namespace Numeric

/-! ### Runs -/

/-- What is done to a numeric in place.  To make it conform rounds it, also when it has too many
digits and the call fails. -/
inductive Adjustment where
  | round (r : Int)
  | truncate (r : Int)
  | conform (word : Int32)
  | strip
  deriving Repr, DecidableEq

def Adjustment.apply : Adjustment → Numeric → Numeric
  | round r, n => n.round r
  | truncate r, n => n.truncate r
  | conform word, n => (n.conform word).1
  | strip, n => n.strip

/-- The numeric after some adjustments, one after the other. -/
def adjust (n : Numeric) (as : List Adjustment) : Numeric := as.foldl (fun n a => a.apply n) n

/-- The numerics that the operations give, when those of `read` are read from texts. -/
inductive ReachableFrom (read : Numeric → Prop) : Numeric → Prop
  | nan : ReachableFrom read nan
  | zero : ReachableFrom read zero
  | ofParts {sign : NumericSign} {weight scale : Int} {groups : List Nat} {n : Numeric} :
      Numeric.ofParts sign weight scale groups = .ok n → ReachableFrom read n
  | ofText {n : Numeric} : read n → ReachableFrom read n
  | decode {bytes : Bytes} {n : Numeric} : Numeric.decode bytes = .ok n → ReachableFrom read n
  | decodeConforming {bytes : Bytes} {word : Int32} {n : Numeric} :
      Numeric.decodeConforming bytes word = .ok n → ReachableFrom read n
  | ofBinary64 {x : Binary64} {n : Numeric} :
      Numeric.ofBinary64 x = .ok n → ReachableFrom read n
  | unpack {n : Numeric} {p : PackedNumeric} :
      ReachableFrom read n → PackedNumeric.pack n = .ok p → ReachableFrom read p.unpack
  | adjust {n : Numeric} (a : Adjustment) :
      ReachableFrom read n → ReachableFrom read (a.apply n)

/-- The numerics that the operations give. -/
def Reachable : Numeric → Prop :=
  ReachableFrom fun n => ∃ text, parse text = .ok n ∨ ∃ count, parsePrefix text = .ok (n, count)

/-- The numerics that the operations give when texts are read in the words of a machine, which do
not run over. -/
def ReachableInWords : Numeric → Prop :=
  ReachableFrom fun n =>
    ∃ text, parse? text = some (.ok n) ∨ ∃ count, parsePrefix? text = some (.ok (n, count))

variable {read : Numeric → Prop}

theorem ReachableFrom.run {n : Numeric} (h : ReachableFrom read n) (as : List Adjustment) :
    ReachableFrom read (n.adjust as) := by
  induction as generalizing n with
  | nil => exact h
  | cons a as ih => exact ih (h.adjust a)

/-! ### Adjustments -/

theorem map_canonical {f : Decimal → Decimal}
    (hf : ∀ d : Decimal, (∀ g ∈ d.groups, g < 10000) → (f d).Canonical) {n : Numeric}
    (h : ∀ g ∈ n.groups, g < 10000) : (n.map f).Canonical := by
  cases n with
  | nan => trivial
  | finite d => exact hf d h

theorem strip_canonical {n : Numeric} (h : ∀ g ∈ n.groups, g < 10000) : n.strip.Canonical :=
  map_canonical (fun _ => Decimal.strip_canonical) h

theorem conform_canonical {n : Numeric} (h : n.Canonical) (word : Int32) :
    (n.conform word).1.Canonical := by
  cases n with
  | nan => trivial
  | finite d =>
    rw [conform.eq_def]
    split
    next d' m heq _ =>
      cases heq
      exact Decimal.round_canonical (Decimal.Canonical.group_lt h) m.scale
    next => exact h

theorem Adjustment.apply_canonical (a : Adjustment) {n : Numeric} (h : n.Canonical) :
    (a.apply n).Canonical := by
  cases a with
  | round r => exact map_canonical (fun _ hd => Decimal.round_canonical hd r) h.group_lt
  | truncate r => exact map_canonical (fun _ hd => Decimal.truncate_canonical hd r) h.group_lt
  | conform word => exact conform_canonical h word
  | strip => exact strip_canonical h.group_lt

/-! ### The ways in -/

theorem ofParts_canonical {sign : NumericSign} {weight scale : Int} {groups : List Nat}
    {n : Numeric} (h : ofParts sign weight scale groups = .ok n) : n.Canonical := by
  unfold ofParts at h
  split at h
  next => cases h; trivial
  split at h
  next => cases h
  split at h
  next => cases h
  next hnone =>
    cases h
    refine Decimal.strip_canonical fun g hg => ?_
    simpa using List.find?_eq_none.1 hnone g hg

theorem scan?_canonical {s rest : List Char} {n : Numeric} (h : scan? s = some (n, rest)) :
    n.Canonical := by
  unfold scan? at h
  split at h
  next => cases h; trivial
  next =>
    obtain ⟨⟨l, rest'⟩, hl, hn⟩ := Option.map_eq_some_iff.1 h
    cases hn
    exact Literal.toDecimal_canonical (Literal.scan?_digits_lt hl)

theorem parsePrefix_canonical {text : String} {n : Numeric} {count : Nat}
    (h : parsePrefix text = .ok (n, count)) : n.Canonical := by
  unfold parsePrefix at h
  split at h
  next n' rest hscan => cases h; exact scan?_canonical hscan
  next => cases h

theorem parse_canonical {text : String} {n : Numeric} (h : parse text = .ok n) :
    n.Canonical := by
  unfold parse at h
  split at h
  next n' hscan => cases h; exact scan?_canonical hscan
  next => cases h

theorem parsePrefix?_canonical {text : String} {n : Numeric} {count : Nat}
    (h : parsePrefix? text = some (.ok (n, count))) : n.Canonical := by
  unfold parsePrefix? at h
  split at h
  next => cases h; trivial
  next =>
    obtain ⟨_ | ⟨b, rest⟩, hread, h⟩ := Option.bind_eq_some_iff.1 h
    · cases h
    obtain ⟨d, hd, h⟩ := Option.bind_eq_some_iff.1 h
    cases h
    exact Literal.toDecimal?_canonical (Literal.read?_sound hread).1 hd

theorem parse?_canonical {text : String} {n : Numeric} (h : parse? text = some (.ok n)) :
    n.Canonical := by
  obtain ⟨e | ⟨n', count⟩, hprefix, h⟩ := Option.bind_eq_some_iff.1 h
  · cases h
  dsimp only at h
  split at h
  · cases h
    exact parsePrefix?_canonical hprefix
  · cases h

/-- What the bytes hold need not be canonical, but truncating it to its scale makes it so. -/
theorem toNumeric_canonical {t : Transmitted} (h : ∀ g ∈ t.groups, g < 10000) :
    t.toNumeric.Canonical := by
  unfold Transmitted.toNumeric
  split
  · trivial
  · exact Decimal.truncate_canonical h t.scale

theorem decodeConforming_canonical {bytes : Bytes} {word : Int32} {n : Numeric}
    (h : decodeConforming bytes word = .ok n) : n.Canonical := by
  obtain ⟨t, ht, h⟩ := Except.bind_eq_ok_iff.1 h
  obtain ⟨_, -, h⟩ := Except.bind_eq_ok_iff.1 h
  cases h
  exact conform_canonical (toNumeric_canonical (readParts_group_lt ht)) word

theorem ofBinary64_canonical {x : Binary64} {n : Numeric} (h : ofBinary64 x = .ok n) :
    n.Canonical := by
  unfold ofBinary64 at h
  split at h
  next => cases h; trivial
  next => cases h
  next hx =>
    cases h
    exact Literal.toDecimal_canonical (Binary64.toLiteral_digits_lt hx (floatDigits - 1))

/-! ### All of them -/

theorem ReachableFrom.canonical (hread : ∀ n, read n → n.Canonical) {n : Numeric}
    (h : ReachableFrom read n) : n.Canonical := by
  induction h with
  | nan => trivial
  | zero => exact Decimal.zero_canonical 0
  | ofParts h => exact ofParts_canonical h
  | ofText h => exact hread _ h
  | decode h => exact decodeConforming_canonical h
  | decodeConforming h => exact decodeConforming_canonical h
  | ofBinary64 h => exact ofBinary64_canonical h
  | unpack _ hp ih =>
    rw [unpack_pack (fun g hg => (ih.group_lt g hg).trans (by decide)) hp]
    exact strip_canonical ih.group_lt
  | adjust a _ ih => exact a.apply_canonical ih

theorem Reachable.canonical {n : Numeric} (h : Reachable n) : n.Canonical := by
  refine ReachableFrom.canonical ?_ h
  rintro n ⟨text, hparse | ⟨count, hparse⟩⟩
  · exact parse_canonical hparse
  · exact parsePrefix_canonical hparse

theorem ReachableInWords.canonical {n : Numeric} (h : ReachableInWords n) : n.Canonical := by
  refine ReachableFrom.canonical ?_ h
  rintro n ⟨text, hparse | ⟨count, hparse⟩⟩
  · exact parse?_canonical hparse
  · exact parsePrefix?_canonical hparse

/-- **Every reachable numeric is canonical, and stays so**, as long as the words of the machine that
reads texts do not run over.  Whatever is done to it, its groups are below 10000, neither the first
nor the last of them is zero, without groups it is the positive zero of weight zero, and `NaN` has
no groups, no weight and no scale.  Nor is the number of places that the machine reads off a text
ever negative. -/
theorem canonical_of_reachable :
    (∀ n : Numeric, ReachableInWords n → ∀ as : List Adjustment,
      (n.adjust as).Canonical ∧ ((n.adjust as).isNaN = true →
        (n.adjust as).groups = [] ∧ (n.adjust as).weight = 0 ∧ (n.adjust as).scale = 0)) ∧
    ∀ s b rest, Literal.read? s = some (some (b, rest)) → 0 ≤ b.scale := by
  refine ⟨fun n h as => ⟨ReachableInWords.canonical (h.run as), fun hnan => ?_⟩,
    fun s b rest hread => (Literal.read?_sound hread).2⟩
  cases hn : n.adjust as with
  | nan => exact ⟨rfl, rfl, rfl⟩
  | finite d =>
    rw [hn] at hnan
    cases hnan

/-- A carry out of the first group, then a type modifier that refuses what it has rounded. -/
theorem canonical_of_reachable_refused :
    parse? "-9.99995" = some (.ok (finite ⟨true, 0, 5, [9, 9999, 5000]⟩)) ∧
    (finite ⟨true, 0, 5, [9, 9999, 5000]⟩).adjust [.round 4, .conform 131077] =
      finite ⟨true, 0, 1, [10]⟩ ∧ (finite ⟨true, 0, 1, [10]⟩).Canonical ∧
    ∃ b, Literal.read? "-9.99995".toList = some (some (b, [])) ∧ 0 ≤ b.scale := by
  have hparse : parse? "-9.99995" = some (.ok (finite ⟨true, 0, 5, [9, 9999, 5000]⟩)) := by
    decide
  have hrun : (finite ⟨true, 0, 5, [9, 9999, 5000]⟩).adjust [.round 4, .conform 131077] =
      finite ⟨true, 0, 1, [10]⟩ := by decide
  obtain ⟨hcanonical, hscale⟩ := canonical_of_reachable
  obtain ⟨b, hread⟩ : ∃ b, Literal.read? "-9.99995".toList = some (some (b, [])) :=
    ⟨⟨true, [0, 0, 0, 0, 9, 9, 9, 9, 9, 5, 0, 0, 0], 6, 0, 5⟩, by decide⟩
  refine ⟨hparse, hrun, ?_, b, hread, hscale _ _ _ hread⟩
  rw [← hrun]
  exact (hcanonical _ (.ofText ⟨_, .inl hparse⟩) _).1

/-- Words that run over make ten ones, a point and 2^32 - 5 zeros the groups 11 and 1111, of weight
2 and with -5 places.  There is nothing to strip, and no word for a weight has run over. -/
theorem canonical_of_reachable_runs_over :
    ∃ b, Literal.readWith? FixedWidth.wrapped32? (String.ofList
        (List.replicate 10 '1' ++ '.' :: List.replicate 4294967291 '0')).toList =
        some (some (b, [])) ∧
      Literal.groupPower? FixedWidth.int32? b.power = some 2 ∧
      b.group? FixedWidth.wrapped32? = some ⟨false, 2, -5, [11, 1111]⟩ := by
  have hcount : ((10 + 4294967291 : Nat) : Int).bmod 4294967296 = 5 := by decide
  have hscale : ((4294967291 : Nat) : Int).bmod 4294967296 = -5 := by decide
  have hread := Literal.readWith?_wrapped (show 4294967291 ≤ 2 ^ 33 by norm_num)
  rw [hcount, hscale] at hread
  rw [String.toList_ofList]
  exact ⟨_, hread, rfl, Literal.group?_wrapped 4294967291 (-5) (by norm_num)⟩

end Numeric

end SqlWire
