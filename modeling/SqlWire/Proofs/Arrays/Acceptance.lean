import Mathlib.Data.List.TakeWhile
import SqlWire.Proofs.Arrays.RoundTrip

/-!
# Which array headers are accepted

The check of the dimensions multiplies their sizes one by one and stops at the first product
that is too great.  Before a size of zero the product only grows, and after it there is nothing
left to refuse it for, so what decides is the product of the sizes before the first zero, those
of the `leading` dimensions (`check_eq_ok_iff`).  Headers that are made and headers that are
read are under this one rule (`accepted_by_leading_sizes`).

It is the rule by the number of elements wherever no size is zero.  An empty array can be
refused for the size of its other dimensions, in one order of them and not in another
(`empty_array_refused`).
-/

namespace SqlWire

namespace Dimension

variable {dims others : List Dimension} {d : Dimension}

/-! ### The rule -/

/-- The product of the sizes.  Without dimensions it is one. -/
def volume (dims : List Dimension) : Nat := (dims.map fun d => d.size.toInt.toNat).prod

/-- The dimensions before the first one of size zero. -/
def leading (dims : List Dimension) : List Dimension := dims.takeWhile fun d => decide (d.size ≠ 0)

/-- No dimension has a negative size or a last index beyond the largest word. -/
def InBounds (dims : List Dimension) : Prop :=
  ∀ d ∈ dims, 0 ≤ d.size.toInt ∧ d.lowerBound.toInt + d.size.toInt ≤ maxWord

instance (dims : List Dimension) : Decidable (InBounds dims) := by
  unfold InBounds
  infer_instance

/-- What is asked of dimensions. -/
structure Acceptable (dims : List Dimension) : Prop where
  length_le : dims.length ≤ maxNumber
  inBounds : InBounds dims
  count_le : elementCount (leading dims) ≤ maxWord

theorem inBounds_cons : InBounds (d :: dims) ↔
    (0 ≤ d.size.toInt ∧ d.lowerBound.toInt + d.size.toInt ≤ maxWord) ∧ InBounds dims :=
  List.forall_mem_cons

theorem elementCount_of_ne (h : dims ≠ []) : elementCount dims = volume dims := by
  unfold elementCount
  split
  · exact absurd rfl h
  · rfl

/-- The empty product is the only one that is not a number of elements, and it is no matter. -/
theorem elementCount_le_iff : elementCount dims ≤ maxWord ↔ volume dims ≤ maxWord := by
  cases dims with
  | nil => decide
  | cons d dims => rw [elementCount_of_ne (List.cons_ne_nil d dims)]

theorem volume_nil : volume [] = 1 := rfl

theorem volume_cons (d : Dimension) (dims : List Dimension) :
    volume (d :: dims) = d.size.toInt.toNat * volume dims := List.prod_cons

theorem leading_of_zero (h : d.size = 0) : leading (d :: dims) = [] :=
  List.takeWhile_cons_of_neg (by simp [h])

theorem leading_of_ne (h : d.size ≠ 0) : leading (d :: dims) = d :: leading dims :=
  List.takeWhile_cons_of_pos (by simp [h])

theorem leading_eq_self (h : ∀ d ∈ dims, d.size ≠ 0) : leading dims = dims :=
  List.takeWhile_eq_self_iff.2 fun d hd => decide_eq_true (h d hd)

theorem toNat_size_pos (hnonneg : 0 ≤ d.size.toInt) (h : d.size ≠ 0) : 0 < d.size.toInt.toNat := by
  have hne : d.size.toInt ≠ 0 := fun hzero => h (Int32.toInt_inj.1 hzero)
  omega

theorem volume_leading_pos (h : InBounds dims) : 0 < volume (leading dims) := by
  induction dims with
  | nil => exact Nat.one_pos
  | cons d dims ih =>
    obtain ⟨⟨hnonneg, -⟩, hdims⟩ := inBounds_cons.1 h
    by_cases hzero : d.size = 0
    · rw [leading_of_zero hzero]
      exact Nat.one_pos
    · rw [leading_of_ne hzero, volume_cons]
      exact Nat.mul_pos (toNat_size_pos hnonneg hzero) (ih hdims)

theorem volume_le_leading (h : InBounds dims) : volume dims ≤ volume (leading dims) := by
  induction dims with
  | nil => exact le_rfl
  | cons d dims ih =>
    obtain ⟨-, hdims⟩ := inBounds_cons.1 h
    by_cases hzero : d.size = 0
    · rw [leading_of_zero hzero, volume_cons, hzero]
      exact (Nat.zero_mul _).le.trans (Nat.zero_le _)
    · rw [leading_of_ne hzero, volume_cons, volume_cons]
      exact Nat.mul_le_mul_left _ (ih hdims)

/-! ### The check -/

theorem product_cons_eq_ok_iff {count n : Nat} : product count (d :: dims) = .ok n ↔
    (0 ≤ d.size.toInt ∧ d.lowerBound.toInt + d.size.toInt ≤ maxWord) ∧
      ((count * d.size.toInt.toNat : Nat) : Int) ≤ maxWord ∧
      product (count * d.size.toInt.toNat) dims = .ok n := by
  rw [product]
  by_cases hnegative : d.size.toInt < 0
  · rw [if_pos hnegative]
    exact ⟨nofun, fun ⟨⟨hnonneg, _⟩, _⟩ => absurd hnegative (not_lt.2 hnonneg)⟩
  have hnonneg := not_lt.1 hnegative
  rw [if_neg hnegative]
  by_cases hbound : maxWord < d.lowerBound.toInt + d.size.toInt
  · rw [if_pos hbound]
    exact ⟨nofun, fun ⟨⟨_, hle⟩, _⟩ => absurd hbound (not_lt.2 hle)⟩
  rw [if_neg hbound, Nat.cast_mul, Int.toNat_of_nonneg hnonneg]
  by_cases hgreat : maxWord < count * d.size.toInt
  · rw [if_pos hgreat]
    exact ⟨nofun, fun ⟨_, hle, _⟩ => absurd hgreat (not_lt.2 hle)⟩
  · rw [if_neg hgreat]
    exact ⟨fun h => ⟨⟨hnonneg, not_lt.1 hbound⟩, not_lt.1 hgreat, h⟩, fun ⟨_, _, h⟩ => h⟩

/-- **The running product stays in range just if the product before the first zero does.**  By
induction on the dimensions, for any product that is still in range. -/
theorem product_eq_ok_iff {count n : Nat} (hcount : count ≤ maxWord) :
    product count dims = .ok n ↔
      InBounds dims ∧ ((count * volume (leading dims) : Nat) : Int) ≤ maxWord ∧
        n = count * volume dims := by
  induction dims generalizing count with
  | nil =>
    rw [product, Except.ok.injEq, show leading [] = [] from rfl, volume_nil, Nat.mul_one]
    exact ⟨fun h => ⟨nofun, hcount, h.symm⟩, fun ⟨_, _, h⟩ => h.symm⟩
  | cons d dims ih =>
    rw [product_cons_eq_ok_iff, inBounds_cons]
    by_cases hzero : d.size = 0
    · -- from here on the running product is zero
      have hnone : count * d.size.toInt.toNat = 0 := by rw [hzero]; rfl
      have hfits : ((0 : Nat) : Int) ≤ maxWord := by decide
      rw [hnone, ih hfits, leading_of_zero hzero, volume_nil, volume_cons, ← Nat.mul_assoc, hnone,
        Nat.zero_mul, Nat.zero_mul, Nat.mul_one]
      exact ⟨fun ⟨hhead, _, hdims, _, hn⟩ => ⟨⟨hhead, hdims⟩, hcount, hn⟩,
        fun ⟨⟨hhead, hdims⟩, _, hn⟩ => ⟨hhead, hfits, hdims, hfits, hn⟩⟩
    · rw [leading_of_ne hzero, volume_cons, volume_cons, ← Nat.mul_assoc, ← Nat.mul_assoc]
      constructor
      · rintro ⟨hhead, hstep, hproduct⟩
        obtain ⟨hdims, hrest⟩ := (ih hstep).1 hproduct
        exact ⟨⟨hhead, hdims⟩, hrest⟩
      · rintro ⟨⟨hhead, hdims⟩, hle, hn⟩
        have hgrows := Nat.le_mul_of_pos_right (count * d.size.toInt.toNat)
          (volume_leading_pos hdims)
        have hstep : ((count * d.size.toInt.toNat : Nat) : Int) ≤ maxWord := by omega
        exact ⟨hhead, hstep, (ih hstep).2 ⟨hdims, hle, hn⟩⟩

/-- **Dimensions pass the check just if they are acceptable**, with their number of elements. -/
theorem check_eq_ok_iff {n : Nat} :
    check dims = .ok n ↔ Acceptable dims ∧ n = elementCount dims := by
  unfold check
  by_cases hmany : maxNumber < dims.length
  · rw [if_pos hmany]
    exact ⟨nofun, fun ⟨hdims, _⟩ => absurd hmany (not_lt.2 hdims.length_le)⟩
  rw [if_neg hmany]
  have hlength := not_lt.1 hmany
  cases dims with
  | nil =>
    dsimp only
    rw [Except.ok.injEq]
    exact ⟨fun h => ⟨⟨hlength, nofun, by decide⟩, h.symm⟩, fun ⟨_, h⟩ => h.symm⟩
  | cons d dims =>
    dsimp only
    rw [product_eq_ok_iff (by decide), Nat.one_mul, Nat.one_mul, ← elementCount_le_iff,
      ← elementCount_of_ne (List.cons_ne_nil d dims)]
    exact ⟨fun ⟨hbounds, hcount, hn⟩ => ⟨⟨hlength, hbounds, hcount⟩, hn⟩,
      fun ⟨⟨_, hbounds, hcount⟩, hn⟩ => ⟨hbounds, hcount, hn⟩⟩

/-! ### The number of elements -/

theorem Acceptable.elementCount_le (h : Acceptable dims) : elementCount dims ≤ maxWord := by
  have hle := volume_le_leading h.inBounds
  have hleading := elementCount_le_iff.1 h.count_le
  rw [elementCount_le_iff]
  omega

/-- Where no size is zero the rule is by the number of elements. -/
theorem acceptable_iff_of_ne_zero (h : ∀ d ∈ dims, d.size ≠ 0) : Acceptable dims ↔
    dims.length ≤ maxNumber ∧ InBounds dims ∧ elementCount dims ≤ maxWord := by
  have hself := leading_eq_self h
  exact ⟨fun ⟨hlength, hbounds, hcount⟩ => ⟨hlength, hbounds, hself ▸ hcount⟩,
    fun ⟨hlength, hbounds, hcount⟩ => ⟨hlength, hbounds, hself.symm ▸ hcount⟩⟩

theorem elementCount_perm (h : dims.Perm others) : elementCount dims = elementCount others := by
  by_cases hnil : dims = []
  · subst hnil
    rw [h.nil_eq]
  · have hothers : others ≠ [] := fun hempty => hnil (hempty ▸ h).eq_nil
    rw [elementCount_of_ne hnil, elementCount_of_ne hothers]
    exact (h.map _).prod_eq

theorem acceptable_perm (h : ∀ d ∈ dims, d.size ≠ 0) (hperm : dims.Perm others) :
    Acceptable dims ↔ Acceptable others := by
  have hothers : ∀ d ∈ others, d.size ≠ 0 := fun d hd => h d (hperm.mem_iff.2 hd)
  have hbounds : InBounds dims ↔ InBounds others :=
    ⟨fun hb d hd => hb d (hperm.mem_iff.2 hd), fun hb d hd => hb d (hperm.mem_iff.1 hd)⟩
  rw [acceptable_iff_of_ne_zero h, acceptable_iff_of_ne_zero hothers, hperm.length_eq, hbounds,
    elementCount_perm hperm]

end Dimension

namespace ArrayHeader

open Dimension (Acceptable InBounds maxNumber maxWord)

/-- **Headers are accepted by the sizes before the first zero.**  A list of dimensions that is
acceptable makes a header, and complete bytes of such a header are read as that header, whatever
its type and flag and whatever follows it.  Any other list is refused, by writers and readers for
the same fault.  An acceptable list has no more elements than the largest word says.  If none of
its sizes is zero a list is acceptable by that and the bounds of its dimensions alone, and so in
any order of them. -/
theorem accepted_by_leading_sizes (element : Oid) (dims : List Dimension) :
    ((Acceptable dims ∧ make element dims = .ok ⟨0, element, dims⟩ ∧
        ∀ flags rest, flags = 0 ∨ flags = hasNulls →
          decode (encode ⟨flags, element, dims⟩ ++ rest) = .ok (⟨flags, element, dims⟩, rest)) ∨
      (¬ Acceptable dims ∧ ∃ fault : DimensionFault,
        make element dims = .error (.invalidOperation fault.message) ∧
        (dims.length ≤ maxNumber → ∀ flags rest, flags = 0 ∨ flags = hasNulls →
          decode (encode ⟨flags, element, dims⟩ ++ rest) = .error (malformed fault.message)))) ∧
    (Acceptable dims → Dimension.elementCount dims ≤ maxWord) ∧
    ((∀ d ∈ dims, d.size ≠ 0) →
      (Acceptable dims ↔
        dims.length ≤ maxNumber ∧ InBounds dims ∧ Dimension.elementCount dims ≤ maxWord) ∧
      ∀ others, dims.Perm others → (Acceptable dims ↔ Acceptable others)) := by
  refine ⟨?_, Acceptable.elementCount_le, fun hsizes =>
    ⟨Dimension.acceptable_iff_of_ne_zero hsizes, fun _ => Dimension.acceptable_perm hsizes⟩⟩
  cases hcheck : Dimension.check dims with
  | ok n =>
    refine .inl ⟨(Dimension.check_eq_ok_iff.1 hcheck).1, ?_, fun flags rest hflags =>
      decode_append hflags hcheck rest⟩
    rw [make, hcheck]
  | error fault =>
    refine .inr ⟨fun hdims => ?_, fault, ?_, fun hle flags rest hflags => ?_⟩
    · rw [Dimension.check_eq_ok_iff.2 ⟨hdims, rfl⟩] at hcheck
      cases hcheck
    · rw [make, hcheck]
    · rw [decode_encode_append hflags hle, hcheck]

/-- Two dimensions with too many elements between them, which only the zero before them makes an
acceptable list. -/
theorem accepted_by_leading_sizes_zero_first :
    make 23 [⟨0, 1⟩, ⟨65536, 1⟩, ⟨65536, 1⟩] =
      .ok ⟨0, 23, [⟨0, 1⟩, ⟨65536, 1⟩, ⟨65536, 1⟩]⟩ ∧
    (∀ rest, decode (encode ⟨hasNulls, 23, [⟨2, 1⟩, ⟨3, -5⟩]⟩ ++ rest) =
      .ok (⟨hasNulls, 23, [⟨2, 1⟩, ⟨3, -5⟩]⟩, rest)) ∧
    Acceptable [⟨3, -5⟩, ⟨2, 1⟩] := by
  have hzero : Acceptable [⟨0, 1⟩, ⟨65536, 1⟩, ⟨65536, 1⟩] := ⟨by decide, by decide, by decide⟩
  have hsizes : ∀ d ∈ [(⟨2, 1⟩ : Dimension), ⟨3, -5⟩], d.size ≠ 0 := by decide
  obtain ⟨hempty, -⟩ := accepted_by_leading_sizes 23 [⟨0, 1⟩, ⟨65536, 1⟩, ⟨65536, 1⟩]
  obtain ⟨hcases, -, hrule⟩ := accepted_by_leading_sizes 23 [⟨2, 1⟩, ⟨3, -5⟩]
  obtain ⟨hcount, hperm⟩ := hrule hsizes
  have hsix := hcount.2 ⟨by decide, by decide, by decide⟩
  rcases hempty with ⟨-, hmade, -⟩ | ⟨hnot, -⟩
  · rcases hcases with ⟨-, -, hread⟩ | ⟨hnot, -⟩
    · exact ⟨hmade, fun rest => hread _ rest (.inr rfl), (hperm _ (.swap ..)).1 hsix⟩
    · exact absurd hsix hnot
  · exact absurd hzero hnot

/-- **An empty array that is refused**, for the number of elements it would have without its last
dimension.  With that dimension first it is accepted. -/
theorem empty_array_refused :
    let dims : List Dimension := [⟨65536, 1⟩, ⟨65536, 1⟩, ⟨0, 1⟩]
    let others : List Dimension := [⟨0, 1⟩, ⟨65536, 1⟩, ⟨65536, 1⟩]
    dims.length ≤ maxNumber ∧ InBounds dims ∧ Dimension.elementCount dims = 0 ∧
    make 23 dims = .error (.invalidOperation "array size exceeds the maximum allowed") ∧
    (∀ header, make 23 dims ≠ .ok header) ∧
    dims.Perm others ∧ make 23 others = .ok ⟨0, 23, others⟩ := by
  intro dims others
  have hrefused : make 23 dims =
      .error (.invalidOperation "array size exceeds the maximum allowed") := by decide
  refine ⟨by decide, by decide, by decide, hrefused, ?_, by decide, by decide⟩
  intro header hmade
  rw [hrefused] at hmade
  cases hmade

end ArrayHeader

end SqlWire
