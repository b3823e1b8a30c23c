import SqlWire.Numeric.Wire
import SqlWire.Proofs.Numeric.Truncation

/-!
# A numeric on the wire and back

`encode_eq_ok_iff` says which numerics can be sent and what their bytes are.
`readParts_wireForm` says that reading takes exactly these bytes apart again, so
that all that happens to a numeric on its way is the truncation which reading
ends with (`decode_wireForm`).

The whole trip goes through a buffer that already holds bytes, and back from bytes
that others follow.
-/

namespace SqlWire

namespace Numeric

/-! ### What is sent -/

/-- The bytes of a numeric that fits them. -/
def wireForm (n : Numeric) : Bytes :=
  Word.toBytes (UInt16.ofNat n.groups.length) ++ Word.toBytes (Int16.ofInt n.weight) ++
    Word.toBytes (UInt16.ofNat n.sign.tag) ++ Word.toBytes (UInt16.ofNat n.scale) ++
    n.groups.flatMap fun g => Word.toBytes (UInt16.ofNat g)

/-- The numeric fits the words of its wire form. -/
structure Sendable (n : Numeric) : Prop where
  length_le : n.groups.length ≤ 32767
  le_weight : -32768 ≤ n.weight
  weight_le : n.weight ≤ 32767
  scale_le : n.scale ≤ 0x3FFF

theorem encode_eq_ok_iff (n : Numeric) (bytes : Bytes) :
    n.encode = .ok bytes ↔ n.Sendable ∧ bytes = n.wireForm := by
  unfold encode
  constructor
  · intro h
    split at h
    · cases h
    next hlength =>
      split at h
      · cases h
      next hweight =>
        split at h
        · cases h
        next hscale =>
          simp only [fitsWord, Bool.not_eq_true, Bool.not_eq_false', decide_eq_true_eq] at hweight
          rw [not_lt] at hlength hscale
          cases h
          exact ⟨⟨hlength, hweight.1, hweight.2, hscale⟩, rfl⟩
  · rintro ⟨h, rfl⟩
    have hweight : fitsWord n.weight = true := decide_eq_true ⟨h.le_weight, h.weight_le⟩
    rw [if_neg (not_lt.2 h.length_le), if_neg (by rw [hweight]; decide),
      if_neg (not_lt.2 (show n.scale ≤ maxScale from h.scale_le))]
    rfl

theorem length_groupBytes (groups : List Nat) :
    (groups.flatMap fun g => Word.toBytes (UInt16.ofNat g)).length = 2 * groups.length := by
  induction groups with
  | nil => rfl
  | cons g rest ih =>
    rw [List.flatMap_cons, List.length_append, ih, Word.length_toBytes, List.length_cons,
      show Word.width UInt16 = 2 from rfl]
    omega

theorem length_wireForm (n : Numeric) : n.wireForm.length = 8 + 2 * n.groups.length := by
  rw [wireForm]
  simp only [List.length_append, Word.length_toBytes, length_groupBytes]
  rfl

/-! ### What is read -/

/-- A group has the same bytes in a signed word as in an unsigned one. -/
theorem toBytes_group (g : Nat) :
    Word.toBytes (UInt16.ofNat g) = Word.toBytes (Int16.ofNat g) := by
  simp [Word.toBytes, Word.width, Word.toNat]

theorem readGroups_append {groups : List Nat} (h : ∀ g ∈ groups, g < 10000) (context : String)
    (position : Nat) (rest : Bytes) :
    readGroups groups.length ⟨context, position,
        (groups.flatMap fun g => Word.toBytes (UInt16.ofNat g)) ++ rest⟩ =
      .ok (groups, ⟨context, position + 2 * groups.length, rest⟩) := by
  induction groups generalizing position with
  | nil => rfl
  | cons g gs ih =>
    have hg : g < 10000 := h g List.mem_cons_self
    have hvalue : (Int16.ofNat g).toInt = g := Int16.toInt_ofNat_of_lt (by omega)
    have hgs := ih (fun x hx => h x (List.mem_cons_of_mem _ hx)) (position + 2)
    have hposition : position + 2 + 2 * gs.length = position + 2 * (g :: gs).length := by
      rw [List.length_cons]
      omega
    rw [List.length_cons, readGroups, List.flatMap_cons, List.append_assoc, toBytes_group,
      Reader.read_append, show Word.width Int16 = 2 from rfl]
    simp only [bind, Except.bind, hgs, hvalue]
    rw [if_neg (by omega), hposition]
    rfl

/-- **What is sent is read**, whatever bytes follow. -/
theorem readParts_wireForm {n : Numeric} (hn : n.Sendable) (hlt : ∀ g ∈ n.groups, g < 10000)
    (hlength : n.groups.length ≤ maxWireGroups) (rest : Bytes) :
    readParts (n.wireForm ++ rest) = .ok ⟨n.sign, n.weight, n.scale, n.groups⟩ := by
  have hcount : (UInt16.ofNat n.groups.length).toNat = n.groups.length :=
    UInt16.toNat_ofNat_of_lt' (lt_of_le_of_lt hlength (by decide))
  have hscale : (UInt16.ofNat n.scale).toNat = n.scale :=
    UInt16.toNat_ofNat_of_lt' (lt_of_le_of_lt hn.scale_le (by decide))
  have htag : (UInt16.ofNat n.sign.tag).toNat = n.sign.tag :=
    UInt16.toNat_ofNat_of_lt' (by cases n.sign <;> decide)
  have hweight : (Int16.ofInt n.weight).toInt = n.weight := by
    have hle := hn.le_weight
    have hge := hn.weight_le
    exact Int16.toInt_ofInt_of_le (by omega) (by omega)
  have hensure : Reader.ensure ⟨"numeric", 0 + 2 + 2 + 2 + 2,
      (n.groups.flatMap fun g => Word.toBytes (UInt16.ofNat g)) ++ rest⟩ (n.groups.length * 2) =
        .ok () := by
    rw [Reader.ensure, if_pos]
    rw [Reader.remaining, List.length_append, length_groupBytes]
    omega
  have hgroups := readGroups_append hlt "numeric" (0 + 2 + 2 + 2 + 2) rest
  unfold readParts wireForm
  simp only [Reader.start, List.append_assoc, Reader.read_append, bind, Except.bind, hcount,
    show Word.width UInt16 = 2 from rfl, show Word.width Int16 = 2 from rfl,
    if_neg (not_lt.2 hlength), htag, NumericSign.ofTag?_tag, hscale,
    if_neg (not_lt.2 (show n.scale ≤ maxScale from hn.scale_le)), hensure, hgroups, hweight]
  rfl

theorem toNumeric_parts (n : Numeric) :
    Transmitted.toNumeric ⟨n.sign, n.weight, n.scale, n.groups⟩ = n.truncate n.scale := by
  cases n with
  | nan => rfl
  | finite d =>
    obtain ⟨negative, weight, scale, groups⟩ := d
    cases negative <;> rfl

theorem conform_none (n : Numeric) : n.conform (-1) = (n, .ok ()) := by cases n <;> rfl

theorem decode_eq (bytes : Bytes) :
    decode bytes = (readParts bytes).map Transmitted.toNumeric := by
  unfold decode decodeConforming
  cases readParts bytes with
  | error e => rfl
  | ok t =>
    simp only [bind, Except.bind, conform_none]
    rfl

/-- **What is sent is decoded** to the numeric, truncated to its scale. -/
theorem decode_wireForm {n : Numeric} (hn : n.Sendable) (hlt : ∀ g ∈ n.groups, g < 10000)
    (hlength : n.groups.length ≤ maxWireGroups) (rest : Bytes) :
    decode (n.wireForm ++ rest) = .ok (n.truncate n.scale) := by
  rw [decode_eq, readParts_wireForm hn hlt hlength, Except.map, toNumeric_parts]

/-! ### The trip -/

/-- No digit is stored behind the last place shown. -/
def AllShown : Numeric → Prop
  | nan => True
  | finite d => d.AllShown

theorem Canonical.group_lt {n : Numeric} (h : n.Canonical) : ∀ g ∈ n.groups, g < 10000 := by
  cases n with
  | nan => simp [groups]
  | finite d => exact Decimal.Canonical.group_lt h

theorem truncate_scale_of_allShown {n : Numeric} (h : n.Canonical) (hshown : n.AllShown) :
    n.truncate n.scale = n := by
  cases n with
  | nan => rfl
  | finite d => exact congrArg finite ((Decimal.truncate_scale_eq_self_iff h).2 hshown)

/-- **The wire carries a numeric there and back.**  Appending to a buffer succeeds exactly when the
numeric fits its words, and leaves the buffer alone when it does not.  What is appended to it is
then read, whatever bytes follow, as the numeric truncated to its display scale, which is the
numeric itself when nothing of it is hidden. -/
theorem wire_round_trip :
    (∀ (n : Numeric) (buffer : Bytes), (buffer.appendForm n.encode).1 = .ok () ↔
      n.groups.length ≤ 32767 ∧ (-32768 ≤ n.weight ∧ n.weight ≤ 32767) ∧ n.scale ≤ 0x3FFF) ∧
    (∀ (n : Numeric) (buffer : Bytes), (buffer.appendForm n.encode).1 ≠ .ok () →
      (buffer.appendForm n.encode).2 = buffer) ∧
    ∀ n : Numeric, n.Canonical → n.groups.length ≤ 2000 → ∀ buffer : Bytes,
      (buffer.appendForm n.encode).1 = .ok () → ∃ bytes : Bytes,
        (buffer.appendForm n.encode).2 = buffer ++ bytes ∧
        bytes.length = 8 + 2 * n.groups.length ∧
        ∀ rest : Bytes, decode (bytes ++ rest) = .ok (n.truncate n.scale) ∧
          (n.AllShown → decode (bytes ++ rest) = .ok n) := by
  have hok : ∀ (n : Numeric) (buffer : Bytes),
      (buffer.appendForm n.encode).1 = .ok () ↔ n.Sendable := by
    intro n buffer
    cases hform : n.encode with
    | ok bytes => exact iff_of_true rfl ((encode_eq_ok_iff n bytes).1 hform).1
    | error e =>
      refine iff_of_false (by simp [Bytes.appendForm]) fun hn => ?_
      rw [(encode_eq_ok_iff n _).2 ⟨hn, rfl⟩] at hform
      cases hform
  refine ⟨?_, ?_, ?_⟩
  · intro n buffer
    rw [hok]
    constructor
    · intro h
      exact ⟨h.length_le, ⟨h.le_weight, h.weight_le⟩, h.scale_le⟩
    · rintro ⟨hlength, ⟨hle, hge⟩, hscale⟩
      exact ⟨hlength, hle, hge, hscale⟩
  · intro n buffer h
    cases hform : n.encode with
    | ok bytes => exact absurd (by rw [hform]; rfl) h
    | error e => rfl
  · intro n hn hlength buffer h
    have hsend := (hok n buffer).1 h
    refine ⟨n.wireForm, ?_, length_wireForm n, fun rest => ?_⟩
    · rw [(encode_eq_ok_iff n _).2 ⟨hsend, rfl⟩]
      rfl
    · have hdecode := decode_wireForm hsend hn.group_lt hlength rest
      refine ⟨hdecode, fun hshown => ?_⟩
      rw [hdecode, truncate_scale_of_allShown hn hshown]

/-- A hidden digit is lost on the way; the byte that follows is not read. -/
theorem wire_round_trip_hidden :
    ∃ bytes : Bytes, (Bytes.appendForm [7] (encode (finite ⟨true, -1, 4, [25, 3000]⟩))).2 =
      [7] ++ bytes ∧ bytes.length = 12 ∧
      decode (bytes ++ [1]) = .ok (finite ⟨true, -1, 4, [25]⟩) := by
  have hcanonical : (finite ⟨true, -1, 4, [25, 3000]⟩).Canonical :=
    ⟨by decide, by decide, by decide, by decide⟩
  have hsent := (wire_round_trip.1 (finite ⟨true, -1, 4, [25, 3000]⟩) [7]).2 (by decide)
  obtain ⟨bytes, happend, hlength, hdecode⟩ :=
    wire_round_trip.2.2 _ hcanonical (by decide) [7] hsent
  exact ⟨bytes, happend, hlength, (hdecode [1]).1⟩

end Numeric

end SqlWire
