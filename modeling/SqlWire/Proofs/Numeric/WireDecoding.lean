import SqlWire.Proofs.Numeric.WireRoundTrip

/-!
# Which bytes are a numeric

Reading goes through bytes from left to right.  This file puts every word that
it meets at its place (`Bytes.word`): the number of groups, the weight, the sign
tag and the display scale are the words 0 to 3, and the groups come behind them.
`readParts_eq` is reading said in this way, and four facts follow from it.

* `readParts_eq_ok_iff`: `WellFormed` bytes are read, and no others, and each part
  is the word at its place.
* `readParts_take`: what lies behind the last group is not looked at.
* `sendable_truncate`: what has been read fits the wire again.  Its first group
  may stand far behind the first that was sent, when zeros were; but the cut at
  the display scale leaves nothing below one unit of the last place shown.
* `settled_of_decode`: what has been read comes back unchanged from being sent again.

Writing takes more groups than reading does, and `decode_wireForm_long` is what
becomes of those.
-/

namespace SqlWire

/-! ### Words at their places -/

namespace Bytes

/-- The number that the word at place `k` spells; the first word is at place zero. -/
def word (bytes : Bytes) (k : Nat) : Nat := value ((bytes.drop (2 * k)).take 2)

theorem word_lt (bytes : Bytes) (k : Nat) : bytes.word k < 65536 := by
  have hlength : ((bytes.drop (2 * k)).take 2).length ≤ 2 := List.length_take_le _ _
  exact lt_of_lt_of_le (value_lt _) (Nat.pow_le_pow_right (by decide) hlength)

theorem word_drop (bytes : Bytes) (j k : Nat) :
    word (bytes.drop (2 * j)) k = bytes.word (j + k) := by
  rw [word, word, List.drop_drop, Nat.mul_add]

theorem word_take (bytes : Bytes) {k m : Nat} (h : 2 * k + 2 ≤ m) :
    word (bytes.take m) k = bytes.word k := by
  rw [word, word, List.drop_take, List.take_take, Nat.min_eq_left (by omega)]

theorem toNat_word (bytes : Bytes) (k : Nat) :
    (Word.ofBytes UInt16 ((bytes.drop (2 * k)).take 2)).toNat = bytes.word k :=
  Word.toNat_ofNat (α := UInt16) _ (bytes.word_lt k)

theorem toInt_word (bytes : Bytes) (k : Nat) :
    (Word.ofBytes Int16 ((bytes.drop (2 * k)).take 2)).toInt =
      (bytes.word k : Int).bmod 65536 := by
  change (UInt16.ofNat (bytes.word k)).toInt16.toInt = _
  rw [UInt16.toInt16_ofNat']
  exact Int16.toInt_ofNat'

end Bytes

theorem Reader.read_word {α : Type} [Word α] (hwidth : Word.width α = 2) (context : String)
    (bytes : Bytes) (k : Nat) (h : 2 * (k + 1) ≤ bytes.length) :
    Reader.read α ⟨context, 2 * k, bytes.drop (2 * k)⟩ =
      .ok (Word.ofBytes α ((bytes.drop (2 * k)).take 2),
        ⟨context, 2 * (k + 1), bytes.drop (2 * (k + 1))⟩) := by
  have hlength : Word.width α ≤ (bytes.drop (2 * k)).length := by
    rw [hwidth, List.length_drop]
    omega
  rw [Reader.read_eq_ok hlength, Reader.advance, hwidth, List.drop_drop]
  rfl

namespace Numeric

/-! ### Reading, word by word -/

/-- The group that a word is.  One that is none is reported as the signed number it spells. -/
def groupOfWord (g : Nat) : Except Error Nat :=
  if g < 10000 then .ok g else .error (malformed s!"invalid digit {(g : Int).bmod 65536}")

theorem mapM_groupOfWord_eq_ok_iff (words groups : List Nat) :
    words.mapM groupOfWord = .ok groups ↔ (∀ g ∈ words, g < 10000) ∧ groups = words := by
  induction words generalizing groups with
  | nil =>
    rw [List.mapM_nil]
    simp [pure, Except.pure, eq_comm]
  | cons g rest ih =>
    rw [List.mapM_cons, Except.bind_eq_ok_iff]
    by_cases hg : g < 10000
    · constructor
      · rintro ⟨g', hg', h⟩
        rw [groupOfWord, if_pos hg] at hg'
        cases hg'
        obtain ⟨rest', hrest, hcons⟩ := Except.bind_eq_ok_iff.1 h
        obtain ⟨hlt, rfl⟩ := (ih rest').1 hrest
        cases hcons
        exact ⟨List.forall_mem_cons.2 ⟨hg, hlt⟩, rfl⟩
      · rintro ⟨hlt, rfl⟩
        refine ⟨g, by rw [groupOfWord, if_pos hg], ?_⟩
        rw [(ih rest).2 ⟨(List.forall_mem_cons.1 hlt).2, rfl⟩]
        rfl
    · constructor
      · rintro ⟨g', hg', -⟩
        rw [groupOfWord, if_neg hg] at hg'
        cases hg'
      · rintro ⟨hlt, -⟩
        exact absurd (List.forall_mem_cons.1 hlt).1 hg

theorem readGroups_eq (count : Nat) (r : Reader) (h : 2 * count ≤ r.rest.length) :
    (readGroups count r).map Prod.fst =
      ((List.range count).map r.rest.word).mapM groupOfWord := by
  induction count generalizing r with
  | zero => rfl
  | succ count ih =>
    have hrest := ih (r.advance 2) (by rw [Reader.advance, List.length_drop]; omega)
    have hwords : r.rest.word ∘ Nat.succ = (r.advance 2).rest.word := by
      funext k
      rw [Function.comp, Nat.succ_eq_one_add, ← r.rest.word_drop 1 k]
      rfl
    have hvalue := r.rest.toInt_word 0
    have hlt := r.rest.word_lt 0
    rw [Nat.mul_zero, List.drop_zero, Int.bmod_def] at hvalue
    rw [readGroups, Reader.read_eq_ok (show Word.width Int16 ≤ _ by change 2 ≤ _; omega),
      List.range_succ_eq_map, List.map_cons, List.map_map, List.mapM_cons, hwords, ← hrest]
    simp only [bind, Except.bind, show Word.width Int16 = 2 from rfl]
    by_cases hg : r.rest.word 0 < 10000
    · -- a group is not negative as a signed word
      have hself : (Word.ofBytes Int16 (r.rest.take 2)).toInt = r.rest.word 0 := by omega
      rw [groupOfWord, if_pos hg, hself, if_neg (by omega)]
      cases readGroups count (r.advance 2) <;> rfl
    · rw [groupOfWord, if_neg hg, if_pos (by omega), hvalue, Int.bmod_def]
      rfl

/-- The weight that bytes announce, which is the only signed word of the header. -/
def sentWeight (bytes : Bytes) : Int := (bytes.word 1 : Int).bmod 65536

/-- The words behind the header, as many as it announces. -/
def sentGroups (bytes : Bytes) : List Nat :=
  (List.range (bytes.word 0)).map fun i => bytes.word (4 + i)

/-- The parts of a numeric, each taken from its place. -/
def partsInPlace (bytes : Bytes) : Except Error Transmitted :=
  if maxWireGroups < bytes.word 0 then .error (malformed s!"invalid length {bytes.word 0}")
  else match NumericSign.ofTag? (bytes.word 2) with
  | none => .error (malformed ("invalid sign 0x" ++ hexWord (bytes.word 2)))
  | some sign =>
    if maxScale < bytes.word 3 then .error (malformed s!"invalid scale {bytes.word 3}")
    else if bytes.length < 8 + 2 * bytes.word 0 then
      .error (.truncated "numeric" (bytes.word 0 * 2) (bytes.length - 8))
    else ((sentGroups bytes).mapM groupOfWord).map fun groups =>
      ⟨sign, sentWeight bytes, bytes.word 3, groups⟩

/-- **Reading takes every word from its place**, once there is a header. -/
theorem readParts_eq {bytes : Bytes} (h : 8 ≤ bytes.length) :
    readParts bytes = partsInPlace bytes := by
  have hstart : Reader.start "numeric" bytes = ⟨"numeric", 2 * 0, bytes.drop (2 * 0)⟩ := rfl
  have hcount := Reader.read_word (α := UInt16) rfl "numeric" bytes 0 (by omega)
  have hweight := Reader.read_word (α := Int16) rfl "numeric" bytes 1 (by omega)
  have htag := Reader.read_word (α := UInt16) rfl "numeric" bytes 2 (by omega)
  have hscale := Reader.read_word (α := UInt16) rfl "numeric" bytes 3 (by omega)
  unfold readParts partsInPlace
  rw [hstart, hcount]
  simp only [bind, Except.bind, hweight, htag, hscale, Bytes.toNat_word, Bytes.toInt_word]
  by_cases hlimit : maxWireGroups < bytes.word 0
  · rw [if_pos hlimit, if_pos hlimit]
    rfl
  rw [if_neg hlimit, if_neg hlimit]
  cases NumericSign.ofTag? (bytes.word 2) with
  | none => rfl
  | some sign =>
    dsimp only
    by_cases hmax : maxScale < bytes.word 3
    · rw [if_pos hmax, if_pos hmax]
      rfl
    rw [if_neg hmax, if_neg hmax]
    have hahead : Reader.remaining ⟨"numeric", 2 * (3 + 1), bytes.drop (2 * (3 + 1))⟩ =
        bytes.length - 8 := List.length_drop
    by_cases hshort : bytes.length < 8 + 2 * bytes.word 0
    · rw [if_pos hshort, Reader.ensure, hahead, if_neg (by omega)]
    · rw [if_neg hshort, Reader.ensure, hahead, if_pos (by omega)]
      have hgroups := readGroups_eq (bytes.word 0)
        ⟨"numeric", 2 * (3 + 1), bytes.drop (2 * (3 + 1))⟩ (by rw [List.length_drop]; omega)
      have hwords : Bytes.word (bytes.drop (2 * (3 + 1))) = fun i => bytes.word (4 + i) := by
        funext i
        exact bytes.word_drop 4 i
      rw [hwords] at hgroups
      rw [sentGroups, ← hgroups]
      cases readGroups (bytes.word 0) ⟨"numeric", 2 * (3 + 1), bytes.drop (2 * (3 + 1))⟩ <;> rfl

theorem length_of_readParts {bytes : Bytes} {t : Transmitted} (h : readParts bytes = .ok t) :
    8 ≤ bytes.length := by
  unfold readParts at h
  obtain ⟨⟨count, r₁⟩, hcount, h⟩ := Except.bind_eq_ok_iff.1 h
  dsimp only at h
  split at h
  next => cases h
  obtain ⟨⟨weight, r₂⟩, hweight, h⟩ := Except.bind_eq_ok_iff.1 h
  obtain ⟨⟨tag, r₃⟩, htag, h⟩ := Except.bind_eq_ok_iff.1 h
  dsimp only at h
  split at h
  next sign _ =>
    obtain ⟨⟨scale, r₄⟩, hscale, h⟩ := Except.bind_eq_ok_iff.1 h
    obtain ⟨-, rfl⟩ := Reader.of_read_eq_ok hcount
    obtain ⟨-, rfl⟩ := Reader.of_read_eq_ok hweight
    obtain ⟨-, rfl⟩ := Reader.of_read_eq_ok htag
    obtain ⟨hlast, -⟩ := Reader.of_read_eq_ok hscale
    have hlength : 2 ≤ (((bytes.drop 2).drop 2).drop 2).length := hlast
    rw [List.drop_drop, List.drop_drop, List.length_drop] at hlength
    omega
  next => cases h

/-! ### The bytes that are read -/

/-- Bytes that begin with the wire form of a number: no more than 2000 groups, a tag that is one,
a display scale of fourteen bits, and as many groups as are announced. -/
structure WellFormed (bytes : Bytes) : Prop where
  header : 8 ≤ bytes.length
  count_le : bytes.word 0 ≤ 2000
  tag : bytes.word 2 = 0x0000 ∨ bytes.word 2 = 0x4000 ∨ bytes.word 2 = 0xC000
  scale_le : bytes.word 3 ≤ 0x3FFF
  groups : 8 + 2 * bytes.word 0 ≤ bytes.length
  group_lt : ∀ i < bytes.word 0, bytes.word (4 + i) < 10000

theorem WellFormed.sentGroups_lt {bytes : Bytes} (h : WellFormed bytes) :
    ∀ g ∈ sentGroups bytes, g < 10000 := by
  intro g hg
  obtain ⟨i, hi, rfl⟩ := List.mem_map.1 hg
  exact h.group_lt i (List.mem_range.1 hi)

theorem length_sentGroups (bytes : Bytes) : (sentGroups bytes).length = bytes.word 0 := by
  rw [sentGroups, List.length_map, List.length_range]

theorem WellFormed.readParts_eq_ok {bytes : Bytes} (h : WellFormed bytes) (sign : NumericSign)
    (hsign : bytes.word 2 = sign.tag) :
    readParts bytes = .ok ⟨sign, sentWeight bytes, bytes.word 3, sentGroups bytes⟩ := by
  have hcount : ¬ maxWireGroups < bytes.word 0 := not_lt.2 h.count_le
  have hmax : ¬ maxScale < bytes.word 3 := not_lt.2 h.scale_le
  rw [readParts_eq h.header, partsInPlace, if_neg hcount,
    (NumericSign.ofTag?_eq_some_iff _ sign).2 hsign]
  dsimp only
  rw [if_neg hmax, if_neg (not_lt.2 h.groups),
    (mapM_groupOfWord_eq_ok_iff _ _).2 ⟨h.sentGroups_lt, rfl⟩]
  rfl

/-- **Well-formed bytes are read, and no others**, and every part is the word at its place. -/
theorem readParts_eq_ok_iff (bytes : Bytes) (t : Transmitted) :
    readParts bytes = .ok t ↔ WellFormed bytes ∧ bytes.word 2 = t.sign.tag ∧
      t = ⟨t.sign, sentWeight bytes, bytes.word 3, sentGroups bytes⟩ := by
  constructor
  · intro h
    have hheader := length_of_readParts h
    rw [readParts_eq hheader, partsInPlace] at h
    by_cases hcount : maxWireGroups < bytes.word 0
    · rw [if_pos hcount] at h
      cases h
    rw [if_neg hcount] at h
    rcases hsign : NumericSign.ofTag? (bytes.word 2) with _ | sign
    · rw [hsign] at h
      cases h
    rw [hsign] at h
    dsimp only at h
    by_cases hscale : maxScale < bytes.word 3
    · rw [if_pos hscale] at h
      cases h
    rw [if_neg hscale] at h
    by_cases hlength : bytes.length < 8 + 2 * bytes.word 0
    · rw [if_pos hlength] at h
      cases h
    rw [if_neg hlength] at h
    rcases hgroups : (sentGroups bytes).mapM groupOfWord with e | groups
    · rw [hgroups] at h
      cases h
    rw [hgroups, Except.map, Except.ok.injEq] at h
    obtain ⟨hlt, rfl⟩ := (mapM_groupOfWord_eq_ok_iff _ _).1 hgroups
    have htag := (NumericSign.ofTag?_eq_some_iff _ sign).1 hsign
    refine ⟨⟨hheader, not_lt.1 hcount, ?_, not_lt.1 hscale, not_lt.1 hlength, ?_⟩,
      by rw [← h, htag], by rw [← h]⟩
    · rw [htag]
      cases sign with
      | positive => exact Or.inl rfl
      | negative => exact Or.inr (Or.inl rfl)
      | nan => exact Or.inr (Or.inr rfl)
    · intro i hi
      exact hlt _ (List.mem_map.2 ⟨i, List.mem_range.2 hi, rfl⟩)
  · rintro ⟨h, hsign, ht⟩
    rw [h.readParts_eq_ok _ hsign, ← ht]

theorem WellFormed.exists_sign {bytes : Bytes} (h : WellFormed bytes) :
    ∃ sign : NumericSign, bytes.word 2 = sign.tag := by
  rcases h.tag with h | h | h
  · exact ⟨.positive, h⟩
  · exact ⟨.negative, h⟩
  · exact ⟨.nan, h⟩

theorem readParts_group_lt {bytes : Bytes} {t : Transmitted} (h : readParts bytes = .ok t) :
    ∀ g ∈ t.groups, g < 10000 := by
  obtain ⟨hform, -, ht⟩ := (readParts_eq_ok_iff bytes t).1 h
  rw [ht]
  exact hform.sentGroups_lt

/-- The words up to the last group stay where they are when what follows is cut off. -/
theorem word_take_sent (bytes : Bytes) {k : Nat} (h : k < 4 + bytes.word 0) :
    Bytes.word (bytes.take (8 + 2 * bytes.word 0)) k = bytes.word k :=
  bytes.word_take (by omega)

/-- **Nothing is read behind the last group**, whether the reading succeeds or not. -/
theorem readParts_take (bytes : Bytes) :
    readParts (bytes.take (8 + 2 * bytes.word 0)) = readParts bytes := by
  by_cases hlength : bytes.length ≤ 8 + 2 * bytes.word 0
  · rw [List.take_of_length_le hlength]
  · have hcut : (bytes.take (8 + 2 * bytes.word 0)).length = 8 + 2 * bytes.word 0 :=
      List.length_take_of_le (by omega)
    have hcount := word_take_sent bytes (k := 0) (by omega)
    have hweight : sentWeight (bytes.take (8 + 2 * bytes.word 0)) = sentWeight bytes :=
      congrArg (fun n : Nat => (n : Int).bmod 65536) (word_take_sent bytes (by omega))
    have htag := word_take_sent bytes (k := 2) (by omega)
    have hscale := word_take_sent bytes (k := 3) (by omega)
    have hgroups : sentGroups (bytes.take (8 + 2 * bytes.word 0)) = sentGroups bytes := by
      rw [sentGroups, hcount]
      refine List.map_congr_left fun i hi => ?_
      have := List.mem_range.1 hi
      exact word_take_sent bytes (by omega)
    have hcomplete : ¬ 8 + 2 * bytes.word 0 < 8 + 2 * bytes.word 0 := lt_irrefl _
    have hlonger : ¬ bytes.length < 8 + 2 * bytes.word 0 := by omega
    rw [readParts_eq (by omega), readParts_eq (by omega)]
    unfold partsInPlace
    rw [hgroups, hcut, hcount, hweight, htag, hscale]
    simp only [hcomplete, hlonger, if_false]

theorem decode_congr {bytes bytes' : Bytes}
    (h : bytes'.take (8 + 2 * bytes.word 0) = bytes.take (8 + 2 * bytes.word 0)) :
    decode bytes' = decode bytes := by
  have hcount : bytes'.word 0 = bytes.word 0 := by
    rw [← bytes'.word_take (m := 8 + 2 * bytes.word 0) (by omega), h, bytes.word_take (by omega)]
  rw [decode_eq, decode_eq, ← readParts_take bytes', hcount, h, readParts_take bytes]

/-! ### The number that is read -/

/-- The decimal that bytes announce, before anything of it is cut off. -/
def sentDecimal (bytes : Bytes) : Decimal :=
  ⟨decide (bytes.word 2 = 0x4000), sentWeight bytes, bytes.word 3, sentGroups bytes⟩

theorem weight_sentDecimal (bytes : Bytes) : (sentDecimal bytes).weight = sentWeight bytes := by
  rw [sentDecimal]

theorem scale_sentDecimal (bytes : Bytes) : (sentDecimal bytes).scale = bytes.word 3 := by
  rw [sentDecimal]

theorem groups_sentDecimal (bytes : Bytes) : (sentDecimal bytes).groups = sentGroups bytes := by
  rw [sentDecimal]

theorem sentWeight_le (bytes : Bytes) : sentWeight bytes ≤ 32767 := by
  have hle := Int.bmod_le (x := bytes.word 1) (show 0 < 65536 by decide)
  exact hle

/-- The number that bytes announce, without its sign. -/
def sentMagnitude (bytes : Bytes) : ℚ :=
  ∑ i ∈ Finset.range (bytes.word 0), (bytes.word (4 + i) : ℚ) * 10000 ^ (sentWeight bytes - i)

theorem magnitude_sentDecimal (bytes : Bytes) :
    (sentDecimal bytes).magnitude = sentMagnitude bytes := by
  rw [Decimal.magnitude, sentMagnitude, groups_sentDecimal, weight_sentDecimal,
    length_sentGroups]
  refine Finset.sum_congr rfl fun i hi => ?_
  have hget : (sentGroups bytes).getD i 0 = bytes.word (4 + i) := by
    rw [sentGroups, List.getD_eq_getElem?_getD, List.getElem?_map,
      List.getElem?_range (Finset.mem_range.1 hi)]
    rfl
  rw [hget]

theorem WellFormed.decode_eq_nan {bytes : Bytes} (h : WellFormed bytes)
    (htag : bytes.word 2 = 0xC000) : decode bytes = .ok nan := by
  rw [decode_eq, h.readParts_eq_ok .nan htag]
  rfl

theorem WellFormed.decode_eq_finite {bytes : Bytes} (h : WellFormed bytes)
    (htag : bytes.word 2 ≠ 0xC000) :
    decode bytes = .ok (finite ((sentDecimal bytes).truncate (sentDecimal bytes).scale)) := by
  obtain ⟨sign, hsign⟩ := h.exists_sign
  have hfinite : sign ≠ .nan := by
    rintro rfl
    exact htag hsign
  have hnegative : (sign == .negative) = decide (bytes.word 2 = 0x4000) := by
    rw [hsign]
    cases sign <;> decide
  rw [decode_eq, h.readParts_eq_ok _ hsign, Except.map, Transmitted.toNumeric, if_neg hfinite,
    hnegative, scale_sentDecimal, sentDecimal]

theorem decode_eq_ok_iff (bytes : Bytes) : (∃ n, decode bytes = .ok n) ↔ WellFormed bytes := by
  constructor
  · rintro ⟨n, h⟩
    rw [decode_eq] at h
    cases ht : readParts bytes with
    | error e =>
      rw [ht] at h
      cases h
    | ok t => exact ((readParts_eq_ok_iff bytes t).1 ht).1
  · intro h
    by_cases htag : bytes.word 2 = 0xC000
    · exact ⟨_, h.decode_eq_nan htag⟩
    · exact ⟨_, h.decode_eq_finite htag⟩

theorem value_truncate_sentDecimal {bytes : Bytes} (h : WellFormed bytes) :
    ((sentDecimal bytes).truncate (sentDecimal bytes).scale).value =
      (if bytes.word 2 = 0x4000 then -1 else 1) *
        ((⌊sentMagnitude bytes * 10 ^ bytes.word 3⌋₊ : ℚ) / 10 ^ bytes.word 3) := by
  have hlt : ∀ g ∈ (sentDecimal bytes).groups, g < 10000 := by
    rw [groups_sentDecimal]
    exact h.sentGroups_lt
  have hsign : ((sentDecimal bytes).negative = true) = (bytes.word 2 = 0x4000) := by
    rw [sentDecimal, decide_eq_true_eq]
  rw [Decimal.value_truncate hlt, Decimal.abs_value, magnitude_sentDecimal, scale_sentDecimal,
    zpow_natCast]
  simp only [hsign]

/-! ### What was read can be sent -/

/-- A truncated decimal fits the wire when the words it was cut from did.  Of its weight only the
upper bound is asked for: the cut bounds it from below. -/
theorem sendable_truncate {d : Decimal} (h : ∀ g ∈ d.groups, g < 10000)
    (hlength : d.groups.length ≤ 2000) (hweight : d.weight ≤ 32767) (hscale : d.scale ≤ 0x3FFF) :
    (finite (d.truncate d.scale)).Sendable := by
  have hgroups : (d.truncate d.scale).groups.length ≤ 32767 :=
    ((Decimal.length_groups_truncate_le d d.scale).trans hlength).trans (by decide)
  have hshown : (d.truncate d.scale).scale ≤ 0x3FFF := by
    rw [Decimal.scale_truncate, Int.toNat_natCast]
    exact hscale
  have hplace : -32768 ≤ (d.truncate d.scale).weight ∧ (d.truncate d.scale).weight ≤ 32767 := by
    by_cases hzero : (d.truncate d.scale).magnitude = 0
    · have hnull : (d.truncate d.scale).weight = 0 := by
        rw [(Decimal.truncate_canonical h d.scale).eq_zero hzero]
        rfl
      omega
    · -- what is left reaches one unit of the last place, and four places make a group
      have hlower := Decimal.neg_lt_weight_truncate h hzero
      have hupper := Decimal.weight_truncate_le h hzero
      omega
  exact ⟨hgroups, hplace.1, hplace.2, hshown⟩

/-- A numeric that the wire takes, both ways, and of which it hides nothing. -/
structure Settled (n : Numeric) : Prop where
  canonical : n.Canonical
  length_le : n.groups.length ≤ 2000
  le_weight : -32768 ≤ n.weight
  weight_le : n.weight ≤ 32767
  scale_le : n.scale ≤ 0x3FFF
  allShown : n.AllShown

theorem settled_nan : nan.Settled where
  canonical := trivial
  length_le := Nat.zero_le _
  le_weight := by decide
  weight_le := by decide
  scale_le := Nat.zero_le _
  allShown := trivial

theorem Settled.sendable {n : Numeric} (h : n.Settled) : n.Sendable where
  length_le := h.length_le.trans (by decide)
  le_weight := h.le_weight
  weight_le := h.weight_le
  scale_le := h.scale_le

theorem Settled.decode_encode {n : Numeric} (h : n.Settled) :
    ∃ bytes : Bytes, n.encode = .ok bytes ∧ decode bytes = .ok n := by
  have hread := decode_wireForm h.sendable h.canonical.group_lt h.length_le []
  rw [List.append_nil, truncate_scale_of_allShown h.canonical h.allShown] at hread
  exact ⟨_, (encode_eq_ok_iff n _).2 ⟨h.sendable, rfl⟩, hread⟩

theorem settled_truncate {d : Decimal} (h : ∀ g ∈ d.groups, g < 10000)
    (hlength : d.groups.length ≤ 2000) (hweight : d.weight ≤ 32767) (hscale : d.scale ≤ 0x3FFF) :
    (finite (d.truncate d.scale)).Settled := by
  have hsend := sendable_truncate h hlength hweight hscale
  have hcanonical := Decimal.truncate_canonical h d.scale
  have hagain : (d.truncate d.scale).truncate ((d.truncate d.scale).scale : Nat) =
      d.truncate d.scale := by
    rw [Decimal.scale_truncate, Int.toNat_natCast, Decimal.truncate_truncate h]
  exact {
    canonical := hcanonical
    length_le := (Decimal.length_groups_truncate_le d d.scale).trans hlength
    le_weight := hsend.le_weight
    weight_le := hsend.weight_le
    scale_le := hsend.scale_le
    allShown := (Decimal.truncate_scale_eq_self_iff hcanonical).1 hagain }

/-- **What is read is settled.** -/
theorem settled_of_decode {bytes : Bytes} {n : Numeric} (h : decode bytes = .ok n) :
    n.Settled := by
  have hform := (decode_eq_ok_iff bytes).1 ⟨n, h⟩
  by_cases htag : bytes.word 2 = 0xC000
  · rw [hform.decode_eq_nan htag, Except.ok.injEq] at h
    rw [← h]
    exact settled_nan
  · rw [hform.decode_eq_finite htag, Except.ok.injEq] at h
    rw [← h]
    apply settled_truncate
    · rw [groups_sentDecimal]
      exact hform.sentGroups_lt
    · rw [groups_sentDecimal, length_sentGroups]
      exact hform.count_le
    · rw [weight_sentDecimal]
      exact sentWeight_le bytes
    · rw [scale_sentDecimal]
      exact hform.scale_le

theorem exists_encode_of_decode {bytes : Bytes} {n : Numeric} (h : decode bytes = .ok n) :
    ∃ again : Bytes, n.encode = .ok again ∧ decode again = .ok n :=
  (settled_of_decode h).decode_encode

/-- **Reading accepts the well-formed bytes and brings them to one form.**  It looks at nothing
behind the last group.  It gives `NaN` for the tag of `NaN`, and for another the canonical decimal
of the scale announced whose number is the one announced, cut off at that scale.  What it gives can
be sent, and read again as the same. -/
theorem decode_normalizes :
    (∀ bytes : Bytes, (∃ n, decode bytes = .ok n) ↔ WellFormed bytes) ∧
    (∀ bytes bytes' : Bytes,
      bytes'.take (8 + 2 * bytes.word 0) = bytes.take (8 + 2 * bytes.word 0) →
      decode bytes' = decode bytes) ∧
    ∀ (bytes : Bytes) (n : Numeric), decode bytes = .ok n →
      (bytes.word 2 = 0xC000 → n = nan) ∧
      (bytes.word 2 ≠ 0xC000 → ∃ d : Decimal, n = finite d ∧ d.Canonical ∧
        d.scale = bytes.word 3 ∧
        d.value = (if bytes.word 2 = 0x4000 then -1 else 1) *
          ((⌊sentMagnitude bytes * 10 ^ bytes.word 3⌋₊ : ℚ) / 10 ^ bytes.word 3)) ∧
      ∃ again : Bytes, n.encode = .ok again ∧ decode again = .ok n := by
  refine ⟨decode_eq_ok_iff, fun _ _ => decode_congr, ?_⟩
  intro bytes n h
  have hform := (decode_eq_ok_iff bytes).1 ⟨n, h⟩
  refine ⟨?_, ?_, exists_encode_of_decode h⟩
  · intro htag
    rw [hform.decode_eq_nan htag, Except.ok.injEq] at h
    exact h.symm
  · intro htag
    rw [hform.decode_eq_finite htag, Except.ok.injEq] at h
    refine ⟨_, h.symm, Decimal.truncate_canonical ?_ _, ?_, value_truncate_sentDecimal hform⟩
    · rw [groups_sentDecimal]
      exact hform.sentGroups_lt
    · rw [Decimal.scale_truncate, Int.toNat_natCast, scale_sentDecimal]

/-- A zero in front is dropped, two digits are hidden, and the byte behind the groups is not
read. -/
theorem decode_normalizes_padded :
    decode [0, 3, 0, 1, 64, 0, 0, 2, 0, 0, 0, 1, 9, 41, 7] =
      .ok (finite ⟨true, 0, 2, [1, 2300]⟩) ∧
    decode [0, 3, 0, 1, 64, 0, 0, 2, 0, 0, 0, 1, 9, 41] = .ok (finite ⟨true, 0, 2, [1, 2300]⟩) ∧
    ∃ again : Bytes, encode (finite ⟨true, 0, 2, [1, 2300]⟩) = .ok again ∧
      decode again = .ok (finite ⟨true, 0, 2, [1, 2300]⟩) := by
  have hread : decode [0, 3, 0, 1, 64, 0, 0, 2, 0, 0, 0, 1, 9, 41, 7] =
      .ok (finite ⟨true, 0, 2, [1, 2300]⟩) := by decide
  refine ⟨hread, ?_, (decode_normalizes.2.2 _ _ hread).2.2⟩
  rw [← hread]
  exact decode_normalizes.2.1 _ _ rfl

/-! ### More groups than are read -/

/-- Bytes of more groups than are read are refused by their first word. -/
theorem decode_wireForm_long {n : Numeric} (hn : n.Sendable)
    (hlength : 2000 < n.groups.length) :
    decode n.wireForm =
      .error (.invalidBinary "numeric" s!"invalid length {n.groups.length}") := by
  have hcount : (UInt16.ofNat n.groups.length).toNat = n.groups.length :=
    UInt16.toNat_ofNat_of_lt' (lt_of_le_of_lt hn.length_le (by decide))
  have hlimit : maxWireGroups < n.groups.length := hlength
  have hparts : readParts n.wireForm = .error (malformed s!"invalid length {n.groups.length}") := by
    unfold readParts wireForm
    simp only [Reader.start, List.append_assoc, Reader.read_append, bind, Except.bind, hcount,
      if_pos hlimit]
    rfl
  rw [decode_eq, hparts]
  rfl

/-- **What is sent is read when it has no more than 2000 groups**, and refused for their number when
it has more. -/
theorem decode_of_encode {n : Numeric} (hn : n.Canonical) {bytes : Bytes}
    (h : n.encode = .ok bytes) :
    (n.groups.length ≤ 2000 → ∃ m, decode bytes = .ok m) ∧
    (2000 < n.groups.length →
      decode bytes = .error (.invalidBinary "numeric" s!"invalid length {n.groups.length}")) := by
  obtain ⟨hsend, rfl⟩ := (encode_eq_ok_iff n bytes).1 h
  constructor
  · intro hlength
    have hread := decode_wireForm hsend hn.group_lt hlength []
    rw [List.append_nil] at hread
    exact ⟨_, hread⟩
  · intro hlength
    exact decode_wireForm_long hsend hlength

theorem canonical_replicate (negative : Bool) (weight : Int) (scale count g : Nat)
    (hcount : count ≠ 0) (hg : g ≠ 0) (hlt : g < 10000) :
    (finite ⟨negative, weight, scale, List.replicate count g⟩).Canonical := by
  refine ⟨?_, ?_, ?_, ?_⟩
  · intro x hx
    rw [List.eq_of_mem_replicate hx]
    exact hlt
  · rw [List.head?_replicate, if_neg hcount]
    simpa using hg
  · rw [List.getLast?_replicate, if_neg hcount]
    simpa using hg
  · intro hnil
    exact absurd ((List.replicate_eq_nil_iff g).1 hnil) hcount

theorem encode_replicate (negative : Bool) (weight : Int) (scale count g : Nat)
    (hcount : count ≤ 32767) (hle : -32768 ≤ weight) (hge : weight ≤ 32767)
    (hscale : scale ≤ 0x3FFF) :
    (finite ⟨negative, weight, scale, List.replicate count g⟩).encode =
      .ok (finite ⟨negative, weight, scale, List.replicate count g⟩).wireForm := by
  have hlength : (List.replicate count g).length ≤ 32767 := by
    rw [List.length_replicate]
    exact hcount
  exact (encode_eq_ok_iff _ _).2 ⟨⟨hlength, hle, hge, hscale⟩, rfl⟩

/-- As many groups as are read, the last of them hidden. -/
theorem decode_of_encode_full :
    ∃ bytes : Bytes, encode (finite ⟨true, 1998, 0, List.replicate 2000 9999⟩) = .ok bytes ∧
      ∃ m, decode bytes = .ok m := by
  have hcanonical := canonical_replicate true 1998 0 2000 9999 (by decide) (by decide) (by decide)
  have hencode := encode_replicate true 1998 0 2000 9999 (by decide) (by decide) (by decide)
    (by decide)
  exact ⟨_, hencode, (decode_of_encode hcanonical hencode).1 List.length_replicate.le⟩

/-- **More can be sent than is read.**  A canonical decimal of 2001 groups has a wire form, and it
is refused. -/
theorem encode_longer_than_decode :
    (finite ⟨false, 2000, 0, List.replicate 2001 1⟩).Canonical ∧
    ∃ bytes : Bytes, encode (finite ⟨false, 2000, 0, List.replicate 2001 1⟩) = .ok bytes ∧
      ∀ m, decode bytes ≠ .ok m := by
  have hencode := encode_replicate false 2000 0 2001 1 (by decide) (by decide) (by decide)
    (by decide)
  have hlength : (finite ⟨false, 2000, 0, List.replicate 2001 1⟩).groups.length = 2001 :=
    List.length_replicate
  refine ⟨canonical_replicate false 2000 0 2001 1 (by decide) (by decide) (by decide), _, hencode,
    ?_⟩
  intro m hm
  rw [decode_wireForm_long ((encode_eq_ok_iff _ _).1 hencode).1 (by rw [hlength]; decide)] at hm
  cases hm

end Numeric

end SqlWire
