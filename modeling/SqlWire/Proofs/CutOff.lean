import SqlWire.Proofs.Conservation

/-!
# Bytes that are cut off

A reader that comes to the end of its bytes says so: it fails for want of them (`LacksBytes`).
What was written is never read from a part of it.  A word is cut off in its middle, and so is a
value, whose length word is either cut off itself or promises more than there is
(`Nullable.lacksBytes_read`); a header and a column are words and values one after the other.

`Sequence.yields_of_cut` is the step from items to arrays and records: of items in a row, as many
as announced, those before the cut are given, and the one that is cut is found short.
`cut_off_is_noticed` says it of all that the builders finish.
-/

namespace SqlWire

-- powers are those of the core library, whatever else is in scope
attribute [local instance (2000)] instPowNat

/-- The bytes are some of the others from their beginning, but not all. -/
def CutFrom (cut bytes : Bytes) : Prop := cut <+: bytes ∧ cut ≠ bytes

/-- A failure for want of bytes. -/
def LacksBytes {α : Type} (result : Except Error α) : Prop :=
  ∃ context needed available, result = .error (.truncated context needed available) ∧
    available < needed

/-! ### Cuts -/

section

variable {cut first second : Bytes}

theorem CutFrom.length_lt (h : CutFrom cut first) : cut.length < first.length := by
  obtain ⟨hfront, hne⟩ := h
  exact lt_of_le_of_ne hfront.length_le fun hlength => hne (hfront.eq_of_length hlength)

theorem not_cutFrom_nil : ¬ CutFrom cut [] := fun h => Nat.not_lt_zero _ h.length_lt

/-- Where bytes are cut, either the first part of them is, or the second. -/
theorem CutFrom.of_append (h : CutFrom cut (first ++ second)) :
    CutFrom cut first ∨ ∃ tail, cut = first ++ tail ∧ CutFrom tail second := by
  obtain ⟨⟨missing, heq⟩, hne⟩ := h
  have hmissing : missing ≠ [] := by
    rintro rfl
    exact hne (cut.append_nil.symm.trans heq)
  rcases List.append_eq_append_iff.1 heq with ⟨more, rfl, rfl⟩ | ⟨tail, rfl, rfl⟩
  · by_cases hmore : more = []
    · -- a cut between the two parts is one in the second
      subst hmore
      exact .inr ⟨[], by rw [List.append_nil, List.append_nil], List.nil_prefix,
        fun hnil => hmissing hnil.symm⟩
    · exact .inl ⟨List.prefix_append _ _, fun hsame => hmore (List.self_eq_append_right.1 hsame)⟩
  · exact .inr ⟨tail, rfl, List.prefix_append _ _,
      fun hsame => hmissing (List.self_eq_append_right.1 hsame)⟩

end

/-! ### Failures -/

theorem LacksBytes.bind {α β : Type} {result : Except Error α} (h : LacksBytes result)
    (next : α → Except Error β) : LacksBytes (result >>= next) := by
  obtain ⟨context, needed, available, rfl, hlt⟩ := h
  exact ⟨context, needed, available, rfl, hlt⟩

theorem LacksBytes.after {α β : Type} {result : Except Error α} {a : α} {next : α → Except Error β}
    (hresult : result = .ok a) (h : LacksBytes (next a)) : LacksBytes (result >>= next) := by
  subst hresult
  exact h

theorem LacksBytes.map {α β : Type} {result : Except Error α} (h : LacksBytes result)
    (f : α → β) : LacksBytes (result.map f) := by
  obtain ⟨context, needed, available, rfl, hlt⟩ := h
  exact ⟨context, needed, available, rfl, hlt⟩

theorem LacksBytes.ne_ok {α : Type} {result : Except Error α} (h : LacksBytes result) (a : α) :
    result ≠ .ok a := by
  obtain ⟨context, needed, available, rfl, -⟩ := h
  exact nofun

/-! ### Words and values -/

section

variable {context : String} {position : Nat} {cut : Bytes}

theorem Reader.lacksBytes_take {n : Nat} (h : cut.length < n) :
    LacksBytes (Reader.take ⟨context, position, cut⟩ n) :=
  ⟨_, _, _, take_eq_error h, h⟩

theorem Reader.lacksBytes_read {α : Type} [Word α] {x : α} (h : CutFrom cut (Word.toBytes x)) :
    LacksBytes (Reader.read α ⟨context, position, cut⟩) := by
  have hlt := h.length_lt
  rw [Word.length_toBytes] at hlt
  exact (lacksBytes_take hlt).bind _

/-- **A value is not read from a part of it**: the length word is cut off, or what it promises. -/
theorem Nullable.lacksBytes_read {invalid : Int → Error} {value : Nullable} (hfits : value.Fits)
    (h : CutFrom cut value.encode) : LacksBytes (read invalid ⟨context, position, cut⟩) := by
  rcases h.of_append with hword | ⟨tail, rfl, htail⟩
  · exact (Reader.lacksBytes_read hword).bind _
  · cases value with
    | none => exact absurd htail not_cutFrom_nil
    | some bytes =>
      rw [read_lengthWord _ _ _ hfits]
      exact (Reader.lacksBytes_take htail.length_lt).map _

theorem ArrayItem.lacksBytes_decode {item : Nullable} (hfits : item.Fits)
    (h : CutFrom cut item.encode) : LacksBytes (decode cut) :=
  (Nullable.lacksBytes_read hfits h).bind _

theorem Column.lacksBytes_decode {c : Column} (hfits : c.data.Fits) (h : CutFrom cut c.encode) :
    LacksBytes (decode cut) := by
  rcases h.of_append with hoid | ⟨tail, rfl, hdata⟩
  · exact (Reader.lacksBytes_read hoid).bind _
  · rw [decode, Reader.start, Reader.read_append]
    exact (Nullable.lacksBytes_read hfits hdata).bind _

/-! ### Headers -/

namespace ArrayHeader

theorem lacksBytes_readDimensions {dims : List Dimension}
    (h : CutFrom cut (dims.flatMap fun d => Word.toBytes d.size ++ Word.toBytes d.lowerBound)) :
    LacksBytes (readDimensions dims.length ⟨context, position, cut⟩) := by
  induction dims generalizing position cut with
  | nil => exact absurd h not_cutFrom_nil
  | cons d dims ih =>
    rw [List.flatMap_cons, List.append_assoc] at h
    rw [List.length_cons, readDimensions]
    rcases h.of_append with hsize | ⟨tail, rfl, htail⟩
    · exact (Reader.lacksBytes_read hsize).bind _
    refine .after (Reader.read_append context position d.size tail) ?_
    rcases htail.of_append with hbound | ⟨tail, rfl, hdims⟩
    · exact (Reader.lacksBytes_read hbound).bind _
    refine .after (Reader.read_append context _ d.lowerBound tail) ?_
    exact (ih hdims).bind _

/-- **A header is not read from a part of it**, and before the cut nothing is wrong with it. -/
theorem lacksBytes_decode {header : ArrayHeader}
    (hflags : header.flags = 0 ∨ header.flags = hasNulls)
    (hle : header.dimensions.length ≤ Dimension.maxNumber) (h : CutFrom cut header.encode) :
    LacksBytes (decode cut) := by
  have hnumber : (Int32.ofNat header.dimensions.length).toInt = header.dimensions.length :=
    Int32.toInt_ofNat_of_lt (Nat.lt_of_le_of_lt hle (by decide))
  rw [encode, List.append_assoc, List.append_assoc] at h
  rcases h.of_append with hcut | ⟨tail, rfl, hflagsCut⟩
  · exact (Reader.lacksBytes_read hcut).bind _
  -- what has been read is right, so the reader comes to the cut and to no other failure
  refine .after (Reader.read_append _ _ _ tail) ?_
  dsimp only
  rw [hnumber, if_neg (by omega)]
  rcases hflagsCut.of_append with hcut | ⟨tail, rfl, helementCut⟩
  · exact (Reader.lacksBytes_read hcut).bind _
  refine .after (Reader.read_append _ _ _ tail) ?_
  dsimp only
  rw [if_neg (by rcases hflags with hf | hf <;> simp [hf])]
  rcases helementCut.of_append with hcut | ⟨tail, rfl, hdimsCut⟩
  · exact (Reader.lacksBytes_read hcut).bind _
  refine .after (Reader.read_append _ _ _ tail) ?_
  rw [Int.toNat_natCast]
  exact (lacksBytes_readDimensions hdimsCut).bind _

end ArrayHeader

end

/-! ### Items in a row -/

namespace Sequence

variable {α β : Type} {readItem : Bytes → Except Error (α × Bytes)} {encode : α → Bytes}
  {items : List α} {cut : Bytes}
  (hread : ∀ item ∈ items, ∀ rest, readItem (encode item ++ rest) = .ok (item, rest))
  (hlack : ∀ item ∈ items, ∀ cut, CutFrom cut (encode item) → LacksBytes (readItem cut))

include hread hlack

/-- **The items before the cut are given, and then the failure.**  By induction on the items: the
cut is in the first one, or it is in those behind it. -/
theorem yields_of_cut (h : CutFrom cut (items.flatMap encode)) :
    ∃ count result t, count < items.length ∧ LacksBytes result ∧
      Yields (next? readItem) ⟨items.length, cut⟩ ((items.take count).map .ok ++ [result]) t ∧
      t.remaining = 0 := by
  induction items generalizing cut with
  | nil => exact absurd h not_cutFrom_nil
  | cons item items ih =>
    obtain ⟨hitem, hitems⟩ := List.forall_mem_cons.1 hread
    obtain ⟨hitemLack, hitemsLack⟩ := List.forall_mem_cons.1 hlack
    rw [List.flatMap_cons] at h
    rcases h.of_append with hcut | ⟨tail, rfl, htail⟩
    · obtain ⟨context, needed, available, hfail, hlt⟩ := hitemLack cut hcut
      have hnext : next? readItem ⟨items.length + 1, cut⟩ =
          some (.error (.truncated context needed available), ⟨0, cut⟩) := by
        simp only [next?, hfail]
      exact ⟨0, _, _, Nat.succ_pos _, ⟨context, needed, available, rfl, hlt⟩,
        .next hnext (.refl _), rfl⟩
    · obtain ⟨count, result, t, hcount, hresult, hyields, hend⟩ := ih hitems hitemsLack htail
      have hnext : next? readItem ⟨items.length + 1, encode item ++ tail⟩ =
          some (.ok item, ⟨items.length, tail⟩) := by
        simp only [next?, hitem]
      exact ⟨count + 1, result, t, Nat.succ_lt_succ hcount, hresult, .next hnext hyields, hend⟩

/-- What is collected is never all, whatever is made of the items. -/
theorem collect_of_cut (f : α → Except Error β) (h : CutFrom cut (items.flatMap encode))
    (values : List β) : collect readItem f items.length cut ≠ .ok values := by
  induction items generalizing cut values with
  | nil => exact absurd h not_cutFrom_nil
  | cons item items ih =>
    obtain ⟨hitem, hitems⟩ := List.forall_mem_cons.1 hread
    obtain ⟨hitemLack, hitemsLack⟩ := List.forall_mem_cons.1 hlack
    rw [List.flatMap_cons] at h
    intro hcollect
    obtain ⟨⟨first, rest⟩, hfirst, hlater⟩ := Except.bind_eq_ok_iff.1 hcollect
    rcases h.of_append with hcut | ⟨tail, rfl, htail⟩
    · exact (hitemLack cut hcut).ne_ok _ hfirst
    · rw [hitem] at hfirst
      cases hfirst
      obtain ⟨value, -, hlater⟩ := Except.bind_eq_ok_iff.1 hlater
      obtain ⟨others, hothers, -⟩ := Except.bind_eq_ok_iff.1 hlater
      exact ih hitems hitemsLack htail others hothers

end Sequence

/-- What a decoder makes of all of the items: it gives them, and nothing more. -/
def ReadsWhole {σ α : Type} (started : Except Error σ) (next? : σ → Option (Except Error α × σ))
    (items : List α) : Prop :=
  ∃ d final, started = .ok d ∧ Yields next? d (items.map .ok) final ∧ next? final = none

/-- What a decoder makes of a part of some items: it finds at the start that bytes are lacking, or
it gives the first of the items, then a failure for want of bytes, and nothing more.  In no case are
there values in the end. -/
structure NoticesCut {σ α β : Type} (started : Except Error σ)
    (next? : σ → Option (Except Error α × σ)) (values : σ → Except Error β) (items : List α) :
    Prop where
  ends : LacksBytes started ∨ ∃ d count result final, started = .ok d ∧ count < items.length ∧
    LacksBytes result ∧ Yields next? d ((items.take count).map .ok ++ [result]) final ∧
    next? final = none
  values_ne : ∀ v, (started >>= values) ≠ .ok v

theorem NoticesCut.of_lacksBytes {σ α β : Type} {started : Except Error σ}
    {next? : σ → Option (Except Error α × σ)} {values : σ → Except Error β} {items : List α}
    (h : LacksBytes started) : NoticesCut started next? values items :=
  ⟨.inl h, (h.bind values).ne_ok⟩

/-! ### Decoders that hold a sequence -/

namespace Sequence

variable {σ α β : Type} {readItem : Bytes → Except Error (α × Bytes)} {encode : α → Bytes}
  {items : List α} {cut : Bytes} {hold : Sequence → σ} {step? : σ → Option (Except Error α × σ)}
  {values : σ → Except Error β}
  (hstep : ∀ s, step? (hold s) = (next? readItem s).map fun (result, s) => (result, hold s))
  (hread : ∀ item ∈ items, ∀ rest, readItem (encode item ++ rest) = .ok (item, rest))

include hstep hread

theorem readsWhole :
    ReadsWhole (.ok (hold ⟨items.length, items.flatMap encode⟩)) step? items := by
  obtain ⟨hyields, hend⟩ := yields_run readItem items.length (items.flatMap encode ++ [])
  rw [run_append hread, List.append_nil] at hyields
  rw [List.append_nil] at hend
  exact ⟨_, _, rfl, yields_hold hstep hyields, (hold_eq_none_iff hstep).2 hend⟩

theorem noticesCut
    (hlack : ∀ item ∈ items, ∀ cut, CutFrom cut (encode item) → LacksBytes (readItem cut))
    (h : CutFrom cut (items.flatMap encode))
    (hvalues : ∀ v, values (hold ⟨items.length, cut⟩) ≠ .ok v) :
    NoticesCut (.ok (hold ⟨items.length, cut⟩)) step? values items where
  ends := by
    obtain ⟨count, result, t, hlt, hresult, hyields, hend⟩ := yields_of_cut hread hlack h
    exact .inr ⟨_, count, result, _, rfl, hlt, hresult, yields_hold hstep hyields,
      (hold_eq_none_iff hstep).2 hend⟩
  values_ne := hvalues

end Sequence

/-! ### Arrays and records -/

theorem ArrayDecoder.readsWhole (header : ArrayHeader) {n : Nat} {items : List Nullable}
    (hflags : header.flags = 0 ∨ header.flags = ArrayHeader.hasNulls)
    (hdims : Dimension.check header.dimensions = .ok n)
    (hcount : items.length = header.elementCount) (hfits : ∀ item ∈ items, item.Fits) :
    ReadsWhole (start (header.encode ++ items.flatMap Nullable.encode)) next? items := by
  rw [start_header header hflags hdims, ← hcount]
  exact Sequence.readsWhole (next?_hold header) (ArrayItem.decode_append_of_mem hfits)

theorem ArrayDecoder.noticesCut (header : ArrayHeader) {n : Nat} {items : List Nullable}
    {cut : Bytes} (hflags : header.flags = 0 ∨ header.flags = ArrayHeader.hasNulls)
    (hdims : Dimension.check header.dimensions = .ok n)
    (hcount : items.length = header.elementCount) (hfits : ∀ item ∈ items, item.Fits)
    (h : CutFrom cut (header.encode ++ items.flatMap Nullable.encode)) :
    NoticesCut (start cut) next? values items := by
  rcases h.of_append with hcut | ⟨tail, rfl, htail⟩
  · have hheader := ArrayHeader.lacksBytes_decode hflags (ArrayHeader.length_le_of_check hdims) hcut
    exact .of_lacksBytes (hheader.bind _)
  have hread := ArrayItem.decode_append_of_mem hfits
  have hlack : ∀ item ∈ items, ∀ cut, CutFrom cut item.encode →
      LacksBytes (ArrayItem.decode cut) :=
    fun item hitem _ => ArrayItem.lacksBytes_decode (hfits item hitem)
  rw [start_header header hflags hdims, ← hcount]
  refine Sequence.noticesCut (next?_hold header) hread hlack htail fun v hvalues => ?_
  unfold values at hvalues
  cases htype : DataType.ofOid? header.element with
  | none =>
    simp only [htype] at hvalues
    cases hvalues
  | some t =>
    simp only [htype] at hvalues
    exact Sequence.collect_of_cut hread hlack _ htail v hvalues

theorem RecordDecoder.readsWhole {columns : List Column}
    (hcount : columns.length < 2 ^ (31 : Nat)) (hfits : ∀ c ∈ columns, c.data.Fits) :
    ReadsWhole (start (Word.toBytes (Int32.ofNat columns.length) ++ columns.flatMap Column.encode))
      next? columns := by
  rw [start_number hcount]
  exact Sequence.readsWhole (next?_hold columns.length) (Column.decode_append_of_mem hfits)

theorem RecordDecoder.noticesCut {columns : List Column} {cut : Bytes}
    (hcount : columns.length < 2 ^ (31 : Nat)) (hfits : ∀ c ∈ columns, c.data.Fits)
    (h : CutFrom cut
      (Word.toBytes (Int32.ofNat columns.length) ++ columns.flatMap Column.encode)) :
    NoticesCut (start cut) next? values columns := by
  rcases h.of_append with hcut | ⟨tail, rfl, htail⟩
  · exact .of_lacksBytes ((Reader.lacksBytes_read hcut).bind _)
  have hread := Column.decode_append_of_mem hfits
  have hlack : ∀ c ∈ columns, ∀ cut, CutFrom cut c.encode → LacksBytes (Column.decode cut) :=
    fun c hc _ => Column.lacksBytes_decode (hfits c hc)
  rw [start_number hcount]
  exact Sequence.noticesCut (next?_hold columns.length) hread hlack htail
    (Sequence.collect_of_cut hread hlack _ htail)

/-- **Data that is cut off is always noticed.**  Take any array that is finished after some calls,
of an acceptable header and with or without its flag, or any record, as long as its number of
columns fits the word for it.  Of all the bytes a decoder gives the elements or columns that were
pushed.  Of a part of them, whatever it is, a decoder gives the first of these, as they were pushed,
and then a failure for want of bytes, and nothing more; unless it finds at once that bytes are
lacking.  All values are never to be had. -/
theorem cut_off_is_noticed :
    (∀ (element : Oid) (dims : List Dimension) (length : Nat) (made : ArrayHeader) (flags : Int32)
      (calls : List ArrayBuilder.Call) (bytes : Bytes),
      ArrayHeader.make element dims = .ok made ∨
        ArrayHeader.oneDimensional element length = .ok made →
      flags = 0 ∨ flags = ArrayHeader.hasNulls →
      let b := ArrayBuilder.start { made with flags }
      (b.after calls).finish = .ok bytes →
      ReadsWhole (ArrayDecoder.start bytes) ArrayDecoder.next? (b.accepted calls) ∧
      ∀ cut, CutFrom cut bytes →
        NoticesCut (ArrayDecoder.start cut) ArrayDecoder.next? ArrayDecoder.values
          (b.accepted calls)) ∧
    ∀ calls : List RecordBuilder.Call,
      let b := RecordBuilder.empty
      b.successes calls < 2 ^ (31 : Nat) →
      ReadsWhole (RecordDecoder.start (b.after calls).finish) RecordDecoder.next?
        (b.accepted calls) ∧
      ∀ cut, CutFrom cut (b.after calls).finish →
        NoticesCut (RecordDecoder.start cut) RecordDecoder.next? RecordDecoder.values
          (b.accepted calls) := by
  constructor
  · intro element dims length made flags calls bytes hmade hflags b hbytes
    have hholds := ArrayBuilder.holds_after { made with flags } calls
    have hfull := hholds.finish_eq_ok_iff.1 ⟨bytes, hbytes⟩
    rw [hholds.finish_of_full hfull] at hbytes
    cases hbytes
    obtain ⟨n, hdims⟩ : ∃ n, Dimension.check made.dimensions = .ok n :=
      hmade.elim ArrayHeader.check_of_make ArrayHeader.check_of_oneDimensional
    have hsent := ArrayHeader.flagsFor_eq hflags (b.accepted calls)
    let header : ArrayHeader := { made with flags := ArrayHeader.flagsFor flags (b.accepted calls) }
    exact ⟨ArrayDecoder.readsWhole header hsent hdims hfull hholds.fits,
      fun cut => ArrayDecoder.noticesCut header hsent hdims hfull hholds.fits⟩
  · intro calls b hcount
    have hholds := RecordBuilder.holds_after calls
    rw [← RecordBuilder.length_accepted] at hcount
    rw [hholds.finish_eq]
    exact ⟨RecordDecoder.readsWhole hcount hholds.fits,
      fun cut => RecordDecoder.noticesCut hcount hholds.fits⟩

/-- An array that is cut in the length of its second element, and a record between two columns. -/
theorem cut_off_is_noticed_two :
    (∃ bytes, ((ArrayBuilder.start ⟨0, 17, [⟨2, 1⟩]⟩).after ArrayBuilder.mixedCalls).finish =
        .ok bytes ∧
      ReadsWhole (ArrayDecoder.start bytes) ArrayDecoder.next? [some [], none] ∧
      NoticesCut (ArrayDecoder.start (bytes.take 26)) ArrayDecoder.next? ArrayDecoder.values
        [some [], none]) ∧
    NoticesCut
      (RecordDecoder.start ((RecordBuilder.empty.after RecordBuilder.heavyFirst).finish.take 12))
      RecordDecoder.next? RecordDecoder.values
      [⟨25, none⟩, ⟨17, some []⟩, ⟨23, some [0, 0, 0, 7]⟩] := by
  obtain ⟨harrays, hrecords⟩ := cut_off_is_noticed
  constructor
  · have hmade : ArrayHeader.make 17 [⟨2, 1⟩] = .ok ⟨0, 17, [⟨2, 1⟩]⟩ := rfl
    have hbytes : ((ArrayBuilder.start ⟨0, 17, [⟨2, 1⟩]⟩).after ArrayBuilder.mixedCalls).finish =
      .ok [0, 0, 0, 1, 0, 0, 0, 1, 0, 0, 0, 17, 0, 0, 0, 2, 0, 0, 0, 1, 0, 0, 0, 0,
        255, 255, 255, 255] := rfl
    obtain ⟨hwhole, hcut⟩ :=
      harrays 17 [⟨2, 1⟩] 2 _ 0 ArrayBuilder.mixedCalls _ (.inl hmade) (.inl rfl) hbytes
    have hnotices := hcut _ ⟨List.take_prefix 26 _, by decide⟩
    rw [ArrayBuilder.accepted_mixedCalls] at hwhole hnotices
    exact ⟨_, hbytes, hwhole, hnotices⟩
  · have hcount : RecordBuilder.empty.successes RecordBuilder.heavyFirst < 2 ^ (31 : Nat) := by
      rw [RecordBuilder.successes_heavyFirst]
      decide
    obtain ⟨-, hcut⟩ := hrecords RecordBuilder.heavyFirst hcount
    have hnotices := hcut _
      ⟨List.take_prefix 12 _, fun hsame => absurd (congrArg List.length hsame) (by decide)⟩
    rwa [RecordBuilder.accepted_heavyFirst] at hnotices

/-- The word for the number of columns is zero again at 2^32 of them.  So when nothing but this word
is left of the record, a decoder finds nothing wrong with it. -/
theorem cut_off_is_noticed_runs_over :
    let calls := List.replicate (2 ^ (32 : Nat)) (RecordBuilder.Call.null 25)
    let b := RecordBuilder.empty
    CutFrom [0, 0, 0, 0] (b.after calls).finish ∧
    (RecordDecoder.start [0, 0, 0, 0] >>= RecordDecoder.values) = .ok [] ∧
    ¬ NoticesCut (RecordDecoder.start [0, 0, 0, 0]) RecordDecoder.next? RecordDecoder.values
      (b.accepted calls) := by
  intro calls b
  have hword : Word.toBytes (Int32.ofNat (2 ^ (32 : Nat))) = [0, 0, 0, 0] := rfl
  have hread : (RecordDecoder.start [0, 0, 0, 0] >>= RecordDecoder.values) = .ok [] := rfl
  have haccepted : b.accepted calls = List.replicate (2 ^ (32 : Nat)) ⟨25, none⟩ :=
    b.accepted_replicate_null 25 _
  have hfinish : (b.after calls).finish =
      [0, 0, 0, 0] ++ (b.accepted calls).flatMap Column.encode := by
    rw [(RecordBuilder.holds_after calls).finish_eq, RecordBuilder.length_accepted_replicate_null,
      hword]
  refine ⟨⟨⟨_, hfinish.symm⟩, fun hsame => ?_⟩, hread, fun hnotices => hnotices.values_ne [] hread⟩
  -- the first column takes up bytes behind the word
  rw [hfinish, List.self_eq_append_right, List.flatMap_eq_nil_iff] at hsame
  have hfirst : (⟨25, none⟩ : Column) ∈ b.accepted calls := by
    rw [haccepted]
    exact List.mem_replicate.2 ⟨by decide, rfl⟩
  exact absurd (hsame _ hfirst) (by decide)

end SqlWire
