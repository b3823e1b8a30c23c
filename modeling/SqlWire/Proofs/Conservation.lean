import SqlWire.Proofs.Arrays.RoundTrip
import SqlWire.Proofs.Iteration
import SqlWire.Proofs.Record.RoundTrip

/-!
# Decoding conserves its input

Arrays and records are sequences of items behind a header, and header and items are only
read where they were written (`ArrayHeader.of_decode_eq_ok`, `RecordDecoder.of_start_eq_ok`).
So a decoder accounts for every byte, even of input that nobody has written
(`ArrayDecoder.conserves`, `RecordDecoder.conserves`).  If it comes to the end without a
failure, then pushing what it has given into a builder makes the same bytes again; only the
flag for missing elements may have been left out of the input.
-/

namespace SqlWire

-- powers are those of the core library, whatever else is in scope
attribute [local instance (2000)] instPowNat

/-! ### Arrays -/

namespace ArrayBuilder

variable {header : ArrayHeader} {b : ArrayBuilder} {before items : List Nullable}

/-- The push of an element that has been read. -/
def Call.again : Nullable → Call
  | none => .null
  | some raw => .bytes raw

theorem item?_again (b : ArrayBuilder) (item : Nullable) : b.item? (.again item) = some item := by
  cases item <;> rfl

theorem Holds.accepted_again (h : Holds header b before)
    (hroom : before.length + items.length ≤ header.elementCount)
    (hfits : ∀ item ∈ items, item.Fits) : b.accepted (items.map .again) = items := by
  induction items generalizing b before with
  | nil => rfl
  | cons item items ih =>
    obtain ⟨hitem, hitems⟩ := List.forall_mem_cons.1 hfits
    rw [List.length_cons] at hroom
    have hlt : b.written < b.expected := by
      rw [expected, h.header_eq, h.written_eq]
      omega
    rcases h.call (.again item) with ⟨hnot, -⟩ | ⟨-, b', htaken, hnext⟩
    · exact absurd ⟨hlt, item, b.item?_again item, hitem⟩ hnot
    · rw [item?_again] at hnext
      rw [accepted, List.map_cons, Run.accepted, Run.acceptedBy_of_ok htaken, htaken, item?_again]
      refine congrArg (item :: ·) (ih hnext ?_ hitems)
      rw [List.length_append, Option.toList_some, List.length_singleton]
      omega

theorem finish_again (hcount : items.length = header.elementCount)
    (hfits : ∀ item ∈ items, item.Fits) :
    ((start header).after (items.map .again)).finish =
      .ok ({ header with flags := ArrayHeader.flagsFor header.flags items }.encode ++
        items.flatMap Nullable.encode) := by
  have hholds := holds_after header (items.map .again)
  rw [(holds_start header).accepted_again (by rw [List.length_nil]; omega) hfits] at hholds
  exact hholds.finish_of_full hcount

end ArrayBuilder

namespace ArrayDecoder

variable {bytes : Bytes} {d : ArrayDecoder}

theorem of_start_eq_ok (h : start bytes = .ok d) :
    bytes = d.header.encode ++ d.items.rest ∧ d.items.remaining = d.header.elementCount := by
  obtain ⟨⟨header, rest⟩, hheader, h⟩ := Except.bind_eq_ok_iff.1 h
  cases h
  exact ⟨(ArrayHeader.of_decode_eq_ok hheader).2.2, rfl⟩

theorem next?_hold (header : ArrayHeader) (s : Sequence) :
    next? ⟨header, s⟩ = (s.next? ArrayItem.decode).map fun (item, s) => (item, ⟨header, s⟩) := rfl

theorem conserves (h : start bytes = .ok d) :
    Conserves next? (·.items.rest) Nullable.encode 4 d.header.elementCount d := by
  rw [← (of_start_eq_ok h).2]
  apply Sequence.conserves_lift (next?_hold d.header) (fun _ => rfl) ArrayItem.of_decode_eq_ok
    (by decide)
  intro item
  rw [Nullable.length_encode]
  omega

theorem finish_again {items : List Nullable} {final : ArrayDecoder} (h : start bytes = .ok d)
    (hyields : Yields next? d (items.map .ok) final) (hend : next? final = none) :
    ∃ consumed, bytes = consumed ++ final.items.rest ∧
      ((ArrayBuilder.start d.header).after (items.map .again)).finish = .ok (if none ∈ items then
        consumed.overwrite 4 (Word.toBytes (d.header.flags ||| ArrayHeader.hasNulls))
        else consumed) := by
  obtain ⟨hbytes, hremaining⟩ := of_start_eq_ok h
  obtain ⟨t, rfl, hitems⟩ := Sequence.exists_of_yields_hold (next?_hold d.header) hyields
  have hzero := (Sequence.hold_eq_none_iff (next?_hold d.header)).1 hend
  obtain ⟨hfits, hrest, hcount⟩ := Sequence.of_yields_all ArrayItem.of_decode_eq_ok hitems hzero
  refine ⟨d.header.encode ++ items.flatMap Nullable.encode, ?_, ?_⟩
  · rw [hbytes, hrest, List.append_assoc]
  · rw [ArrayBuilder.finish_again (hcount.trans hremaining) hfits, ArrayHeader.flagsFor]
    split
    · rw [ArrayHeader.overwrite_flags]
    · rfl

end ArrayDecoder

/-! ### Records -/

namespace RecordBuilder

variable {columns : List Column}

/-- The push of a column that has been read. -/
def Call.again : Column → Call
  | ⟨oid, none⟩ => .null oid
  | ⟨oid, some raw⟩ => .bytes oid raw

theorem column?_again (c : Column) : (Call.again c).column? = some c := by
  obtain ⟨oid, _ | raw⟩ := c <;> rfl

theorem accepted_again (b : RecordBuilder) (hfits : ∀ c ∈ columns, c.data.Fits) :
    b.accepted (columns.map .again) = columns := by
  induction columns generalizing b with
  | nil => rfl
  | cons c columns ih =>
    obtain ⟨hc, hcolumns⟩ := List.forall_mem_cons.1 hfits
    rcases b.call_cases (.again c) with ⟨hnot, -⟩ | ⟨column, hcolumn, -, htaken⟩
    · exact absurd ⟨c, column?_again c, hc⟩ hnot
    · rw [accepted, List.map_cons, Run.accepted, Run.acceptedBy_of_ok htaken, column?_again]
      exact congrArg (c :: ·) (ih _ hcolumns)

theorem finish_again (hfits : ∀ c ∈ columns, c.data.Fits) :
    (empty.after (columns.map .again)).finish =
      Word.toBytes (Int32.ofNat columns.length) ++ columns.flatMap Column.encode := by
  have hholds := holds_after (columns.map .again)
  rw [accepted_again empty hfits] at hholds
  exact hholds.finish_eq

end RecordBuilder

namespace RecordDecoder

variable {bytes : Bytes} {d : RecordDecoder}

theorem of_start_eq_ok (h : start bytes = .ok d) :
    bytes = Word.toBytes (Int32.ofNat d.columns) ++ d.fields.rest ∧
      d.fields.remaining = d.columns := by
  obtain ⟨⟨number, r⟩, hnumber, h⟩ := Except.bind_eq_ok_iff.1 h
  have hbytes := Reader.rest_of_read hnumber
  by_cases hneg : number.toInt < 0
  · simp only [if_pos hneg] at h
    cases h
  · simp only [if_neg hneg] at h
    cases h
    have hword : Int32.ofNat number.toInt.toNat = number := by
      apply Int32.toInt_inj.1
      have hlt : number.toInt < 2 ^ (31 : Nat) := number.toInt_lt
      rw [Int32.toInt_ofNat_of_lt (by omega)]
      omega
    rw [hword]
    exact ⟨hbytes, rfl⟩

theorem next?_hold (columns : Nat) (s : Sequence) :
    next? ⟨columns, s⟩ = (s.next? Column.decode).map fun (c, s) => (c, ⟨columns, s⟩) := rfl

theorem conserves (h : start bytes = .ok d) :
    Conserves next? (·.fields.rest) Column.encode 8 d.columns d := by
  have hremaining := (of_start_eq_ok h).2
  rw [← hremaining]
  apply Sequence.conserves_lift (next?_hold d.columns) (fun _ => rfl) Column.of_decode_eq_ok
    (by decide)
  intro c
  rw [Column.encode, List.length_append, Word.length_toBytes, Nullable.length_encode,
    show Word.width Oid = 4 from rfl]
  omega

theorem finish_again {columns : List Column} {final : RecordDecoder} (h : start bytes = .ok d)
    (hyields : Yields next? d (columns.map .ok) final) (hend : next? final = none) :
    ∃ consumed, bytes = consumed ++ final.fields.rest ∧
      (RecordBuilder.empty.after (columns.map .again)).finish = consumed := by
  obtain ⟨hbytes, hremaining⟩ := of_start_eq_ok h
  obtain ⟨t, rfl, hcolumns⟩ := Sequence.exists_of_yields_hold (next?_hold d.columns) hyields
  have hzero := (Sequence.hold_eq_none_iff (next?_hold d.columns)).1 hend
  obtain ⟨hfits, hrest, hcount⟩ := Sequence.of_yields_all Column.of_decode_eq_ok hcolumns hzero
  refine ⟨_, ?_, RecordBuilder.finish_again hfits⟩
  rw [hbytes, hrest, hcount, hremaining, List.append_assoc]

end RecordDecoder

/-! ### Both -/

/-- **Decoding conserves its input, whatever bytes it is.**  The bytes behind a header that can be
read are those of the items that are given, and those that are left; a failure is the last result
there is, and without one there are as many items as announced.  What was decoded to the end is
built again from the bytes that were consumed, but the flag for missing elements is set if there
are any. -/
theorem decoding_conserves (bytes : Bytes) :
    (∀ d, ArrayDecoder.start bytes = .ok d →
      bytes = d.header.encode ++ d.items.rest ∧
      Conserves ArrayDecoder.next? (·.items.rest) Nullable.encode 4 d.header.elementCount d ∧
      ∀ (items : List Nullable) final, Yields ArrayDecoder.next? d (items.map .ok) final →
        ArrayDecoder.next? final = none → ∃ consumed, bytes = consumed ++ final.items.rest ∧
          ((ArrayBuilder.start d.header).after (items.map .again)).finish =
            .ok (if none ∈ items then
              consumed.overwrite 4 (Word.toBytes (d.header.flags ||| ArrayHeader.hasNulls))
              else consumed)) ∧
    (∀ d, RecordDecoder.start bytes = .ok d →
      bytes = Word.toBytes (Int32.ofNat d.columns) ++ d.fields.rest ∧
      Conserves RecordDecoder.next? (·.fields.rest) Column.encode 8 d.columns d ∧
      ∀ (columns : List Column) final, Yields RecordDecoder.next? d (columns.map .ok) final →
        RecordDecoder.next? final = none → ∃ consumed, bytes = consumed ++ final.fields.rest ∧
          (RecordBuilder.empty.after (columns.map .again)).finish = consumed) := by
  constructor
  · intro d hstart
    refine ⟨(ArrayDecoder.of_start_eq_ok hstart).1, ArrayDecoder.conserves hstart, ?_⟩
    intro items final hyields hend
    exact ArrayDecoder.finish_again hstart hyields hend
  · intro d hstart
    refine ⟨(RecordDecoder.of_start_eq_ok hstart).1, RecordDecoder.conserves hstart, ?_⟩
    intro columns final hyields hend
    exact RecordDecoder.finish_again hstart hyields hend

/-- An array of a missing element and another one, without the flag for it, and a byte behind it. -/
def unflagged : Bytes :=
  [0, 0, 0, 1, 0, 0, 0, 0, 0, 0, 0, 17, 0, 0, 0, 2, 0, 0, 0, 1, 255, 255, 255, 255, 0, 0, 0, 1, 5,
    170]

/-- A record that announces as many columns as there can be, and is cut off in the second. -/
def cutOff : Bytes := [127, 255, 255, 255, 0, 0, 0, 23, 0, 0, 0, 1, 9, 0, 0, 0]

/-- The flag is set in the array that is built again, and the record has two results at most. -/
theorem decoding_conserves_flag :
    (∃ d final, ArrayDecoder.start unflagged = .ok d ∧
      Yields ArrayDecoder.next? d [.ok none, .ok (some [5])] final ∧
      ArrayDecoder.next? final = none ∧
      ((ArrayBuilder.start d.header).after [.null, .bytes [5]]).finish =
        .ok (Bytes.overwrite (unflagged.take 29) 4 [0, 0, 0, 1])) ∧
    ∃ d, RecordDecoder.start cutOff = .ok d ∧ d.columns = 2147483647 ∧
      ∀ results s, Yields RecordDecoder.next? d results s → results.length ≤ 2 := by
  constructor
  · have hstart : ArrayDecoder.start unflagged =
        .ok ⟨⟨0, 17, [⟨2, 1⟩]⟩, 2, unflagged.drop 20⟩ := rfl
    have hyields : Yields ArrayDecoder.next? ⟨⟨0, 17, [⟨2, 1⟩]⟩, 2, unflagged.drop 20⟩
        ([none, some [5]].map .ok) ⟨⟨0, 17, [⟨2, 1⟩]⟩, 0, [170]⟩ :=
      .next rfl (.next rfl (.refl _))
    obtain ⟨-, -, hagain⟩ := (decoding_conserves unflagged).1 _ hstart
    obtain ⟨consumed, hbytes, hfinish⟩ := hagain _ _ hyields rfl
    have hconsumed : consumed = unflagged.take 29 :=
      List.append_cancel_right (hbytes.symm.trans (List.take_append_drop 29 unflagged).symm)
    rw [hconsumed, if_pos List.mem_cons_self] at hfinish
    exact ⟨_, _, hstart, hyields, rfl, hfinish⟩
  · have hstart : RecordDecoder.start cutOff = .ok ⟨2147483647, 2147483647, cutOff.drop 4⟩ := rfl
    obtain ⟨-, hconserves, -⟩ := (decoding_conserves cutOff).2 _ hstart
    refine ⟨_, hstart, rfl, ?_⟩
    intro results s hyields
    exact (hconserves.length_le results s hyields).trans (min_le_right _ _)

end SqlWire
