import SqlWire.Proofs.Arrays.RoundTrip
import SqlWire.Proofs.Copy.Rows
import SqlWire.Proofs.Params.Refusals
import SqlWire.Proofs.Value.RoundTrip

/-!
# Arrays sent as parameters and as fields

A list of values becomes an array in one place, `ArrayBuilder.encodeList`, and is sent from two:
a parameter list adds it with the type that the registry has for it, a writer of rows puts it as
a field.  `encodeList_eq_ok` says what the array is, and `start_encodeList` that the list is read
back.  `sent_alike` compares the two senders: they refuse the same lists, for the same reason, and
send the same bytes.
-/

namespace SqlWire

variable {t : DataType} {items : List (Option Value)} {bytes : Bytes}

/-! ### The array of a list -/

namespace Value

/-- The wire form of a value that may be missing. -/
def form : Option Value → Except Error Nullable
  | none => .ok none
  | some v => v.encode.map some

theorem value_of_form {item : Option Value} {bytes : Nullable} (hform : form item = .ok bytes)
    (hfaithful : ∀ v ∈ item, v.dataType = t ∧ v.Faithful) :
    ArrayItem.value t bytes = .ok item := by
  cases item with
  | none =>
    cases hform
    rfl
  | some v =>
    obtain ⟨rfl, hv⟩ := hfaithful v rfl
    obtain ⟨raw, hencode, hdecode⟩ := hv.decode_encode
    rw [form, hencode] at hform
    cases hform
    rw [ArrayItem.value, hdecode]
    rfl

theorem mapM_value_of_mapM_form {forms : List Nullable} (hforms : items.mapM form = .ok forms)
    (hfaithful : ∀ v, some v ∈ items → v.dataType = t ∧ v.Faithful) :
    forms.mapM (ArrayItem.value t) = .ok items := by
  induction items generalizing forms with
  | nil =>
    cases hforms
    rfl
  | cons item items ih =>
    rw [List.mapM_cons] at hforms
    obtain ⟨bytes, hitem, hforms⟩ := Except.bind_eq_ok_iff.1 hforms
    obtain ⟨others, hothers, hforms⟩ := Except.bind_eq_ok_iff.1 hforms
    cases hforms
    have hvalue := value_of_form hitem fun v hv =>
      hfaithful v (List.mem_cons.2 (.inl (Option.mem_def.1 hv).symm))
    rw [List.mapM_cons, hvalue, ih hothers fun v hv => hfaithful v (List.mem_cons_of_mem _ hv)]
    rfl

end Value

namespace ArrayBuilder

variable {header : ArrayHeader} {b b' : ArrayBuilder} {done : List Nullable}

theorem form_of_item? {item : Option Value} {bytes : Nullable}
    (h : b.item? (.optional item) = some bytes) : Value.form item = .ok bytes := by
  cases item with
  | none =>
    cases h
    rfl
  | some v =>
    simp only [item?, valueItem?] at h
    split at h
    · rw [Value.form]
      cases hencode : v.encode with
      | ok raw =>
        rw [hencode] at h
        cases h
        rfl
      | error e =>
        rw [hencode] at h
        cases h
    · cases h

theorem Holds.pushAll (h : Holds header b done) (hpush : b.pushAll items = .ok b') :
    ∃ forms, items.mapM Value.form = .ok forms ∧ Holds header b' (done ++ forms) := by
  induction items generalizing b done with
  | nil =>
    cases hpush
    exact ⟨[], rfl, (List.append_nil done).symm ▸ h⟩
  | cons item items ih =>
    rw [ArrayBuilder.pushAll] at hpush
    have hcall : Pushes header done b (b.item? (.optional item)) (b.pushOptional item) :=
      h.call (.optional item)
    rcases hcall with ⟨-, e, b₁, hrefused, -⟩ | ⟨⟨-, bytes, hitem, -⟩, b₁, htaken, hnext⟩
    · rw [hrefused] at hpush
      cases hpush
    · rw [htaken] at hpush
      rw [hitem, Option.toList_some] at hnext
      obtain ⟨forms, hforms, hall⟩ := ih hnext hpush
      refine ⟨bytes :: forms, ?_, ?_⟩
      · rw [List.mapM_cons, form_of_item? hitem, hforms]
        rfl
      · rwa [← List.append_cons] at hall

theorem encodeList_eq_ok (h : encodeList t items = .ok bytes) :
    ∃ header forms, ArrayHeader.oneDimensional t.entry.oid items.length = .ok header ∧
      items.mapM Value.form = .ok forms ∧ forms.length = header.elementCount ∧
      (∀ item ∈ forms, item.Fits) ∧
      bytes = { header with flags := ArrayHeader.flagsFor header.flags forms }.encode ++
        forms.flatMap Nullable.encode := by
  obtain ⟨header, hheader, h⟩ := Except.bind_eq_ok_iff.1 h
  obtain ⟨b, hpush, hfinish⟩ := Except.bind_eq_ok_iff.1 h
  obtain ⟨forms, hforms, hholds⟩ := (holds_start header).pushAll hpush
  rw [List.nil_append] at hholds
  have hfull := hholds.finish_eq_ok_iff.1 ⟨bytes, hfinish⟩
  rw [hholds.finish_of_full hfull] at hfinish
  exact ⟨header, forms, hheader, hforms, hfull, hholds.fits, (Except.ok.inj hfinish).symm⟩

end ArrayBuilder

/-- **A list of faithful values of one type is read back from its array.** -/
theorem ArrayDecoder.start_encodeList (h : ArrayBuilder.encodeList t items = .ok bytes)
    (hfaithful : ∀ v, some v ∈ items → v.dataType = t ∧ v.Faithful) :
    (start bytes >>= values) = .ok items := by
  obtain ⟨header, forms, hheader, hforms, hcount, hfits, rfl⟩ := ArrayBuilder.encodeList_eq_ok h
  obtain ⟨hflags, helement⟩ := ArrayHeader.of_oneDimensional_eq_ok hheader
  obtain ⟨n, hdims⟩ := ArrayHeader.check_of_oneDimensional hheader
  rw [start_append { header with flags := ArrayHeader.flagsFor header.flags forms }
    (ArrayHeader.flagsFor_eq (.inl hflags) forms) hdims hcount]
  exact (values_append _ helement hfits).trans (Value.mapM_value_of_mapM_form hforms hfaithful)

/-! ### Two senders -/

variable {l : ParameterList} {w : CopyWriter}

namespace ParameterList

theorem slice_nextEntry (l : ParameterList) (oid : Oid) (hfits : Nullable.Fits (some bytes)) :
    (l.nextEntry oid bytes).slice (l.payload ++ bytes) = some bytes := by
  have hlength : (Nullable.lengthWord (some bytes)).toInt = bytes.length :=
    Int32.toInt_ofNat_of_lt (hfits bytes rfl)
  have hrest : (l.nextEntry oid bytes).slice (l.payload ++ bytes) =
      some ((l.payload ++ bytes).drop l.payload.length) := by
    refine (Parameter.sound_of_rest rfl ?_ ?_).2
    · rw [List.length_append]
      exact Nat.le_add_right _ _
    · rw [List.length_append]
      exact hlength.trans (congrArg Nat.cast (Nat.add_sub_cancel_left _ _).symm)
  rw [hrest, List.drop_left]

theorem addEncoded_of_unlimited (hopen : l.isFinalized = false) (hlimit : l.limit = none)
    (oid : Oid) (hfits : Nullable.Fits (some bytes)) :
    ∃ l', l.addEncoded .all oid bytes = (.ok (), l') ∧ l'.size = l.size + 1 ∧
      l'.get? l.size = some (oid, some bytes) := by
  have hwithin : l.checkLimit bytes.length = .ok () := by
    rw [checkLimit, hlimit]
    rfl
  refine ⟨_, (addEncoded_of_open hopen hwithin rfl rfl oid).trans (if_pos hfits),
    List.length_append, ?_⟩
  have hlast : ((l.extended bytes).entered (l.nextEntry oid bytes)).entries[l.size]? =
      some (l.nextEntry oid bytes) := List.getElem?_concat_length
  rw [get?, hlast, Option.map_some]
  exact congrArg (fun value => some (oid, value)) (l.slice_nextEntry oid hfits)

end ParameterList

theorem CopyWriter.writeBytes_of_accepting (hframe : w.frame.closedBy? = none)
    (hroom : w.inRow < w.frame.columns)
    (haccepts : w.frame.sink.refusal = Sink.accepting.refusal)
    (hfits : Nullable.Fits (some bytes)) :
    ∃ w', w.writeBytes bytes = (.ok (), w') ∧ w'.inRow = w.inRow + 1 ∧
      w'.frame.output = w.frame.output ++
        ((if w.frame.openTuple?.isSome then [] else Bytes.bigEndian 2 w.frame.columns) ++
          CopyStream.fieldForm (some bytes)) := by
  obtain ⟨frame, hput, houtput⟩ := CopyFrame.put_of_accepting hframe haccepts hfits
  exact ⟨_, put_of_room hroom hput, rfl, houtput⟩

/-- **An array is the same whether it is sent as a parameter or as a field.**  Take any list of
values whose array is not too long, an open list of parameters without limit, and an open writer
with room in its row and a sink that refuses nothing.  The one takes the array just if the other
does, and both fail for the same reason.  If they take it, the parameter has the registry's type
for such arrays, and its bytes are those of the field.  If moreover the values are faithful and of
the type of the elements, the list is read back from these bytes. -/
theorem sent_alike (registry : Registry)
    (hlength : ∀ bytes, ArrayBuilder.encodeList t items = .ok bytes → bytes.length < 2 ^ 31)
    (hopen : l.isFinalized = false) (hlimit : l.limit = none)
    (hframe : w.frame.closedBy? = none) (hroom : w.inRow < w.frame.columns)
    (haccepts : w.frame.sink.refusal = Sink.accepting.refusal) :
    (l.addArray .all registry t items).1 = (w.writeArray registry t items).1 ∧
    ∀ l', l.addArray .all registry t items = (.ok (), l') → ∃ oid bytes w',
      registry.arrayOf? t.entry.oid = some oid ∧
      l'.size = l.size + 1 ∧ l'.get? l.size = some (oid, some bytes) ∧
      w.writeArray registry t items = (.ok (), w') ∧ w'.inRow = w.inRow + 1 ∧
      w'.frame.output = w.frame.output ++
        ((if w.frame.openTuple?.isSome then [] else Bytes.bigEndian 2 w.frame.columns) ++
          CopyStream.fieldForm (some bytes)) ∧
      ((∀ v, some v ∈ items → v.dataType = t ∧ v.Faithful) →
        (ArrayDecoder.start bytes >>= ArrayDecoder.values) = .ok items) := by
  cases hknown : registry.arrayOf? t.entry.oid with
  | none =>
    -- neither comes to look at the values
    have hrefused : registry.requireArrayOf t =
        .error (.invalidOperation ("no array type for " ++ t.entry.sqlName)) := by
      rw [Registry.requireArrayOf, hknown]
    rw [ParameterList.addArray, ParameterList.arrayForm, CopyWriter.writeArray, hrefused]
    refine ⟨rfl, fun l' hadded => ?_⟩
    cases hadded
  | some oid =>
    have hfound : registry.requireArrayOf t = .ok oid := by
      rw [Registry.requireArrayOf, hknown]
    cases hencode : ArrayBuilder.encodeList t items with
    | error e =>
      rw [ParameterList.addArray, ParameterList.arrayForm, CopyWriter.writeArray, hfound]
      simp only [bind, Except.bind, hencode, Grant.all]
      refine ⟨trivial, fun l' hadded => ?_⟩
      cases hadded
    | ok bytes =>
      have hfits : Nullable.Fits (some bytes) := by
        rintro _ ⟨rfl⟩
        exact hlength bytes hencode
      obtain ⟨l', hadd, hsize, hget⟩ :=
        ParameterList.addEncoded_of_unlimited hopen hlimit oid hfits
      obtain ⟨w', hwrite, hinRow, houtput⟩ :=
        CopyWriter.writeBytes_of_accepting hframe hroom haccepts hfits
      have hadded : l.addArray .all registry t items = (.ok (), l') := by
        rw [ParameterList.addArray, ParameterList.arrayForm, hfound]
        simp only [bind, Except.bind, hencode, Grant.all, pure, Except.pure]
        exact hadd
      have hwritten : w.writeArray registry t items = (.ok (), w') := by
        rw [CopyWriter.writeArray, hfound]
        simp only [bind, Except.bind, hencode]
        exact hwrite
      rw [hadded, hwritten]
      refine ⟨rfl, ?_⟩
      rintro _ ⟨⟩
      exact ⟨oid, bytes, w', rfl, hsize, hget, rfl, hinRow, houtput,
        ArrayDecoder.start_encodeList hencode⟩

/-- A number and a missing one, as the only parameter and as the first field of a stream. -/
theorem sent_alike_two :
    let items := [some (Value.int4 7), none]
    let w := CopyWriter.start ⟨2, 19, by decide, by decide⟩ .accepting
    (∀ bytes, ArrayBuilder.encodeList .int4 items = .ok bytes → bytes.length < 2 ^ 31) ∧
    ∃ l' w' bytes, (ParameterList.empty none).addArray .all .builtin .int4 items = (.ok (), l') ∧
      l'.get? 0 = some (1007, some bytes) ∧
      w.writeArray .builtin .int4 items = (.ok (), w') ∧
      w'.frame.output = CopyStream.header ++ ([0, 2] ++ CopyStream.fieldForm (some bytes)) ∧
      (ArrayDecoder.start bytes >>= ArrayDecoder.values) = .ok items := by
  intro items w
  have hencode : ArrayBuilder.encodeList .int4 items = .ok [0, 0, 0, 1, 0, 0, 0, 1, 0, 0, 0, 23,
      0, 0, 0, 2, 0, 0, 0, 1, 0, 0, 0, 4, 0, 0, 0, 7, 0xFF, 0xFF, 0xFF, 0xFF] := by decide
  have hlength : ∀ bytes, ArrayBuilder.encodeList .int4 items = .ok bytes →
      bytes.length < 2 ^ 31 := by
    intro bytes hbytes
    rw [hencode] at hbytes
    cases hbytes
    decide
  have hadded : ((ParameterList.empty none).addArray .all .builtin .int4 items).1 = .ok () := by
    decide
  have hfaithful : ∀ v, some v ∈ items → v.dataType = .int4 ∧ v.Faithful := by
    intro v hv
    obtain rfl : v = .int4 7 := by simpa [items] using hv
    exact ⟨rfl, trivial⟩
  have hcolumns : (if w.frame.openTuple?.isSome then [] else
      Bytes.bigEndian 2 w.frame.columns) = [0, 2] := by decide
  have harray : Registry.builtin.arrayOf? (DataType.entry .int4).oid = some 1007 := by decide
  obtain ⟨-, hsent⟩ := sent_alike (w := w) .builtin hlength (l := .empty none) rfl rfl rfl
    (by decide) rfl
  cases hresult : (ParameterList.empty none).addArray .all .builtin .int4 items with
  | mk outcome l' =>
    rw [hresult] at hadded
    cases hadded
    obtain ⟨oid, bytes, w', hoid, -, hget, hwritten, -, houtput, hread⟩ := hsent l' hresult
    rw [harray] at hoid
    cases hoid
    rw [hcolumns] at houtput
    exact ⟨hlength, l', w', bytes, rfl, hget, hwritten, houtput, hread hfaithful⟩

end SqlWire
