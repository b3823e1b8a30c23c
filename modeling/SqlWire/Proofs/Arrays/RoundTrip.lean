import SqlWire.Arrays.Decoder
import SqlWire.Proofs.Arrays.Building

/-!
# Arrays are read back

An array is its header and then its elements, and a decoder gives just these
(`ArrayDecoder.start_encode`).  What a builder has in the end is such an array:
`overwrite_flags` says that setting the flag for missing elements late is no different from
having set it in the header at once.
-/

namespace SqlWire

namespace ArrayHeader

variable {header : ArrayHeader} {flags : Int32}

/-- The flags of an array with these elements. -/
def flagsFor (flags : Int32) (items : List Nullable) : Int32 :=
  if none ∈ items then flags ||| hasNulls else flags

theorem flagsFor_eq (h : flags = 0 ∨ flags = hasNulls) (items : List Nullable) :
    flagsFor flags items = 0 ∨ flagsFor flags items = hasNulls := by
  unfold flagsFor
  split
  · right
    rcases h with rfl | rfl <;> rfl
  · exact h

theorem overwrite_flags (h : ArrayHeader) (flags : Int32) (following : Bytes) :
    (h.encode ++ following).overwrite 4 (Word.toBytes flags) =
      { h with flags }.encode ++ following := by
  have hlength : (Word.toBytes h.flags).length = (Word.toBytes flags).length := by simp
  have hpatch := Bytes.overwrite_append (Word.toBytes (Int32.ofNat h.dimensions.length)) hlength
    (Word.toBytes h.element ++
      ((h.dimensions.flatMap fun d => Word.toBytes d.size ++ Word.toBytes d.lowerBound) ++
        following))
  rw [Word.length_toBytes] at hpatch
  simp only [encode, List.append_assoc]
  exact hpatch

theorem check_of_make {element : Oid} {dims : List Dimension}
    (h : make element dims = .ok header) : ∃ n, Dimension.check header.dimensions = .ok n := by
  unfold make at h
  split at h
  next n hn =>
    cases h
    exact ⟨n, hn⟩
  next => cases h

theorem check_of_oneDimensional {element : Oid} {length : Nat}
    (h : oneDimensional element length = .ok header) :
    ∃ n, Dimension.check header.dimensions = .ok n := by
  unfold oneDimensional at h
  split at h
  next => cases h
  next => exact check_of_make h

theorem of_oneDimensional_eq_ok {element : Oid} {length : Nat}
    (h : oneDimensional element length = .ok header) :
    header.flags = 0 ∧ header.element = element := by
  unfold oneDimensional make at h
  split at h
  · cases h
  · split at h
    · cases h
      exact ⟨rfl, rfl⟩
    · cases h

end ArrayHeader

theorem ArrayItem.decode_append_of_mem {items : List Nullable}
    (hfits : ∀ item ∈ items, item.Fits) :
    ∀ item ∈ items, ∀ rest, decode (item.encode ++ rest) = .ok (item, rest) :=
  fun item hitem rest => decode_append (hfits item hitem) rest

namespace ArrayDecoder

theorem start_header (header : ArrayHeader) {n : Nat}
    (hflags : header.flags = 0 ∨ header.flags = ArrayHeader.hasNulls)
    (hdims : Dimension.check header.dimensions = .ok n) (rest : Bytes) :
    start (header.encode ++ rest) = .ok ⟨header, header.elementCount, rest⟩ := by
  rw [start, ArrayHeader.decode_append hflags hdims]
  rfl

theorem start_append (header : ArrayHeader) {n : Nat} {items : List Nullable}
    (hflags : header.flags = 0 ∨ header.flags = ArrayHeader.hasNulls)
    (hdims : Dimension.check header.dimensions = .ok n)
    (hcount : items.length = header.elementCount) :
    start (header.encode ++ items.flatMap Nullable.encode) =
      .ok ⟨header, items.length, items.flatMap Nullable.encode ++ []⟩ := by
  rw [start_header header hflags hdims, List.append_nil, hcount]

/-- **A decoder reads a header and as many elements as it announces**, and nothing is left. -/
theorem start_encode (header : ArrayHeader) {n : Nat} {items : List Nullable}
    (hflags : header.flags = 0 ∨ header.flags = ArrayHeader.hasNulls)
    (hdims : Dimension.check header.dimensions = .ok n)
    (hcount : items.length = header.elementCount) (hfits : ∀ item ∈ items, item.Fits) :
    ∃ d, start (header.encode ++ items.flatMap Nullable.encode) = .ok d ∧ d.header = header ∧
      d.run.map (·.1) = items.map .ok ∧ d.left = ⟨0, []⟩ := by
  have hitems := ArrayItem.decode_append_of_mem hfits
  exact ⟨_, start_append header hflags hdims hcount, rfl, Sequence.run_append hitems [],
    Sequence.left_append hitems []⟩

theorem values_append (header : ArrayHeader) {t : DataType} {items : List Nullable}
    (htype : header.element = t.entry.oid) (hfits : ∀ item ∈ items, item.Fits) :
    values ⟨header, items.length, items.flatMap Nullable.encode ++ []⟩ =
      items.mapM (ArrayItem.value t) := by
  simp only [values, htype, DataType.ofOid?_oid]
  exact Sequence.collect_append (ArrayItem.decode_append_of_mem hfits) _ []

end ArrayDecoder

namespace ArrayBuilder

variable {header : ArrayHeader} {b : ArrayBuilder} {items : List Nullable}

theorem Holds.hasNulls_iff (h : Holds header b items) : b.hasNulls = true ↔ none ∈ items := by
  simp [h.hasNulls_eq]

theorem Holds.finish_of_full (h : Holds header b items)
    (hfull : items.length = header.elementCount) :
    b.finish = .ok ({ header with flags := ArrayHeader.flagsFor header.flags items }.encode ++
      items.flatMap Nullable.encode) := by
  have hwritten : b.written = b.expected := by
    rw [expected, h.header_eq, h.written_eq, hfull]
  rw [finish, if_pos hwritten]
  dsimp only
  by_cases hnull : none ∈ items
  · rw [if_pos (h.hasNulls_iff.2 hnull), h.buffer_eq, h.header_eq, ArrayHeader.overwrite_flags,
      ArrayHeader.flagsFor, if_pos hnull]
  · rw [if_neg (mt h.hasNulls_iff.1 hnull), h.buffer_eq, ArrayHeader.flagsFor, if_neg hnull]

theorem Holds.finish_of_not_full (h : Holds header b items)
    (hfull : items.length ≠ header.elementCount) : ∃ e, b.finish = .error e := by
  have hwritten : b.written ≠ b.expected := by
    rwa [expected, h.header_eq, h.written_eq]
  exact ⟨_, if_neg hwritten⟩

theorem Holds.finish_eq_ok_iff (h : Holds header b items) :
    (∃ bytes, b.finish = .ok bytes) ↔ items.length = header.elementCount := by
  constructor
  · rintro ⟨bytes, hbytes⟩
    by_contra hfull
    obtain ⟨e, he⟩ := h.finish_of_not_full hfull
    rw [he] at hbytes
    cases hbytes
  · intro hfull
    exact ⟨_, h.finish_of_full hfull⟩

/-- **What is built is read back.**  Take a header of acceptable dimensions and any run of calls,
in which an element that does not fit, has no wire form or is given up half-way leaves no trace.  A
call succeeds just if there is room and its element is one that can be had.  The array can be
finished just if as many calls succeeded as the header announces.  Its bytes are then a function of
the header and the elements of those calls, and a decoder gives the same element type and
dimensions, the flags with the one for missing elements if there are any, these elements in order,
and nothing after them. -/
theorem finish_round_trip {element : Oid} {dims : List Dimension} {length : Nat}
    {made : ArrayHeader} {flags : Int32}
    (hmade : ArrayHeader.make element dims = .ok made ∨
      ArrayHeader.oneDimensional element length = .ok made)
    (hflags : flags = 0 ∨ flags = ArrayHeader.hasNulls) (calls : List Call) :
    let header : ArrayHeader := { made with flags }
    let b := (start header).after calls
    let items := (start header).accepted calls
    (∀ c, (b.call c).1 = .ok () ↔ b.Takes (b.item? c)) ∧
    ((∃ bytes, b.finish = .ok bytes) ↔
      (start header).successes calls = header.elementCount) ∧
    ∀ bytes, b.finish = .ok bytes →
      bytes = { header with flags := ArrayHeader.flagsFor flags items }.encode ++
        items.flatMap Nullable.encode ∧
      ∃ d, ArrayDecoder.start bytes = .ok d ∧
        d.header.element = made.element ∧ d.header.dimensions = made.dimensions ∧
        d.header.flags = (if none ∈ items then flags ||| ArrayHeader.hasNulls else flags) ∧
        d.run.map (·.1) = items.map .ok ∧ d.left = ⟨0, []⟩ := by
  intro header b items
  have hholds : Holds header b items := holds_after header calls
  have hsuccesses : items.length = (start header).successes calls :=
    length_accepted header calls
  refine ⟨hholds.call_eq_ok_iff, hsuccesses ▸ hholds.finish_eq_ok_iff, fun bytes hbytes => ?_⟩
  have hfull := hholds.finish_eq_ok_iff.1 ⟨bytes, hbytes⟩
  rw [hholds.finish_of_full hfull] at hbytes
  cases hbytes
  obtain ⟨n, hdims⟩ : ∃ n, Dimension.check made.dimensions = .ok n :=
    hmade.elim ArrayHeader.check_of_make ArrayHeader.check_of_oneDimensional
  obtain ⟨d, hstart, hheader, hrun, hleft⟩ := ArrayDecoder.start_encode
    { header with flags := ArrayHeader.flagsFor flags items }
    (ArrayHeader.flagsFor_eq hflags items) hdims hfull hholds.fits
  exact ⟨rfl, d, hstart, by rw [hheader], by rw [hheader], by rw [hheader]; rfl, hrun, hleft⟩

/-- An element given up half-way, an empty one, a missing one, and one too many. -/
def mixedCalls : List Call :=
  [.write (fun _ => [1, 2]) (fun _ => .error (.transport "gave up")), .bytes [], .null, .bytes [3]]

theorem accepted_mixedCalls : (start ⟨0, 17, [⟨2, 1⟩]⟩).accepted mixedCalls = [some [], none] := rfl

theorem successes_mixedCalls : (start ⟨0, 17, [⟨2, 1⟩]⟩).successes mixedCalls = 2 := rfl

/-- An array of two elements, the second of them missing. -/
theorem finish_round_trip_two :
    (ArrayHeader.make 17 [⟨2, 1⟩] = .ok ⟨0, 17, [⟨2, 1⟩]⟩ ∨
      ArrayHeader.oneDimensional 17 2 = .ok ⟨0, 17, [⟨2, 1⟩]⟩) ∧
    ∃ bytes d, ((start ⟨0, 17, [⟨2, 1⟩]⟩).after mixedCalls).finish = .ok bytes ∧
      ArrayDecoder.start bytes = .ok d ∧ d.header.flags = ArrayHeader.hasNulls ∧
      d.run.map (·.1) = [.ok (some []), .ok none] ∧ d.left = ⟨0, []⟩ := by
  have hmade : ArrayHeader.make 17 [⟨2, 1⟩] = .ok ⟨0, 17, [⟨2, 1⟩]⟩ ∨
      ArrayHeader.oneDimensional 17 2 = .ok ⟨0, 17, [⟨2, 1⟩]⟩ := .inl rfl
  have hflags : (0 : Int32) = 0 ∨ (0 : Int32) = ArrayHeader.hasNulls := .inl rfl
  obtain ⟨-, hfinish, hbytes⟩ := finish_round_trip hmade hflags mixedCalls
  obtain ⟨bytes, hb⟩ := hfinish.2 successes_mixedCalls
  obtain ⟨-, d, hstart, -, -, hflags, hrun, hleft⟩ := hbytes bytes hb
  rw [accepted_mixedCalls] at hflags hrun
  exact ⟨hmade, bytes, d, hb, hstart, hflags, hrun, hleft⟩

end ArrayBuilder

end SqlWire
