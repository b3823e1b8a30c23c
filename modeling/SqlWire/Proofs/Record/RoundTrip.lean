import SqlWire.Proofs.Record.Building
import SqlWire.Record.Decoder

/-!
# Records are read back

A record is the number of its columns and then the columns, and a decoder gives just these
(`RecordDecoder.start_encode`).  What a builder finishes is such a record, whatever pushes
were refused on the way.
-/

namespace SqlWire

-- powers are those of the core library, whatever else is in scope
attribute [local instance (2000)] instPowNat

theorem Column.decode_append_of_mem {columns : List Column} (hfits : ∀ c ∈ columns, c.data.Fits) :
    ∀ c ∈ columns, ∀ rest, decode (c.encode ++ rest) = .ok (c, rest) :=
  fun c hc rest => decode_append (hfits c hc) rest

theorem RecordDecoder.start_number {n : Nat} (hcount : n < 2 ^ (31 : Nat)) (rest : Bytes) :
    start (Word.toBytes (Int32.ofNat n) ++ rest) = .ok ⟨n, n, rest⟩ := by
  have hnumber : (Int32.ofNat n).toInt = n := Int32.toInt_ofNat_of_lt hcount
  rw [start, Reader.start, Reader.read_append]
  simp only [bind, Except.bind, hnumber]
  rw [if_neg (by omega), Int.toNat_natCast]
  rfl

theorem RecordDecoder.start_of_neg {word : Int32} (h : word.toInt < 0) (rest : Bytes) :
    start (Word.toBytes word ++ rest) =
      .error (.invalidBinary "record" s!"invalid number of columns {word.toInt}") := by
  rw [start, Reader.start, Reader.read_append]
  simp only [bind, Except.bind, if_pos h]
  rfl

/-- **A decoder reads a number of columns and that many columns**, and nothing is left. -/
theorem RecordDecoder.start_encode {columns : List Column}
    (hcount : columns.length < 2 ^ (31 : Nat)) (hfits : ∀ c ∈ columns, c.data.Fits) :
    ∃ d, start (Word.toBytes (Int32.ofNat columns.length) ++ columns.flatMap Column.encode) =
        .ok d ∧
      d.columns = columns.length ∧ d.run.map (·.1) = columns.map .ok ∧ d.left = ⟨0, []⟩ := by
  have hcolumn := Column.decode_append_of_mem hfits
  refine ⟨⟨columns.length, columns.length, columns.flatMap Column.encode ++ []⟩, ?_, rfl, ?_, ?_⟩
  · rw [start_number hcount, List.append_nil]
  · exact Sequence.run_append hcolumn []
  · exact Sequence.left_append hcolumn []

namespace RecordBuilder

variable {b : RecordBuilder} {columns : List Column}

/-- The number of columns takes the place of the word that was set aside. -/
theorem Holds.finish_eq (h : Holds b columns) :
    b.finish = Word.toBytes (Int32.ofNat columns.length) ++ columns.flatMap Column.encode := by
  have hlength : (Word.toBytes (0 : Int32)).length =
      (Word.toBytes (Int32.ofNat columns.length)).length := by simp
  rw [finish, h.buffer_eq, h.columns_eq]
  exact Bytes.overwrite_append [] hlength (columns.flatMap Column.encode)

theorem Holds.size_eq (h : Holds b columns) (hcount : columns.length < 2 ^ (31 : Nat)) :
    b.size = columns.length := by
  have hword : (columns.length : Int) ≤ Int32.maxValue.toInt := by
    rw [show Int32.maxValue.toInt = 2 ^ (31 : Nat) - 1 from rfl]
    omega
  rw [size, h.columns_eq, Int32.toInt64_ofNat' hword, Int64.toUInt64_ofNat',
    UInt64.toNat_ofNat_of_lt' (by rw [show UInt64.size = 2 ^ (64 : Nat) from rfl]; omega)]

/-- **A record is read back as the columns that were pushed.**  In any run of pushes, one succeeds
just if its value has a wire form and that is not too long, and one that is refused changes neither
the number of columns nor the record.  As long as the number of columns fits its word, it is the
number of successful pushes, and a decoder of the finished record gives as many columns, with the
types and bytes that were pushed, and nothing after them. -/
theorem record_round_trip (calls : List Call) :
    let b := empty.after calls
    let columns := empty.accepted calls
    (∀ c, (b.call c).1 = .ok () ↔ c.Encodable) ∧
    (∀ c e, (b.call c).1 = .error e →
      (b.call c).2.size = b.size ∧ (b.call c).2.finish = b.finish) ∧
    columns.length = empty.successes calls ∧
    (empty.successes calls < 2 ^ (31 : Nat) →
      b.size = empty.successes calls ∧
      ∃ d, RecordDecoder.start b.finish = .ok d ∧ d.columns = empty.successes calls ∧
        d.run.map (·.1) = columns.map .ok ∧ d.left = ⟨0, []⟩) := by
  intro b columns
  have hholds : Holds b columns := holds_after calls
  have hsuccesses : columns.length = empty.successes calls := length_accepted calls
  refine ⟨b.call_eq_ok_iff, ?_, hsuccesses, ?_⟩
  · intro c e he
    obtain ⟨hcolumns, hfinish⟩ := call_of_error he
    exact ⟨congrArg (fun n : Int32 => n.toInt64.toUInt64.toNat) hcolumns, hfinish⟩
  · rw [← hsuccesses]
    intro hcount
    obtain ⟨d, hstart, hd⟩ := RecordDecoder.start_encode hcount hholds.fits
    exact ⟨hholds.size_eq hcount, d, hholds.finish_eq ▸ hstart, hd⟩

/-- A value that is too heavy for its words, then a missing column and two others. -/
def heavyFirst : List Call :=
  [.value (.numeric (.finite ⟨false, 100000, 0, [1]⟩)), .null 25, .bytes 17 [], .value (.int4 7)]

theorem accepted_heavyFirst :
    empty.accepted heavyFirst = [⟨25, none⟩, ⟨17, some []⟩, ⟨23, some [0, 0, 0, 7]⟩] := rfl

theorem successes_heavyFirst : empty.successes heavyFirst = 3 := rfl

/-- Three columns are read back, the first of them missing and the second empty. -/
theorem record_round_trip_three :
    empty.successes heavyFirst < 2 ^ (31 : Nat) ∧ (empty.after heavyFirst).size = 3 ∧
    ∃ d, RecordDecoder.start (empty.after heavyFirst).finish = .ok d ∧ d.columns = 3 ∧
      d.run.map (·.1) = [.ok ⟨25, none⟩, .ok ⟨17, some []⟩, .ok ⟨23, some [0, 0, 0, 7]⟩] ∧
      d.left = ⟨0, []⟩ := by
  have hcount : empty.successes heavyFirst < 2 ^ (31 : Nat) := by
    rw [successes_heavyFirst]
    decide
  obtain ⟨-, -, -, hread⟩ := record_round_trip heavyFirst
  obtain ⟨hsize, d, hstart, hcolumns, hrun, hleft⟩ := hread hcount
  rw [successes_heavyFirst] at hsize hcolumns
  rw [accepted_heavyFirst] at hrun
  exact ⟨hcount, hsize, d, hstart, hcolumns, hrun, hleft⟩

/-- The word for the number of columns runs over at 2^31 of them.  Then the number that is told is
another one, and a decoder refuses the finished record. -/
theorem record_round_trip_runs_over :
    let calls := List.replicate (2 ^ (31 : Nat)) (Call.null 25)
    empty.successes calls = 2 ^ (31 : Nat) ∧
    (empty.after calls).size = 18446744071562067968 ∧
    RecordDecoder.start (empty.after calls).finish =
      .error (.invalidBinary "record" "invalid number of columns -2147483648") := by
  intro calls
  have hword : Int32.ofNat (2 ^ (31 : Nat)) = Int32.minValue := rfl
  have hholds : Holds (empty.after calls) (empty.accepted calls) := holds_after calls
  have hlength : (empty.accepted calls).length = 2 ^ (31 : Nat) :=
    length_accepted_replicate_null 25 _
  refine ⟨successes_replicate_null 25 _, ?_, ?_⟩
  · rw [size, hholds.columns_eq, hlength, hword]
    rfl
  · rw [hholds.finish_eq, hlength, hword, RecordDecoder.start_of_neg (by decide)]
    rfl

end RecordBuilder

end SqlWire
