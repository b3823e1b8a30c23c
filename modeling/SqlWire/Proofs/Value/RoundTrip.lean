import SqlWire.Proofs.Numeric.WireDecoding
import SqlWire.Value.Basic

/-!
# The values that travel unchanged

A value need not come back as it was sent: a text is cut off at its first zero character, a
time of day may lie outside the day, and a numeric may have digits that its display scale
hides.  `Value.Faithful` excludes just these.  A faithful value is read back from its own wire
form (`Value.Faithful.decode_encode`), and whatever is read is faithful
(`Value.faithful_of_decode`), so that what has been read once can be sent again and again
without any further change.
-/

namespace SqlWire

namespace Value

/-- The value comes back as it was sent: a text has no zero character, a time lies within the day,
its zone not too far from UTC, and a numeric is settled. -/
def Faithful : Value → Prop
  | name s | text s | bpchar s | varchar s => '\x00' ∉ s.toList
  | time t => t.WithinDay
  | timetz t => t.Acceptable
  | numeric n => n.Settled
  | _ => True

theorem decode_scalar {α : Type} [Scalar α] {ofScalar : α → Value} {t : DataType} {x : α}
    (hencode : (ofScalar x).encode = .ok (Scalar.encode x))
    (hdecode : ∀ bytes, decode t bytes = (Scalar.decode bytes).map ofScalar)
    (hback : Scalar.decode (Scalar.encode x) = .ok x) :
    ∃ bytes, (ofScalar x).encode = .ok bytes ∧ decode t bytes = .ok (ofScalar x) := by
  refine ⟨_, hencode, ?_⟩
  rw [hdecode, hback]
  rfl

theorem Faithful.decode_encode {v : Value} (h : v.Faithful) :
    ∃ bytes, v.encode = .ok bytes ∧ decode v.dataType bytes = .ok v := by
  cases v with
  | numeric n =>
    obtain ⟨bytes, hencode, hdecode⟩ := Numeric.Settled.decode_encode h
    refine ⟨bytes, hencode, ?_⟩
    rw [dataType, decode, hdecode]
    rfl
  | name s | text s | bpchar s | varchar s =>
    refine ⟨_, rfl, ?_⟩
    rw [dataType, decode, Bytes.decodeText_ofText h]
    rfl
  | bytea bytes => exact ⟨bytes, rfl, rfl⟩
  | bool b => exact decode_scalar rfl (fun _ => rfl) (by cases b <;> rfl)
  | bit b =>
    obtain ⟨isSet⟩ := b
    exact decode_scalar rfl (fun _ => rfl) (by cases isSet <;> rfl)
  | int8 n => exact decode_scalar rfl (fun _ => rfl) (Scalar.decodeWord_toBytes "bigint" n)
  | int2 n => exact decode_scalar rfl (fun _ => rfl) (Scalar.decodeWord_toBytes "smallint" n)
  | int4 n => exact decode_scalar rfl (fun _ => rfl) (Scalar.decodeWord_toBytes "integer" n)
  | oid n => exact decode_scalar rfl (fun _ => rfl) (Scalar.decodeWord_toBytes "oid" n)
  | float4 x => exact decode_scalar rfl (fun _ => rfl) (Scalar.decodeWord_toBytes "real" x)
  | float8 x =>
    exact decode_scalar rfl (fun _ => rfl) (Scalar.decodeWord_toBytes "double precision" x)
  | date d =>
    refine decode_scalar rfl (fun _ => rfl) ?_
    simp only [Scalar.decode, Scalar.encode, Scalar.decodeWord_toBytes]
    rfl
  | timestamp t | timestamptz t =>
    refine decode_scalar rfl (fun _ => rfl) ?_
    simp only [Scalar.decode, Scalar.encode, Scalar.decodeWord_toBytes]
    rfl
  | interval i => exact decode_scalar rfl (fun _ => rfl) i.decode_encode
  | time t =>
    refine decode_scalar rfl (fun _ => rfl) ?_
    simp only [Scalar.decode, Scalar.encode, Scalar.decodeWord_toBytes]
    exact (TimeOfDay.checked_eq_ok_iff "time" t.micros t).2 ⟨rfl, h⟩
  | timetz t => exact decode_scalar rfl (fun _ => rfl) (ZonedTime.decode_encode h)

theorem faithful_of_decode {t : DataType} {bytes : Bytes} {v : Value}
    (h : decode t bytes = .ok v) : v.dataType = t ∧ v.Faithful := by
  cases t with
  | bytea =>
    cases h
    exact ⟨rfl, trivial⟩
  | name | text | bpchar | varchar =>
    obtain ⟨s, hs, rfl⟩ := Except.map_eq_ok_iff.1 h
    exact ⟨rfl, Bytes.zero_not_mem_of_decodeText hs⟩
  | numeric =>
    obtain ⟨n, hn, rfl⟩ := Except.map_eq_ok_iff.1 h
    exact ⟨rfl, Numeric.settled_of_decode hn⟩
  | time =>
    obtain ⟨t, ht, rfl⟩ := Except.map_eq_ok_iff.1 h
    obtain ⟨micros, -, ht⟩ := Except.bind_eq_ok_iff.1 ht
    exact ⟨rfl, ((TimeOfDay.checked_eq_ok_iff _ _ _).1 ht).2⟩
  | timetz =>
    obtain ⟨t, ht, rfl⟩ := Except.map_eq_ok_iff.1 h
    exact ⟨rfl, ZonedTime.acceptable_of_decode ht⟩
  | _ =>
    obtain ⟨x, -, rfl⟩ := Except.map_eq_ok_iff.1 h
    exact ⟨rfl, trivial⟩

/-- **What is read is what travels unchanged.**  A faithful value has a wire form, and reading that
by the identifier of its type gives the value again, to the last bit of a floating-point number.
Bytes read as a value of a type, if they are read at all, give a faithful value of that type. -/
theorem decode_onto_faithful :
    (∀ v : Value, v.Faithful →
      ∃ bytes, v.encode = .ok bytes ∧ decodeOid v.typeOid bytes = .ok v) ∧
    ∀ (t : DataType) (bytes : Bytes) (v : Value), decode t bytes = .ok v →
      v.dataType = t ∧ v.Faithful := by
  refine ⟨?_, fun _ _ _ => faithful_of_decode⟩
  intro v h
  obtain ⟨bytes, hencode, hdecode⟩ := h.decode_encode
  refine ⟨bytes, hencode, ?_⟩
  rw [decodeOid, typeOid, DataType.ofOid?_oid]
  exact hdecode

/-- A zero in front, two hidden digits and a byte too many, all gone when it is sent again. -/
theorem decode_onto_faithful_padded :
    decode .numeric [0, 3, 0, 1, 64, 0, 0, 2, 0, 0, 0, 1, 9, 41, 7] =
      .ok (numeric (.finite ⟨true, 0, 2, [1, 2300]⟩)) ∧
    (numeric (.finite ⟨true, 0, 2, [1, 2300]⟩)).Faithful ∧
    ∃ again, (numeric (.finite ⟨true, 0, 2, [1, 2300]⟩)).encode = .ok again ∧
      decodeOid 1700 again = .ok (numeric (.finite ⟨true, 0, 2, [1, 2300]⟩)) := by
  have hread : decode .numeric [0, 3, 0, 1, 64, 0, 0, 2, 0, 0, 0, 1, 9, 41, 7] =
      .ok (numeric (.finite ⟨true, 0, 2, [1, 2300]⟩)) := by decide
  have hfaithful := (decode_onto_faithful.2 _ _ _ hread).2
  exact ⟨hread, hfaithful, decode_onto_faithful.1 _ hfaithful⟩

end Value

end SqlWire
