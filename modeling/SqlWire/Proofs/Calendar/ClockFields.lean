import Mathlib.Tactic
import SqlWire.Calendar.TimeOfDay

/-!
# The fields of a time of day

Hour, minute, second and microsecond are the digits of a number of microseconds, in a system of
mixed units.  Each of them is found on its own, by a division and a remainder, and together they
count the microseconds again (`micros_fields`).  As fields that are those of a time of day count no
number twice (`Fields.IsValid.eq_of_micros_eq`), a time has no other fields than the ones it was
made from.

The end of a day is the one number that is not less than a day and is kept all the same.
`clock_fields_exact` says what becomes of the others, in the fields and on the wire.
-/

namespace SqlWire

/-! ### Words that are exactly as long as their bytes -/

namespace Scalar

variable {α : Type} [Word α] {typeName : String} {bytes : Bytes} {x : α}

theorem exactly_eq_ok_iff {n : Nat} {exact : Bytes} :
    exactly typeName n bytes = .ok exact ↔ exact = bytes ∧ bytes.length = n := by
  unfold exactly
  dsimp only
  split_ifs with hshort hlong
  · exact iff_of_false nofun fun h => by omega
  · exact iff_of_false nofun fun h => by omega
  · rw [Except.ok.injEq, eq_comm]
    exact iff_self_and.2 fun _ => by omega

theorem decodeWord_eq_ok_iff : decodeWord α typeName bytes = .ok x ↔ bytes = Word.toBytes x := by
  rw [decodeWord, Except.map_eq_ok_iff]
  constructor
  · rintro ⟨exact, hexact, rfl⟩
    obtain ⟨rfl, hlength⟩ := exactly_eq_ok_iff.1 hexact
    exact (Word.toBytes_ofBytes hlength).symm
  · rintro rfl
    exact ⟨_, exactly_eq_ok (Word.length_toBytes x), Word.ofBytes_toBytes x⟩

end Scalar

namespace TimeOfDay

variable {f g : Fields} {t : TimeOfDay}

/-! ### Fields that are those of a time of day -/

namespace Fields

theorem isValid_iff : f.IsValid ↔ f.minute < 60 ∧ f.second < 60 ∧ f.micro < 1000000 ∧
    (f.hour < 24 ∨ f = ⟨24, 0, 0, 0⟩) := by
  obtain ⟨hour, minute, second, micro⟩ := f
  simp only [IsValid, microsPerSecond, Fields.mk.injEq]

theorem IsValid.micros_le (h : f.IsValid) : f.micros ≤ 86400000000 := by
  obtain ⟨hminute, hsecond, hmicro, hhour⟩ := h
  unfold micros microsPerSecond at *
  omega

/-- **Two times of day that count the same are the same.** -/
theorem IsValid.eq_of_micros_eq (hf : f.IsValid) (hg : g.IsValid) (h : f.micros = g.micros) :
    f = g := by
  obtain ⟨hour, minute, second, micro⟩ := f
  obtain ⟨hour', minute', second', micro'⟩ := g
  obtain ⟨hminute, hsecond, hmicro, -⟩ := hf
  obtain ⟨hminute', hsecond', hmicro', -⟩ := hg
  unfold micros microsPerSecond at *
  dsimp only at *
  -- the remainders are the last fields, and what is left are the others
  have hmicros : micro = micro' := by omega
  have hseconds : second = second' := by omega
  have hminutes : minute = minute' := by omega
  have hhours : hour = hour' := by omega
  rw [hmicros, hseconds, hminutes, hhours]

end Fields

/-! ### The fields of a number of microseconds -/

/-- The numbers of a day are kept, its end among them, and any other is wrapped into the day. -/
theorem dayMicros_eq (t : TimeOfDay) : (t.dayMicros : Int) =
    if 0 ≤ t.micros.toInt ∧ t.micros.toInt ≤ 86400000000 then t.micros.toInt
    else t.micros.toInt % 86400000000 := by
  have hday : (microsPerDay : Int) = 86400000000 := rfl
  unfold dayMicros
  rw [hday]
  by_cases hend : t.micros.toInt = 86400000000
  · rw [if_pos hend, if_pos (by omega), hend, hday]
  · rw [if_neg hend]
    split_ifs <;> omega

theorem dayMicros_le (t : TimeOfDay) :
    t.dayMicros < 86400000000 ∨ t.dayMicros = 86400000000 ∧ t.micros.toInt = 86400000000 := by
  have heq := t.dayMicros_eq
  split_ifs at heq <;> omega

/-- **The fields count the microseconds of the day.** -/
theorem micros_fields (t : TimeOfDay) : t.fields.micros = t.dayMicros := by
  unfold fields Fields.micros hour minute second micro microsPerSecond
  dsimp only
  omega

/-- **The fields of a time are those of a time of day.** -/
theorem isValid_fields (t : TimeOfDay) : t.fields.IsValid := by
  have hle := t.dayMicros_le
  unfold fields Fields.IsValid hour minute second micro microsPerSecond
  dsimp only
  omega

theorem hour_lt (t : TimeOfDay) :
    t.hour < 24 ∨ t.micros.toInt = 86400000000 ∧ t.fields = ⟨24, 0, 0, 0⟩ := by
  rcases t.dayMicros_le with hlt | ⟨heq, hend⟩
  · left
    unfold hour microsPerSecond
    omega
  · right
    refine ⟨hend, t.isValid_fields.eq_of_micros_eq (by decide) ?_⟩
    rw [micros_fields, heq]
    rfl

/-! ### Times from fields, and from bytes -/

/-- **A time is made from fields just if it lies within a day and they are its fields.** -/
theorem ofFields_eq_ok_iff : ofFields f = .ok t ↔ t.WithinDay ∧ t.fields = f := by
  have hday : (microsPerDay : Int) = 86400000000 := rfl
  constructor
  · intro h
    unfold ofFields at h
    split_ifs at h with hvalid
    cases h
    have hle := hvalid.micros_le
    have hmicros : (Int64.ofInt f.micros).toInt = f.micros :=
      Int64.toInt_ofInt_of_le (by omega) (by omega)
    have hwithin : WithinDay ⟨Int64.ofInt f.micros⟩ := by
      unfold WithinDay
      rw [hmicros, hday]
      omega
    have hcount := dayMicros_eq ⟨Int64.ofInt f.micros⟩
    rw [hmicros, if_pos (by omega)] at hcount
    refine ⟨hwithin, (isValid_fields _).eq_of_micros_eq hvalid ?_⟩
    rw [micros_fields]
    exact_mod_cast hcount
  · rintro ⟨hwithin, rfl⟩
    unfold WithinDay at hwithin
    rw [hday] at hwithin
    have hcount := t.dayMicros_eq
    rw [if_pos hwithin, ← micros_fields] at hcount
    rw [ofFields, if_pos t.isValid_fields, hcount, Int64.ofInt_toInt]

theorem exists_ofFields_iff : (∃ t, ofFields f = .ok t) ↔ f.IsValid := by
  unfold ofFields
  split_ifs with hvalid
  · exact iff_of_true ⟨_, rfl⟩ hvalid
  · exact iff_of_false nofun hvalid

theorem decode_eq_ok_iff {bytes : Bytes} :
    Scalar.decode bytes = .ok t ↔ t.WithinDay ∧ bytes = Word.toBytes t.micros := by
  show Scalar.decodeWord Int64 "time" bytes >>= checked "time" = .ok t ↔ _
  rw [Except.bind_eq_ok_iff]
  constructor
  · rintro ⟨micros, hmicros, hchecked⟩
    obtain ⟨rfl, hwithin⟩ := (checked_eq_ok_iff _ _ _).1 hchecked
    exact ⟨hwithin, Scalar.decodeWord_eq_ok_iff.1 hmicros⟩
  · rintro ⟨hwithin, hbytes⟩
    exact ⟨_, Scalar.decodeWord_eq_ok_iff.2 hbytes, (checked_eq_ok_iff _ _ _).2 ⟨rfl, hwithin⟩⟩

/-- **The fields of a time of day are exact.**  The fields of any number of microseconds are those
of a time of day, 24:00:00 only at the end of a day, and count the number itself, or what is left of
it after whole days if it does not lie within a day.  A time is made from the fields of a time of
day and from no others, has just these fields, and is read back from its bytes.  The eight bytes of
a number within a day are read as that number, and no other bytes are. -/
theorem clock_fields_exact :
    (∀ t : TimeOfDay, t.minute < 60 ∧ t.second < 60 ∧ t.micro < 1000000 ∧
      (t.hour < 24 ∨ t.micros.toInt = 86400000000 ∧ t.fields = ⟨24, 0, 0, 0⟩) ∧
      ((((t.hour * 60 + t.minute) * 60 + t.second) * 1000000 + t.micro : Nat) : Int) =
        if 0 ≤ t.micros.toInt ∧ t.micros.toInt ≤ 86400000000 then t.micros.toInt
        else t.micros.toInt % 86400000000) ∧
    (∀ f : Fields, ((∃ t, ofFields f = .ok t) ↔ f.minute < 60 ∧ f.second < 60 ∧
        f.micro < 1000000 ∧ (f.hour < 24 ∨ f = ⟨24, 0, 0, 0⟩)) ∧
      ∀ t, ofFields f = .ok t → t.fields = f ∧ Scalar.decode (Scalar.encode t) = .ok t) ∧
    ∀ (bytes : Bytes) (t : TimeOfDay), Scalar.decode bytes = .ok t ↔
      (0 ≤ t.micros.toInt ∧ t.micros.toInt ≤ 86400000000) ∧ bytes = Word.toBytes t.micros := by
  refine ⟨fun t => ?_, fun f => ⟨?_, fun t ht => ?_⟩, fun bytes t => decode_eq_ok_iff⟩
  · obtain ⟨hminute, hsecond, hmicro, -⟩ := t.isValid_fields
    refine ⟨hminute, hsecond, hmicro, t.hour_lt, ?_⟩
    rw [← dayMicros_eq, ← micros_fields]
    rfl
  · rw [exists_ofFields_iff, Fields.isValid_iff]
  · obtain ⟨hwithin, hfields⟩ := ofFields_eq_ok_iff.1 ht
    exact ⟨hfields, decode_eq_ok_iff.2 ⟨hwithin, rfl⟩⟩

/-- The last microsecond before midnight, counted back from it, and the end of a day. -/
theorem clock_fields_exact_about_midnight :
    fields ⟨-1⟩ = ⟨23, 59, 59, 999999⟩ ∧
    (∃ t, ofFields ⟨24, 0, 0, 0⟩ = .ok t ∧ t.micros = 86400000000 ∧
      t.fields = ⟨24, 0, 0, 0⟩ ∧ Scalar.decode (Scalar.encode t) = .ok t) ∧
    (¬ ∃ t, ofFields ⟨24, 0, 0, 1⟩ = .ok t) ∧
    ∀ t : TimeOfDay, Scalar.decode (Word.toBytes (-1 : Int64)) ≠ .ok t := by
  obtain ⟨-, hmade, hread⟩ := clock_fields_exact
  have hend : ofFields ⟨24, 0, 0, 0⟩ = .ok ⟨86400000000⟩ := by rfl
  obtain ⟨hfields, hdecode⟩ := (hmade ⟨24, 0, 0, 0⟩).2 _ hend
  refine ⟨by decide, ⟨_, hend, rfl, hfields, hdecode⟩, fun hpast => ?_, fun t ht => ?_⟩
  · exact absurd ((hmade ⟨24, 0, 0, 1⟩).1.1 hpast) (by decide)
  · obtain ⟨⟨hnonneg, -⟩, hbytes⟩ := (hread _ t).1 ht
    have hmicros : t.micros = -1 := by
      have hword := congrArg (Word.ofBytes Int64) hbytes
      rw [Word.ofBytes_toBytes, Word.ofBytes_toBytes] at hword
      exact hword.symm
    rw [hmicros] at hnonneg
    exact absurd hnonneg (by decide)

end TimeOfDay

end SqlWire
