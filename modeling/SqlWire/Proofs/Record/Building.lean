import SqlWire.Proofs.Run
import SqlWire.Proofs.Value.Length
import SqlWire.Record.Builder

/-!
# What a record under construction holds

A push either adds one column (`added`), or it leaves the columns as they are and has at
most set the word for their number aside (`call_cases`).  The length that is written before
a value is that of its wire form, so what lies behind the set-aside word is always the
columns, one after the other (`Holds`), and `holds_after` says so of every run.
-/

namespace SqlWire

namespace RecordBuilder

/-! ### Calls -/

/-- What can be asked of a builder. -/
inductive Call where
  | null (oid : Oid)
  | bytes (oid : Oid) (raw : Bytes)
  | value (v : Value)

def call (b : RecordBuilder) : Call → Except Error Unit × RecordBuilder
  | .null oid => b.pushNull oid
  | .bytes oid raw => b.pushBytes oid raw
  | .value v => b.pushValue v

/-- The column that a call is to add.  There is none for a value without wire form. -/
def Call.column? : Call → Option Column
  | null oid => some ⟨oid, none⟩
  | bytes oid raw => some ⟨oid, some raw⟩
  | value v => v.encode.toOption.map fun bytes => ⟨v.typeOid, some bytes⟩

/-- There is a column to add, and it is not too long. -/
def Call.Encodable (c : Call) : Prop := ∃ column, c.column? = some column ∧ column.data.Fits

def after (b : RecordBuilder) (calls : List Call) : RecordBuilder := Run.after call b calls

/-- The columns that the calls of a run add. -/
def accepted (b : RecordBuilder) (calls : List Call) : List Column :=
  Run.accepted call (fun _ c => c.column?) b calls

def successes (b : RecordBuilder) (calls : List Call) : Nat := Run.successes call b calls

variable {b : RecordBuilder} {column : Column} {columns : List Column} {c : Call}

/-! ### The word that is set aside -/

@[simp] theorem columns_withPlace (b : RecordBuilder) : b.withPlace.columns = b.columns := by
  unfold withPlace
  split <;> rfl

theorem withPlace_of_ne (h : b.buffer ≠ []) : b.withPlace = b := if_neg h

theorem buffer_withPlace_ne (b : RecordBuilder) : b.withPlace.buffer ≠ [] := by
  by_cases h : b.buffer = []
  · rw [withPlace, if_pos h]
    apply List.ne_nil_of_length_pos
    rw [Word.length_toBytes]
    exact Nat.succ_pos 3
  · rwa [withPlace_of_ne h]

theorem withPlace_withPlace (b : RecordBuilder) : b.withPlace.withPlace = b.withPlace :=
  withPlace_of_ne b.buffer_withPlace_ne

theorem finish_withPlace (b : RecordBuilder) : b.withPlace.finish = b.finish := by
  rw [finish, withPlace_withPlace, columns_withPlace, ← finish]

/-! ### One column -/

def added (b : RecordBuilder) (column : Column) : RecordBuilder :=
  ⟨b.columns + 1, b.withPlace.buffer ++ column.encode⟩

theorem lengthWord_of_fits {bytes : Bytes} (h : Nullable.Fits (some bytes)) :
    lengthWord bytes.length = .ok (Nullable.lengthWord (some bytes)) :=
  Nullable.lengthWordOr_of_fits h

theorem lengthWord_of_not_fits {bytes : Bytes} (h : ¬ Nullable.Fits (some bytes)) :
    ∃ e, lengthWord bytes.length = .error e := ⟨_, Nullable.lengthWordOr_of_not_fits h⟩

theorem pushNull_eq (b : RecordBuilder) (oid : Oid) :
    b.pushNull oid = (.ok (), b.added ⟨oid, none⟩) := by
  simp [pushNull, withColumnHeader, added, Column.encode, Nullable.encode, Nullable.lengthWord]

theorem pushBytes_of_fits (oid : Oid) {raw : Bytes} (h : Nullable.Fits (some raw)) :
    b.pushBytes oid raw = (.ok (), b.added ⟨oid, some raw⟩) := by
  rw [pushBytes, lengthWord_of_fits h]
  simp [withColumnHeader, added, Column.encode, Nullable.encode]

theorem pushValue_of_fits {v : Value} {bytes : Bytes} (hform : v.encode = .ok bytes)
    (h : Nullable.Fits (some bytes)) :
    b.pushValue v = (.ok (), b.added ⟨v.typeOid, some bytes⟩) := by
  rw [pushValue, ← Value.length_of_encode hform, lengthWord_of_fits h, hform]
  simp [withColumnHeader, Bytes.appendForm, added, Column.encode, Nullable.encode]

/-- What a value without wire form has left in the buffer is cut off, but not the word that is set
aside. -/
theorem pushValue_of_error {v : Value} {e : Error} (hform : v.encode = .error e) :
    ∃ e' b', b.pushValue v = (.error e', b') ∧ (b' = b ∨ b' = b.withPlace) := by
  unfold pushValue
  cases lengthWord v.encodedLength with
  | error e' => exact ⟨e', b, rfl, .inl rfl⟩
  | ok length =>
    refine ⟨e, b.withPlace, ?_, .inr rfl⟩
    simp only [hform, Bytes.appendForm, withColumnHeader, List.take_left]

/-- **A push adds its column, or leaves the columns as they are.** -/
theorem call_cases (b : RecordBuilder) (c : Call) :
    (¬ c.Encodable ∧ ∃ e b', b.call c = (.error e, b') ∧ (b' = b ∨ b' = b.withPlace)) ∨
    ∃ column, c.column? = some column ∧ column.data.Fits ∧
      b.call c = (.ok (), b.added column) := by
  cases c with
  | null oid => exact .inr ⟨⟨oid, none⟩, rfl, nofun, b.pushNull_eq oid⟩
  | bytes oid raw =>
    by_cases hfits : Nullable.Fits (some raw)
    · exact .inr ⟨⟨oid, some raw⟩, rfl, hfits, pushBytes_of_fits oid hfits⟩
    · obtain ⟨e, hlong⟩ := lengthWord_of_not_fits hfits
      refine .inl ⟨?_, e, b, ?_, .inl rfl⟩
      · rintro ⟨column, ⟨rfl⟩, hcolumn⟩
        exact hfits hcolumn
      · show b.pushBytes oid raw = _
        rw [pushBytes, hlong]
  | value v =>
    cases hform : v.encode with
    | error e =>
      refine .inl ⟨?_, pushValue_of_error hform⟩
      rintro ⟨column, hcolumn, -⟩
      rw [Call.column?, hform] at hcolumn
      cases hcolumn
    | ok bytes =>
      have hcolumn : (Call.value v).column? = some ⟨v.typeOid, some bytes⟩ := by
        rw [Call.column?, hform]
        rfl
      by_cases hfits : Nullable.Fits (some bytes)
      · exact .inr ⟨_, hcolumn, hfits, pushValue_of_fits hform hfits⟩
      · obtain ⟨e, hlong⟩ := lengthWord_of_not_fits hfits
        refine .inl ⟨?_, e, b, ?_, .inl rfl⟩
        · rintro ⟨column, hother, hcolumnFits⟩
          rw [hcolumn] at hother
          cases hother
          exact hfits hcolumnFits
        · show b.pushValue v = _
          rw [pushValue, ← Value.length_of_encode hform, hlong]

theorem call_eq_ok_iff (b : RecordBuilder) (c : Call) : (b.call c).1 = .ok () ↔ c.Encodable := by
  rcases b.call_cases c with ⟨hnot, e, b', hrefused, -⟩ | ⟨column, hcolumn, hfits, htaken⟩
  · rw [hrefused]
    exact ⟨nofun, fun hencodable => absurd hencodable hnot⟩
  · rw [htaken]
    exact ⟨fun _ => ⟨column, hcolumn, hfits⟩, fun _ => rfl⟩

/-- **A push that is refused is not to be seen**, in the number of columns or in the record. -/
theorem call_of_error {e : Error} (h : (b.call c).1 = .error e) :
    (b.call c).2.columns = b.columns ∧ (b.call c).2.finish = b.finish := by
  rcases b.call_cases c with ⟨-, e', b', hrefused, hsame⟩ | ⟨column, -, -, htaken⟩
  · rw [hrefused]
    rcases hsame with rfl | rfl
    · exact ⟨rfl, rfl⟩
    · exact ⟨b.columns_withPlace, b.finish_withPlace⟩
  · rw [htaken] at h
    cases h

/-! ### Runs -/

/-- A builder that has just these columns. -/
structure Holds (b : RecordBuilder) (columns : List Column) : Prop where
  columns_eq : b.columns = Int32.ofNat columns.length
  buffer_eq : b.withPlace.buffer = Word.toBytes (0 : Int32) ++ columns.flatMap Column.encode
  fits : ∀ column ∈ columns, column.data.Fits

theorem holds_empty : Holds empty [] where
  columns_eq := rfl
  buffer_eq := (List.append_nil _).symm
  fits := nofun

theorem Holds.withPlace (h : Holds b columns) : Holds b.withPlace columns where
  columns_eq := b.columns_withPlace.trans h.columns_eq
  buffer_eq := by rw [withPlace_withPlace, h.buffer_eq]
  fits := h.fits

theorem Holds.added (h : Holds b columns) (hfits : column.data.Fits) :
    Holds (b.added column) (columns ++ [column]) where
  columns_eq := by
    show b.columns + 1 = _
    rw [h.columns_eq, List.length_append, List.length_singleton, Int32.ofNat_add]
    rfl
  buffer_eq := by
    have hne : (b.added column).buffer ≠ [] :=
      List.append_ne_nil_of_left_ne_nil b.buffer_withPlace_ne _
    rw [withPlace_of_ne hne, List.flatMap_append, List.flatMap_singleton, ← List.append_assoc,
      ← h.buffer_eq]
    rfl
  fits := by
    intro other hother
    rcases List.mem_append.1 hother with hbefore | hlast
    · exact h.fits other hbefore
    · rwa [List.mem_singleton.1 hlast]

theorem Holds.step (b : RecordBuilder) (columns : List Column) (c : Call) (h : Holds b columns) :
    Holds (b.call c).2
      (columns ++ Run.acceptedBy RecordBuilder.call (fun _ c => c.column?) b c) := by
  rcases b.call_cases c with ⟨-, e, b', hrefused, hsame⟩ | ⟨column, hcolumn, hfits, htaken⟩
  · rw [Run.acceptedBy_of_error hrefused, hrefused, List.append_nil]
    rcases hsame with rfl | rfl
    · exact h
    · exact h.withPlace
  · rw [Run.acceptedBy_of_ok htaken, htaken, hcolumn]
    exact h.added hfits

/-- **After any run the builder holds the columns of the pushes that succeeded.** -/
theorem holds_after (calls : List Call) : Holds (empty.after calls) (empty.accepted calls) :=
  Run.holds_after Holds.step holds_empty calls

theorem length_accepted (calls : List Call) :
    (empty.accepted calls).length = empty.successes calls := by
  apply Run.length_accepted Holds.step _ holds_empty calls
  intro b columns c b' _ htaken
  obtain ⟨column, hcolumn, -⟩ := (b.call_eq_ok_iff c).1 (congrArg Prod.fst htaken)
  rw [hcolumn]
  exact Option.some_ne_none column

/-! ### Missing columns only -/

theorem accepted_replicate_null (b : RecordBuilder) (oid : Oid) (n : Nat) :
    b.accepted (List.replicate n (.null oid)) = List.replicate n ⟨oid, none⟩ := by
  induction n generalizing b with
  | zero => rfl
  | succ n ih =>
    have htaken : b.call (.null oid) = (.ok (), b.added ⟨oid, none⟩) := b.pushNull_eq oid
    rw [List.replicate_succ, List.replicate_succ, accepted, Run.accepted,
      Run.acceptedBy_of_ok htaken, ← accepted, ih]
    rfl

theorem length_accepted_replicate_null (oid : Oid) (n : Nat) :
    (empty.accepted (List.replicate n (.null oid))).length = n := by
  rw [accepted_replicate_null, List.length_replicate]

theorem successes_replicate_null (oid : Oid) (n : Nat) :
    empty.successes (List.replicate n (.null oid)) = n := by
  rw [← length_accepted, length_accepted_replicate_null]

end RecordBuilder

end SqlWire
