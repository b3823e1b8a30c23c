import SqlWire.Copy.Writer
import SqlWire.Proofs.Copy.Occupancy
import SqlWire.Proofs.Run

/-!
# Rows into a sink that accepts everything

The writer counts the fields of a row and the frame counts those of a tuple, each on its
own.  `Keeps` is what ties them: the frame carries the fields of some complete rows and of
the row that is being written, and the writer has the numbers of both.  `Keeps.put`,
`Keeps.endRow` and `Keeps.finish` are the steps, and `call_cases` says that there are no
others.  A writer that is finished takes nothing (`Ended.call`).

`rows_written` is the result: a call that fails changes nothing, and a finished stream is
made of complete rows.
-/

namespace SqlWire

namespace CopyWriter

/-! ### Calls -/

def formField? (form : Except Error Bytes) : Option Nullable := form.toOption.map some

/-- The field that a call is to add: the wire form of its value.  There is none for a value without
wire form, and for a call that is no write. -/
def Call.field? : Call → Option Nullable
  | null => some none
  | scalar x => some (some (Scalar.encode x))
  | text s => some (some (Bytes.ofText s))
  | bytes raw => some (some raw)
  | numeric n => formField? n.encode
  | value v => formField? v.encode
  | optional none => some none
  | optional (some v) => formField? v.encode
  | array registry t items =>
    formField? (registry.requireArrayOf t >>= fun _ => ArrayBuilder.encodeList t items)
  | endRow | finish => none

/-- The call is one that the writer takes.  A row ends when it is full and the stream between two
rows; a field needs room in its row, and a wire form that is not too long. -/
def Admits (w : CopyWriter) : Call → Prop
  | .endRow => w.inRow = w.frame.columns
  | .finish => w.inRow = 0 ∧ w.frame.closedBy? = none
  | c => w.inRow < w.frame.columns ∧ w.frame.closedBy? = none ∧
    ∃ field, c.field? = some field ∧ field.Fits

def after (w : CopyWriter) (calls : List Call) : CopyWriter := Run.after call w calls

/-- The fields that the calls of a run add. -/
def accepted (w : CopyWriter) (calls : List Call) : List Nullable :=
  Run.accepted call (fun _ c => c.field?) w calls

variable {config : CopyConfig} {w : CopyWriter} {table : List (List Nullable)}
  {row : List Nullable}

/-! ### Writes -/

theorem put_of_full (hfull : ¬ w.inRow < w.frame.columns) (field : Nullable) :
    ∃ e, w.put field = (.error e, w) := by
  simp [put, checkRoom, hfull]

theorem put_of_room (hroom : w.inRow < w.frame.columns) {field : Nullable} {frame : CopyFrame}
    (hput : w.frame.put field = (.ok (), frame)) :
    w.put field = (.ok (), { w with frame, inRow := w.inRow + 1 }) := by
  simp [put, checkRoom, hroom, hput]

theorem put_of_refused (hroom : w.inRow < w.frame.columns) {field : Nullable} {e : Error}
    (hput : w.frame.put field = (.error e, w.frame)) : w.put field = (.error e, w) := by
  simp [put, checkRoom, hroom, hput]

theorem putForm_ok (w : CopyWriter) (bytes : Bytes) :
    w.putForm (.ok bytes) = w.put (some bytes) := by
  unfold putForm put
  cases w.checkRoom <;> rfl

theorem putForm_error (w : CopyWriter) (e : Error) :
    ∃ e', w.putForm (.error e) = (.error e', w) := by
  unfold putForm
  cases w.checkRoom with
  | error e' => exact ⟨e', rfl⟩
  | ok => exact ⟨e, rfl⟩

/-- What a call does that is to add a field: it puts the field, or fails for want of one. -/
def Writes (w : CopyWriter) (field? : Option Nullable) (r : Except Error Unit × CopyWriter) :
    Prop :=
  (∃ field, field? = some field ∧ r = w.put field) ∨
  (field? = none ∧ ∃ e, r = (.error e, w))

theorem writes_putForm (w : CopyWriter) (form : Except Error Bytes) :
    w.Writes (formField? form) (w.putForm form) := by
  cases form with
  | ok bytes => exact .inl ⟨some bytes, rfl, w.putForm_ok bytes⟩
  | error e => exact .inr ⟨rfl, w.putForm_error e⟩

theorem writes_writeArray (w : CopyWriter) (registry : Registry) (t : DataType)
    (items : List (Option Value)) :
    w.Writes (Call.array registry t items).field? (w.writeArray registry t items) := by
  simp only [Call.field?, writeArray]
  cases registry.requireArrayOf t >>= fun _ => ArrayBuilder.encodeList t items with
  | ok bytes => exact .inl ⟨some bytes, rfl, rfl⟩
  | error e => exact .inr ⟨rfl, e, rfl⟩

/-- **Every call ends the row, ends the stream, or puts one field.** -/
theorem call_cases (w : CopyWriter) (c : Call) :
    c = .endRow ∨ c = .finish ∨
    (w.Writes c.field? (w.call c) ∧
      (w.Admits c ↔ w.inRow < w.frame.columns ∧ w.frame.closedBy? = none ∧
        ∃ field, c.field? = some field ∧ field.Fits)) := by
  cases c with
  | endRow => exact .inl rfl
  | finish => exact .inr (.inl rfl)
  | null => exact .inr (.inr ⟨.inl ⟨none, rfl, rfl⟩, Iff.rfl⟩)
  | scalar x => exact .inr (.inr ⟨w.writes_putForm (.ok (Scalar.encode x)), Iff.rfl⟩)
  | text s => exact .inr (.inr ⟨.inl ⟨_, rfl, rfl⟩, Iff.rfl⟩)
  | bytes raw => exact .inr (.inr ⟨.inl ⟨_, rfl, rfl⟩, Iff.rfl⟩)
  | numeric n => exact .inr (.inr ⟨w.writes_putForm n.encode, Iff.rfl⟩)
  | value v => exact .inr (.inr ⟨w.writes_putForm v.encode, Iff.rfl⟩)
  | optional v =>
    cases v with
    | none => exact .inr (.inr ⟨.inl ⟨none, rfl, rfl⟩, Iff.rfl⟩)
    | some v => exact .inr (.inr ⟨w.writes_putForm v.encode, Iff.rfl⟩)
  | array registry t items => exact .inr (.inr ⟨w.writes_writeArray registry t items, Iff.rfl⟩)

/-! ### Open writers -/

/-- A writer whose stream is open and holds some complete rows and the fields of another one. -/
structure Keeps (config : CopyConfig) (w : CopyWriter) (table : List (List Nullable))
    (row : List Nullable) : Prop where
  config_eq : w.frame.config = config
  accepts : w.frame.sink.refusal = Sink.accepting.refusal
  carries : w.frame.Carries (table.flatten ++ row)
  rows_eq : table.length = w.rows
  inRow_eq : row.length = w.inRow
  inRow_le : w.inRow ≤ config.columns
  full : ∀ complete ∈ table, complete.length = config.columns

theorem keeps_start (config : CopyConfig) : Keeps config (start config .accepting) [] [] where
  config_eq := rfl
  accepts := rfl
  carries := CopyFrame.carries_start config _
  rows_eq := rfl
  inRow_eq := rfl
  inRow_le := Nat.zero_le _
  full := nofun

theorem Keeps.columns_eq (h : Keeps config w table row) : w.frame.columns = config.columns :=
  congrArg CopyConfig.columns h.config_eq

theorem Keeps.isOpen (h : Keeps config w table row) : w.frame.closedBy? = none :=
  CopyFrame.closedBy?_eq_none_iff.2 h.carries.active

theorem Keeps.put (h : Keeps config w table row) (field : Nullable) :
    (¬ (w.inRow < w.frame.columns ∧ field.Fits) ∧ ∃ e, w.put field = (.error e, w)) ∨
    ((w.inRow < w.frame.columns ∧ field.Fits) ∧
      ∃ w', w.put field = (.ok (), w') ∧ Keeps config w' table (row ++ [field])) := by
  by_cases hroom : w.inRow < w.frame.columns
  · rcases h.carries.put_accepting h.accepts field with
      ⟨hlong, hput⟩ | ⟨hfits, frame, hput, hconfig, haccepts, hcarries⟩
    · exact .inl ⟨fun hboth => hlong hboth.2, _, put_of_refused hroom hput⟩
    · refine .inr ⟨⟨hroom, hfits⟩, _, put_of_room hroom hput, ?_⟩
      exact {
        config_eq := hconfig.trans h.config_eq
        accepts := haccepts
        carries := by rw [← List.append_assoc]; exact hcarries
        rows_eq := h.rows_eq
        inRow_eq := by rw [List.length_append, h.inRow_eq]; rfl
        inRow_le := h.columns_eq ▸ hroom
        full := h.full }
  · exact .inl ⟨fun hboth => hroom hboth.1, put_of_full hroom field⟩

theorem Keeps.endRow (h : Keeps config w table row) :
    (w.inRow ≠ w.frame.columns ∧ w.endRow = (.error w.shortRow, w)) ∨
    (w.inRow = w.frame.columns ∧
      ∃ w', w.endRow = (.ok (), w') ∧ Keeps config w' (table ++ [row]) []) := by
  by_cases hfull : w.inRow = w.frame.columns
  · refine .inr ⟨hfull, { w with inRow := 0, rows := w.rows + 1 }, ?_, ?_⟩
    · rw [CopyWriter.endRow, if_pos hfull]
    · exact {
        config_eq := h.config_eq
        accepts := h.accepts
        carries := by
          rw [List.flatten_concat, List.append_nil]
          exact h.carries
        rows_eq := by rw [List.length_append, h.rows_eq]; rfl
        inRow_eq := rfl
        inRow_le := Nat.zero_le _
        full := by
          intro complete hmem
          rcases List.mem_append.1 hmem with hold | hlast
          · exact h.full complete hold
          · rw [List.mem_singleton.1 hlast, h.inRow_eq, hfull, h.columns_eq] }
  · exact .inl ⟨hfull, by rw [CopyWriter.endRow, if_neg hfull]⟩

theorem Keeps.finish (h : Keeps config w table row) :
    (w.inRow ≠ 0 ∧ w.finish = (.error w.shortRow, w)) ∨
    (w.inRow = 0 ∧ row = [] ∧ ∃ w', w.finish = (.ok (), w') ∧ w'.frame.phase = .finished ∧
      w'.inRow = 0 ∧ w'.rows = w.rows ∧
      w'.frame.sink.offered = w'.frame.sink.chunks.map .chunk ++ [.close] ∧
      w'.frame.sink.contents =
        CopyStream.header ++ table.flatMap (CopyStream.rowForm config.columns)) := by
  by_cases hzero : w.inRow = 0
  · have hrow : row = [] := List.length_eq_zero_iff.1 (h.inRow_eq.trans hzero)
    have hcarries := h.carries
    rw [hrow, List.append_nil] at hcarries
    have hfinish : ∃ w', w.finish = (.ok (), w') ∧ w' = { w with frame := { w.frame with
        buffer := []
        sink := (w.frame.sink.accept (.chunk w.frame.buffer)).accept .close
        position := none
        phase := .finished } } :=
      ⟨_, by rw [CopyWriter.finish, if_pos hzero, hcarries.finish_accepting h.accepts], rfl⟩
    obtain ⟨w', hw, rfl⟩ := hfinish
    refine .inr ⟨hzero, hrow, _, hw, rfl, hzero, rfl, ?_, ?_⟩
    · simp [hcarries.regular.offered_eq]
    · rw [Sink.contents, Sink.chunks_accept_close, ← Sink.contents, Sink.contents_accept_chunk,
        ← CopyFrame.output, hcarries.output_eq, h.columns_eq,
        CopyStream.form_flatten config.columns_pos h.full]
  · exact .inl ⟨hzero, by rw [CopyWriter.finish, if_neg hzero]⟩

/-! ### Finished writers -/

/-- The stream is finished, which it can only be between two rows. -/
structure Ended (w : CopyWriter) : Prop where
  phase_eq : w.frame.phase = .finished
  inRow_eq : w.inRow = 0

theorem Ended.closedBy?_eq (h : w.Ended) : w.frame.closedBy? = some .streamFinished := by
  simp [CopyFrame.closedBy?, h.phase_eq]

theorem Ended.inRow_lt (h : w.Ended) : w.inRow < w.frame.columns :=
  h.inRow_eq ▸ w.frame.config.columns_pos

theorem Ended.call (h : w.Ended) (c : Call) : ¬ w.Admits c ∧ ∃ e, w.call c = (.error e, w) := by
  have hclosed := h.closedBy?_eq
  rcases w.call_cases c with rfl | rfl | ⟨hwrites, hadmits⟩
  · refine ⟨fun hfull => h.inRow_lt.ne hfull, w.shortRow, ?_⟩
    rw [CopyWriter.call, CopyWriter.endRow, if_neg h.inRow_lt.ne]
  · constructor
    · rintro ⟨-, hopen⟩
      rw [hclosed] at hopen
      cases hopen
    · refine ⟨.streamFinished, ?_⟩
      rw [CopyWriter.call, CopyWriter.finish, if_pos h.inRow_eq, CopyFrame.finish, hclosed]
  · constructor
    · intro hadmitted
      have hopen := (hadmits.1 hadmitted).2.1
      rw [hclosed] at hopen
      cases hopen
    · rcases hwrites with ⟨field, -, hput⟩ | ⟨-, hfails⟩
      · refine ⟨.streamFinished, hput.trans (put_of_refused h.inRow_lt ?_)⟩
        rw [CopyFrame.put, hclosed]
      · exact hfails

/-! ### Runs -/

/-- A writer that has added some fields to its stream, as far as the stream is still open. -/
def Holds (config : CopyConfig) (w : CopyWriter) (fields : List Nullable) : Prop :=
  (∃ table row, Keeps config w table row ∧ table.flatten ++ row = fields) ∨ w.Ended

/-- **What a call does to an open writer.**  It is refused, and nothing changes; or it is taken. -/
theorem Keeps.call (h : Keeps config w table row) (c : Call) :
    (¬ w.Admits c ∧ ∃ e, w.call c = (.error e, w)) ∨
    (w.Admits c ∧ ∃ w', w.call c = (.ok (), w') ∧
      Holds config w' (table.flatten ++ row ++ c.field?.toList)) := by
  rcases w.call_cases c with rfl | rfl | ⟨hwrites, hadmits⟩
  · rcases h.endRow with ⟨hshort, hrefused⟩ | ⟨hfull, w', hended, hnext⟩
    · exact .inl ⟨hshort, _, hrefused⟩
    · refine .inr ⟨hfull, w', hended, .inl ⟨_, _, hnext, ?_⟩⟩
      simp [Call.field?]
  · rcases h.finish with ⟨hpartial, hrefused⟩ | ⟨hzero, -, w', hfinish, hphase, hzero', -⟩
    · exact .inl ⟨fun hadmitted => hpartial hadmitted.1, _, hrefused⟩
    · exact .inr ⟨⟨hzero, h.isOpen⟩, w', hfinish, .inr ⟨hphase, hzero'⟩⟩
  · rcases hwrites with ⟨field, hfield, hput⟩ | ⟨hnone, hfails⟩
    · have hiff : w.Admits c ↔ w.inRow < w.frame.columns ∧ field.Fits := by
        rw [hadmits, hfield]
        simp [h.isOpen]
      rcases h.put field with ⟨hbad, e, hrefused⟩ | ⟨hgood, w', htaken, hnext⟩
      · exact .inl ⟨fun hadmitted => hbad (hiff.1 hadmitted), e, hput.trans hrefused⟩
      · refine .inr ⟨hiff.2 hgood, w', hput.trans htaken, .inl ⟨_, _, hnext, ?_⟩⟩
        rw [hfield, Option.toList_some, List.append_assoc]
    · refine .inl ⟨fun hadmitted => ?_, hfails⟩
      obtain ⟨-, -, field, hfield, -⟩ := hadmits.1 hadmitted
      rw [hnone] at hfield
      cases hfield

theorem Holds.call {fields : List Nullable} (h : Holds config w fields) (c : Call) :
    (¬ w.Admits c ∧ ∃ e, w.call c = (.error e, w)) ∨
    (w.Admits c ∧ ∃ w', w.call c = (.ok (), w') ∧
      Holds config w' (fields ++ c.field?.toList)) := by
  rcases h with ⟨table, row, hkeeps, rfl⟩ | hended
  · exact hkeeps.call c
  · exact .inl (hended.call c)

theorem Holds.call_eq_ok_iff {fields : List Nullable} (h : Holds config w fields) (c : Call) :
    (w.call c).1 = .ok () ↔ w.Admits c := by
  rcases h.call c with ⟨hnot, e, hrefused⟩ | ⟨hadmitted, w', htaken, -⟩
  · rw [hrefused]
    exact ⟨nofun, fun hadmitted => absurd hadmitted hnot⟩
  · rw [htaken]
    exact ⟨fun _ => hadmitted, fun _ => rfl⟩

theorem Holds.call_of_error {fields : List Nullable} (h : Holds config w fields) (c : Call)
    (e : Error) (he : (w.call c).1 = .error e) : (w.call c).2 = w := by
  rcases h.call c with ⟨-, e', hrefused⟩ | ⟨-, w', htaken, -⟩
  · rw [hrefused]
  · rw [htaken] at he
    cases he

theorem Holds.step (w : CopyWriter) (fields : List Nullable) (c : Call)
    (h : Holds config w fields) :
    Holds config (w.call c).2
      (fields ++ Run.acceptedBy CopyWriter.call (fun _ c => c.field?) w c) := by
  rcases h.call c with ⟨-, e, hrefused⟩ | ⟨-, w', htaken, hnext⟩
  · rw [Run.acceptedBy_of_error hrefused, hrefused, List.append_nil]
    exact h
  · rw [Run.acceptedBy_of_ok htaken, htaken]
    exact hnext

theorem holds_after (config : CopyConfig) (calls : List Call) :
    Holds config ((start config .accepting).after calls)
      ((start config .accepting).accepted calls) :=
  Run.holds_after Holds.step (.inl ⟨[], [], keeps_start config, rfl⟩) calls

/-- **The writer emits exactly its accepted rows.**  After any calls, a call succeeds just if it is
one that the writer takes, and one that fails leaves all of the writer as it is.  When the stream
can be finished, the sink has the header and then the complete rows, each with its number of columns
and that many fields; all of them together are the fields of the calls that succeeded. -/
theorem rows_written (config : CopyConfig) (calls : List Call) :
    let w := (start config .accepting).after calls
    (∀ c, (w.call c).1 = .ok () ↔ w.Admits c) ∧
    (∀ c e, (w.call c).1 = .error e → (w.call c).2 = w) ∧
    ∀ g, w.finish = (.ok (), g) → ∃ table : List (List Nullable),
      table.flatten = (start config .accepting).accepted calls ∧
      table.length = g.rows ∧
      (∀ row ∈ table, row.length = config.columns) ∧
      g.frame.sink.offered = g.frame.sink.chunks.map .chunk ++ [.close] ∧
      g.frame.sink.chunks.flatten =
        CopyStream.header ++ table.flatMap (CopyStream.rowForm config.columns) := by
  intro w
  have hholds : Holds config w _ := holds_after config calls
  refine ⟨hholds.call_eq_ok_iff, hholds.call_of_error, fun g hg => ?_⟩
  rcases hholds with ⟨table, row, hkeeps, hfields⟩ | hended
  · rcases hkeeps.finish with ⟨-, hrefused⟩ |
      ⟨-, rfl, w', hfinish, -, -, hrows, hoffered, hcontents⟩
    · rw [hrefused] at hg
      cases hg
    · rw [hfinish] at hg
      cases hg
      rw [List.append_nil] at hfields
      exact ⟨table, hfields, hkeeps.rows_eq.trans hrows.symm, hkeeps.full, hoffered, hcontents⟩
  · obtain ⟨-, e, hrefused⟩ := hended.call .finish
    rw [call, hg] at hrefused
    cases hrefused

/-- A writer of one column, with a missing field in its first row. -/
def nullWritten (config : CopyConfig) : CopyWriter :=
  ⟨⟨config, .accepting, CopyStream.header ++ [0, 1, 0xFF, 0xFF, 0xFF, 0xFF], some 1, .active, 0⟩,
    1, 0⟩

theorem call_null_start :
    (start ⟨1, 64, by decide, by decide⟩ .accepting).call .null =
      (.ok (), nullWritten ⟨1, 64, by decide, by decide⟩) := by
  have hput : (CopyFrame.start ⟨1, 64, by decide, by decide⟩ .accepting).put none =
      (.ok (), (nullWritten ⟨1, 64, by decide, by decide⟩).frame) :=
    CopyFrame.put_eq_of_putWithin (show CopyFrame.putWithin 1 _ _ = some _ from rfl)
  have hroom : (start ⟨1, 64, by decide, by decide⟩ .accepting).inRow < 1 := Nat.one_pos
  exact put_of_room hroom hput

/-- One column: a missing field, one field too many, and the end of the row. -/
theorem rows_written_one :
    let w := (start ⟨1, 64, by decide, by decide⟩ .accepting).after [.null, .bytes [7], .endRow]
    ∃ g, w.finish = (.ok (), g) ∧ g.rows = 1 ∧
      g.frame.sink.chunks.flatten = CopyStream.header ++ CopyStream.rowForm 1 [none] := by
  intro w
  have hw : w = { nullWritten ⟨1, 64, by decide, by decide⟩ with inRow := 0, rows := 1 } := by
    change ((((start ⟨1, 64, _, _⟩ .accepting).call .null).2.call (.bytes [7])).2.call .endRow).2 =
      _
    rw [call_null_start]
    rfl
  have haccepted : (start ⟨1, 64, by decide, by decide⟩ .accepting).accepted
      [.null, .bytes [7], .endRow] = [none] := by
    rw [accepted, Run.accepted, Run.acceptedBy_of_ok call_null_start, call_null_start]
    rfl
  obtain ⟨-, -, hfinish⟩ :=
    rows_written ⟨1, 64, by decide, by decide⟩ [.null, .bytes [7], .endRow]
  have hdone : w.finish = (.ok (), w.finish.2) := by rw [hw]; rfl
  have hrows : w.finish.2.rows = 1 := by rw [hw]; rfl
  obtain ⟨table, hflatten, hlength, -, -, hcontents⟩ := hfinish w.finish.2 hdone
  obtain ⟨row, rfl⟩ := List.length_eq_one_iff.1 (hlength.trans hrows)
  rw [haccepted, List.flatten_singleton] at hflatten
  subst hflatten
  exact ⟨w.finish.2, hdone, hrows, hcontents⟩

end CopyWriter

end SqlWire
