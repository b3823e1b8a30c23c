import SqlWire.Proofs.Copy.Emission

/-!
# Runs of a frame

A run is any sequence of calls.  A frame that has been finished, or that the sink has
failed, answers every call with the same error and stays as it is (`after_of_closed`).
An open frame is some number of fields into its stream, whatever has been sent before
(`OpenAt`), and if it has not been reset, its output is the stream of the fields it has
accepted (`Carries`).  `OpenAt.put` and `finish_cases` are the steps, and `carries_after`
holds of every run.
-/

namespace SqlWire

namespace CopyFrame

/-! ### Calls -/

/-- What can be asked of a frame. -/
inductive Call where
  | put (field : Nullable)
  | reset (columns : Nat)
  | finish
  deriving Repr, DecidableEq

/-- The field that a call is to add. -/
def Call.field? : Call → Option Nullable
  | put field => some field
  | reset _ | finish => none

/-- The call begins another stream. -/
def Call.IsReset : Call → Prop
  | reset _ => True
  | put _ | finish => False

def call (f : CopyFrame) : Call → Except Error Unit × CopyFrame
  | .put field => f.put field
  | .reset columns => f.reset columns
  | .finish => f.finish

def after (f : CopyFrame) (calls : List Call) : CopyFrame :=
  calls.foldl (fun f c => (f.call c).2) f

/-- What the calls of a run are answered. -/
def answers (f : CopyFrame) : List Call → List (Except Error Unit)
  | [] => []
  | c :: calls => (f.call c).1 :: (f.call c).2.answers calls

/-- The field that a call adds, if it succeeds. -/
def acceptedBy (f : CopyFrame) (c : Call) : List Nullable :=
  match (f.call c).1 with
  | .ok () => c.field?.toList
  | .error _ => []

/-- The fields that the calls of a run add. -/
def accepted (f : CopyFrame) : List Call → List Nullable
  | [] => []
  | c :: calls => f.acceptedBy c ++ (f.call c).2.accepted calls

variable {f g : CopyFrame} {e : Error} {field : Nullable} {fields : List Nullable}

@[simp] theorem after_nil (f : CopyFrame) : f.after [] = f := rfl

theorem after_cons (f : CopyFrame) (c : Call) (calls : List Call) :
    f.after (c :: calls) = (f.call c).2.after calls := rfl

theorem after_concat (f : CopyFrame) (calls : List Call) (c : Call) :
    f.after (calls ++ [c]) = ((f.after calls).call c).2 := by
  rw [after, List.foldl_concat]
  rfl

theorem after_append (f : CopyFrame) (calls later : List Call) :
    f.after (calls ++ later) = (f.after calls).after later :=
  List.foldl_append

theorem accepted_concat (f : CopyFrame) (calls : List Call) (c : Call) :
    f.accepted (calls ++ [c]) = f.accepted calls ++ (f.after calls).acceptedBy c := by
  induction calls generalizing f with
  | nil => simp [accepted]
  | cons first calls ih => simp [accepted, ih, after_cons]

theorem answers_concat (f : CopyFrame) (calls : List Call) (c : Call) :
    f.answers (calls ++ [c]) = f.answers calls ++ [((f.after calls).call c).1] := by
  induction calls generalizing f with
  | nil => rfl
  | cons first calls ih => simp [answers, ih, after_cons]

/-! ### Closed frames -/

theorem call_of_closed (h : f.closedBy? = some e) (c : Call) : f.call c = (.error e, f) := by
  cases c with
  | put field => simp only [call, put, h]
  | reset columns => simp only [call, reset, h]
  | finish => simp only [call, finish, h]

/-- **A closed frame stays as it is.** -/
theorem after_of_closed (h : f.closedBy? = some e) (calls : List Call) : f.after calls = f := by
  induction calls with
  | nil => rfl
  | cons c calls ih => rw [after_cons, call_of_closed h, ih]

theorem answers_of_closed (h : f.closedBy? = some e) (calls : List Call) :
    ∀ answer ∈ f.answers calls, answer = .error e := by
  induction calls with
  | nil => simp [answers]
  | cons c calls ih =>
    rw [answers, call_of_closed h]
    simpa using ih

theorem closedBy?_eq_none_iff : f.closedBy? = none ↔ f.phase = .active := by
  cases hphase : f.phase <;> simp [closedBy?, hphase]

theorem closedBy?_of_failed (h : f.phase = .failed e) : f.closedBy? = some e := by
  simp [closedBy?, h]

theorem active_of_active_call {c : Call} (h : (f.call c).2.phase = .active) :
    f.phase = .active := by
  cases hclosed : f.closedBy? with
  | none => exact closedBy?_eq_none_iff.1 hclosed
  | some e =>
    rw [call_of_closed hclosed] at h
    exact h

/-! ### Open frames -/

/-- A frame that is open, `n` fields into its stream, and knows where in its tuple it is. -/
structure OpenAt (f : CopyFrame) (n : Nat) : Prop where
  active : f.phase = .active
  regular : f.Regular
  openTuple_eq : f.openTuple? = if n % f.columns = 0 then none else some (n % f.columns)
  buffer_ne : f.buffer ≠ []

/-- An open frame has put out the stream of some fields, and knows where in its tuple it is. -/
structure Carries (f : CopyFrame) (fields : List Nullable) : Prop where
  active : f.phase = .active
  regular : f.Regular
  output_eq : f.output = CopyStream.form f.columns fields
  openTuple_eq : f.openTuple? =
    if fields.length % f.columns = 0 then none else some (fields.length % f.columns)
  buffer_ne : f.buffer ≠ []

theorem Carries.openAt (h : f.Carries fields) : f.OpenAt fields.length :=
  ⟨h.active, h.regular, h.openTuple_eq, h.buffer_ne⟩

theorem OpenAt.carries (h : f.OpenAt fields.length)
    (houtput : f.output = CopyStream.form f.columns fields) : f.Carries fields :=
  ⟨h.active, h.regular, houtput, h.openTuple_eq, h.buffer_ne⟩

theorem openAt_start (config : CopyConfig)
    (refusal : List Delivery → Delivery → Option Error) :
    OpenAt (start config (.ofRefusal refusal)) 0 where
  active := rfl
  regular := ⟨rfl, rfl, nofun, rfl, config.header_fits⟩
  openTuple_eq := by rw [Nat.zero_mod, if_pos rfl]; rfl
  buffer_ne := nofun

theorem carries_start (config : CopyConfig)
    (refusal : List Delivery → Delivery → Option Error) :
    Carries (start config (.ofRefusal refusal)) [] :=
  OpenAt.carries (openAt_start config refusal) (by rw [CopyStream.form_nil]; rfl)

theorem openTuple?_succ {n : Nat} (hcolumns : g.columns = f.columns)
    (hposition : g.position = some (f.openTuple?.getD 0 + 1))
    (hopen : f.openTuple? = if n % f.columns = 0 then none else some (n % f.columns)) :
    g.openTuple? =
      if (n + 1) % g.columns = 0 then none else some ((n + 1) % g.columns) := by
  have hcount : f.openTuple?.getD 0 = n % f.columns := by
    rw [hopen]
    split
    next hzero => exact hzero.symm
    next => rfl
  have hlt : n % f.columns < f.columns := Nat.mod_lt n f.config.columns_pos
  rw [openTuple?, hposition, hcount, hcolumns, ← Nat.mod_add_mod n f.columns 1, Option.filter_some]
  by_cases hfull : n % f.columns + 1 = f.columns
  · rw [hfull, Nat.mod_self, if_pos rfl, if_neg (by simp)]
  · have hless : n % f.columns + 1 < f.columns := by omega
    rw [Nat.mod_eq_of_lt hless, if_pos (by simpa using hless), if_neg (by omega)]

theorem OpenAt.succ {n : Nat} (h : f.OpenAt n) (hpieces : f.emitAll (f.pieces field) = (.ok (), g))
    (htook : Took f (CopyStream.entryForm f.columns n field) g) (hne : g.buffer ≠ []) :
    g.OpenAt (n + 1) := by
  have hcolumns : g.columns = f.columns := congrArg CopyConfig.columns htook.config_eq
  obtain ⟨front, hlast⟩ := exists_pieces_eq f field
  rw [hlast] at hpieces
  exact ⟨htook.phase_eq.trans h.active, htook.regular,
    openTuple?_succ hcolumns (position_emitAll f front _ hpieces) h.openTuple_eq, hne⟩

/-- **What a field does to an open frame.**  A field too long is refused, and nothing happens.
Another one is put out, unless the sink refuses a chunk on the way. -/
theorem OpenAt.put {n : Nat} (h : f.OpenAt n) (field : Nullable) :
    (¬ field.Fits ∧
      f.put field = (.error (.outOfRange "copy" "field longer than 2^31-1 bytes"), f)) ∨
    (field.Fits ∧ ∃ g, f.put field = (.ok (), g) ∧
      Took f (CopyStream.entryForm f.columns n field) g ∧ g.OpenAt (n + 1)) ∨
    ∃ e g, f.put field = (.error e, g) ∧ Broke f (CopyStream.entryForm f.columns n field) e g := by
  have hput : f.put field = if field.Fits then f.emitAll (f.pieces field)
      else (.error (.outOfRange "copy" "field longer than 2^31-1 bytes"), f) := by
    simp only [CopyFrame.put, closedBy?_eq_none_iff.2 h.active]
  by_cases hfits : field.Fits
  · refine .inr ?_
    rw [if_pos hfits] at hput
    have hemission := emitAll_emission h.regular (f.pieces field)
    rw [pieces_form hfits h.openTuple_eq] at hemission
    cases hresult : f.emitAll (f.pieces field) with
    | mk outcome g =>
      rw [hresult] at hemission hput
      cases hemission with
      | broke hbroke => exact .inr ⟨_, g, hput, hbroke⟩
      | took htook hne =>
        -- the buffer was not empty before, since it has held the header
        have hbuffer := hne (List.append_ne_nil_of_left_ne_nil h.buffer_ne _)
        exact .inl ⟨hfits, g, hput, htook, h.succ hresult htook hbuffer⟩
  · rw [if_neg hfits] at hput
    exact .inl ⟨hfits, hput⟩

theorem Carries.put (h : f.Carries fields) (field : Nullable) :
    (¬ field.Fits ∧
      f.put field = (.error (.outOfRange "copy" "field longer than 2^31-1 bytes"), f)) ∨
    (field.Fits ∧ ∃ g, f.put field = (.ok (), g) ∧ g.config = f.config ∧
      g.sink.refusal = f.sink.refusal ∧ g.Carries (fields ++ [field])) ∨
    ∃ e g, f.put field = (.error e, g) ∧
      Broke f (CopyStream.entryForm f.columns fields.length field) e g := by
  rcases h.openAt.put field with hlong | ⟨hfits, g, hput, htook, hopen⟩ | hbroke
  · exact .inl hlong
  · refine .inr (.inl ⟨hfits, g, hput, htook.config_eq, htook.refusal_eq, ?_⟩)
    have hcolumns : g.columns = f.columns := congrArg CopyConfig.columns htook.config_eq
    refine OpenAt.carries (by simpa using hopen) ?_
    rw [hcolumns, CopyStream.form_concat, htook.output_eq, h.output_eq]
  · exact .inr (.inr hbroke)

/-- **All that finishing an open frame can do.**  The rest may be refused, and then is kept; or it
is taken, and the word that the stream is complete is refused or taken. -/
theorem finish_cases (hactive : f.phase = .active) (hne : f.buffer ≠ []) :
    (∃ e, f.sink.refusal f.sink.offered (.chunk f.buffer) = some e ∧
      f.finish = (.error e, { f with
        sink := f.sink.refuse (.chunk f.buffer)
        phase := .failed e })) ∨
    (∃ e, f.sink.refusal (f.sink.offered ++ [.chunk f.buffer]) .close = some e ∧
      f.finish = (.error e, { f with
        buffer := []
        sink := (f.sink.accept (.chunk f.buffer)).refuse .close
        position := none
        phase := .finished })) ∨
    f.finish = (.ok (), { f with
      buffer := []
      sink := (f.sink.accept (.chunk f.buffer)).accept .close
      position := none
      phase := .finished }) := by
  simp only [finish, closedBy?_eq_none_iff.2 hactive, flushRest, if_neg hne]
  cases hsent : f.sink.deliver (.chunk f.buffer) with
  | mk outcome sink =>
    cases outcome with
    | error e =>
      obtain ⟨hsome, rfl⟩ := Sink.of_deliver_eq_error hsent
      exact .inl ⟨e, hsome, rfl⟩
    | ok =>
      obtain rfl := Sink.of_deliver_eq_ok hsent
      refine .inr ?_
      dsimp only
      cases hclosed : Sink.deliver _ .close with
      | mk outcome sink =>
        cases outcome with
        | error e =>
          obtain ⟨hsome, rfl⟩ := Sink.of_deliver_eq_error hclosed
          exact .inl ⟨e, hsome, rfl⟩
        | ok =>
          obtain rfl := Sink.of_deliver_eq_ok hclosed
          exact .inr rfl

/-- **An open frame that was not reset carries the fields it has accepted.** -/
theorem carries_after (config : CopyConfig) (refusal : List Delivery → Delivery → Option Error)
    {calls : List Call} (hcalls : ∀ c ∈ calls, ¬ c.IsReset)
    (hactive : ((start config (.ofRefusal refusal)).after calls).phase = .active) :
    ((start config (.ofRefusal refusal)).after calls).config = config ∧
    ((start config (.ofRefusal refusal)).after calls).sink.refusal = refusal ∧
    ((start config (.ofRefusal refusal)).after calls).Carries
      ((start config (.ofRefusal refusal)).accepted calls) := by
  induction calls using List.reverseRecOn with
  | nil => exact ⟨rfl, rfl, carries_start config refusal⟩
  | append_singleton calls c ih =>
    rw [after_concat] at hactive
    obtain ⟨hconfig, hrefusal, hcarries⟩ :=
      ih (fun c hc => hcalls c (List.mem_append_left _ hc)) (active_of_active_call hactive)
    have hreset := hcalls c (by simp)
    rw [after_concat, accepted_concat, acceptedBy]
    cases c with
    | reset columns => exact absurd trivial hreset
    | finish =>
      -- whatever comes of it, the frame is not open afterwards
      simp only [call] at hactive
      rcases finish_cases hcarries.active hcarries.buffer_ne with ⟨e, -, h⟩ | ⟨e, -, h⟩ | h <;>
        · rw [h] at hactive
          cases hactive
    | put field =>
      simp only [call] at hactive ⊢
      rcases hcarries.put field with ⟨-, h⟩ | ⟨-, g, h, hg, hg', hcarries'⟩ | ⟨e, g, h, hbroke⟩
      · rw [h]
        simpa using ⟨hconfig, hrefusal, hcarries⟩
      · rw [h]
        exact ⟨hg.trans hconfig, hg'.trans hrefusal, hcarries'⟩
      · rw [h, hbroke.phase_eq] at hactive
        cases hactive

end CopyFrame

end SqlWire
