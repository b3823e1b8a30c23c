import SqlWire.Proofs.Copy.Occupancy

/-!
# Streams that are begun again

A reset drops the buffer and puts the frame back to the start of a stream, and leaves the
sink alone (`OpenAt.reset`).  So in any run the frame stays some number of fields into its
stream (`openAt_after`), and its output is what had been sent when it was last reset, and
then the stream of the fields since (`Resumes`).  A chunk that has been sent cannot be
called back: `restarts_after_what_was_sent` says what a sink then has in the end.
-/

namespace SqlWire

namespace CopyFrame

variable {f g : CopyFrame} {n : Nat} {sent : Bytes} {fields : List Nullable} {c : Call}

/-! ### One call -/

/-- **What a reset does to an open frame.** -/
theorem OpenAt.reset (h : f.OpenAt n) (columns : Nat) :
    (¬ CopyStream.ValidColumns columns ∧
      f.reset columns = (.error (CopyStream.invalidColumns columns), f)) ∨
    (CopyStream.ValidColumns columns ∧ ∃ g, f.reset columns = (.ok (), g) ∧ g.OpenAt 0 ∧
      g.columns = columns ∧ g.config.capacity = f.config.capacity ∧ g.sink = f.sink ∧
      g.buffer = CopyStream.header) := by
  have hclosed := closedBy?_eq_none_iff.2 h.active
  by_cases hvalid : CopyStream.ValidColumns columns
  · refine .inr ⟨hvalid, { f with
      config := ⟨columns, f.config.capacity, hvalid, f.config.header_fits⟩
      buffer := CopyStream.header
      position := none }, ?_, ?_, rfl, rfl, rfl, rfl⟩
    · simp only [CopyFrame.reset, hclosed, CopyConfig.make, dif_pos hvalid,
        dif_pos f.config.header_fits]
    · refine ⟨h.active, ?_, ?_, List.cons_ne_nil _ _⟩
      · exact ⟨h.regular.offered_eq, h.regular.accepted_eq, h.regular.length_chunk,
          h.regular.length_chunks, f.config.header_fits⟩
      · rw [Nat.zero_mod, if_pos rfl]
        rfl
  · refine .inl ⟨hvalid, ?_⟩
    simp only [CopyFrame.reset, hclosed, CopyConfig.make, dif_neg hvalid]

theorem OpenAt.call (h : f.OpenAt n) (hactive : (f.call c).2.phase = .active) :
    (∃ m, (f.call c).2.OpenAt m) ∧ (f.call c).2.config.capacity = f.config.capacity ∧
      (f.call c).2.sink.refusal = f.sink.refusal := by
  cases c with
  | put field =>
    simp only [CopyFrame.call] at hactive ⊢
    rcases h.put field with ⟨-, hput⟩ | ⟨-, g, hput, htook, hopen⟩ | ⟨e, g, hput, hbroke⟩
    · rw [hput]
      exact ⟨⟨n, h⟩, rfl, rfl⟩
    · rw [hput]
      exact ⟨⟨n + 1, hopen⟩, congrArg CopyConfig.capacity htook.config_eq, htook.refusal_eq⟩
    · rw [hput, hbroke.phase_eq] at hactive
      cases hactive
  | reset columns =>
    simp only [CopyFrame.call]
    rcases h.reset columns with ⟨-, hreset⟩ | ⟨-, g, hreset, hopen, -, hcapacity, hsink, -⟩
    · rw [hreset]
      exact ⟨⟨n, h⟩, rfl, rfl⟩
    · rw [hreset]
      exact ⟨⟨0, hopen⟩, hcapacity, congrArg Sink.refusal hsink⟩
  | finish =>
    simp only [CopyFrame.call] at hactive
    rcases finish_cases h.active h.buffer_ne with ⟨e, -, h⟩ | ⟨e, -, h⟩ | h <;>
      · rw [h] at hactive
        cases hactive

/-- **An open frame is some number of fields into its stream**, whatever it has been asked. -/
theorem openAt_after (config : CopyConfig) (refusal : List Delivery → Delivery → Option Error)
    {calls : List Call}
    (hactive : ((start config (.ofRefusal refusal)).after calls).phase = .active) :
    (∃ n, ((start config (.ofRefusal refusal)).after calls).OpenAt n) ∧
    ((start config (.ofRefusal refusal)).after calls).config.capacity = config.capacity ∧
    ((start config (.ofRefusal refusal)).after calls).sink.refusal = refusal := by
  induction calls using List.reverseRecOn with
  | nil => exact ⟨⟨0, openAt_start config refusal⟩, rfl, rfl⟩
  | append_singleton calls c ih =>
    rw [after_concat] at hactive ⊢
    obtain ⟨⟨n, hopen⟩, hcapacity, hrefusal⟩ := ih (active_of_active_call hactive)
    obtain ⟨hnext, hcapacity', hrefusal'⟩ := hopen.call hactive
    exact ⟨hnext, hcapacity'.trans hcapacity, hrefusal'.trans hrefusal⟩

/-! ### Fields since a reset -/

/-- The call is a reset that is not refused by an open frame. -/
def Call.Restarts : Call → Prop
  | reset columns => CopyStream.ValidColumns columns
  | put _ | finish => False

/-- The fields that some calls put, without those too long. -/
def fittingFields (calls : List Call) : List Nullable :=
  (calls.filterMap Call.field?).filter (·.Fits)

/-- An open frame whose output is what had been sent before, and then the stream of some fields. -/
structure Resumes (f : CopyFrame) (sent : Bytes) (fields : List Nullable) : Prop where
  openAt : f.OpenAt fields.length
  output_eq : f.output = sent ++ CopyStream.form f.columns fields

theorem fittingFields_concat (calls : List Call) (c : Call) :
    fittingFields (calls ++ [c]) = fittingFields calls ++ c.field?.toList.filter (·.Fits) := by
  rw [fittingFields, List.filterMap_append, List.filter_append, ← fittingFields]
  cases c <;> rfl

theorem resumes_start (config : CopyConfig) : Resumes (start config .accepting) [] [] where
  openAt := openAt_start config _
  output_eq := by rw [CopyStream.form_nil]; rfl

theorem Resumes.call (h : f.Resumes sent fields)
    (haccepts : f.sink.refusal = Sink.accepting.refusal) (hfinish : c ≠ .finish)
    (hrestart : ¬ c.Restarts) :
    (f.call c).2.Resumes sent (fields ++ c.field?.toList.filter (·.Fits)) ∧
      (f.call c).2.config = f.config ∧
      (f.call c).2.sink.refusal = Sink.accepting.refusal := by
  cases c with
  | put field =>
    simp only [CopyFrame.call, Call.field?, Option.toList_some, List.filter_singleton]
    rcases h.openAt.put field with ⟨hlong, hput⟩ | ⟨hfits, g, hput, htook, hopen⟩ |
      ⟨e, g, -, hbroke⟩
    · rw [hput, decide_eq_false hlong]
      simpa using ⟨h, haccepts⟩
    · have hcolumns : g.columns = f.columns := congrArg CopyConfig.columns htook.config_eq
      rw [hput, decide_eq_true hfits]
      refine ⟨⟨by simpa using hopen, ?_⟩, htook.config_eq, htook.refusal_eq.trans haccepts⟩
      rw [htook.output_eq, h.output_eq, hcolumns, cond_true, CopyStream.form_concat,
        List.append_assoc]
    · exact (hbroke.not_accepting haccepts).elim
  | reset columns =>
    rcases h.openAt.reset columns with ⟨-, hreset⟩ | ⟨hvalid, -⟩
    · simpa [CopyFrame.call, hreset, Call.field?] using ⟨h, haccepts⟩
    · exact absurd hvalid hrestart
  | finish => exact absurd rfl hfinish

theorem Resumes.after (h : f.Resumes sent fields)
    (haccepts : f.sink.refusal = Sink.accepting.refusal) {calls : List Call}
    (hfinish : .finish ∉ calls) (hrestart : ∀ c ∈ calls, ¬ c.Restarts) :
    (f.after calls).Resumes sent (fields ++ fittingFields calls) ∧
      (f.after calls).config = f.config ∧
      (f.after calls).sink.refusal = Sink.accepting.refusal := by
  induction calls using List.reverseRecOn with
  | nil => exact ⟨by simpa [fittingFields] using h, rfl, haccepts⟩
  | append_singleton calls c ih =>
    rw [List.mem_append, List.mem_singleton, not_or] at hfinish
    obtain ⟨hresumes, hconfig, hrefusal⟩ :=
      ih hfinish.1 fun c hc => hrestart c (List.mem_append_left _ hc)
    obtain ⟨hnext, hconfig', hrefusal'⟩ :=
      hresumes.call hrefusal (Ne.symm hfinish.2) (hrestart c (by simp))
    rw [after_concat, fittingFields_concat, ← List.append_assoc]
    exact ⟨hnext, hconfig'.trans hconfig, hrefusal'⟩

/-! ### The whole run -/

/-- Nothing but finishing closes a frame whose sink accepts everything. -/
theorem OpenAt.active_call (h : f.OpenAt n) (haccepts : f.sink.refusal = Sink.accepting.refusal)
    (hfinish : c ≠ .finish) : (f.call c).2.phase = .active := by
  cases c with
  | put field =>
    rw [CopyFrame.call]
    rcases h.put field with ⟨-, hput⟩ | ⟨-, g, hput, -, hopen⟩ | ⟨e, g, -, hbroke⟩
    · rw [hput]
      exact h.active
    · rw [hput]
      exact hopen.active
    · exact (hbroke.not_accepting haccepts).elim
  | reset columns =>
    rw [CopyFrame.call]
    rcases h.reset columns with ⟨-, hreset⟩ | ⟨-, g, hreset, hopen, -⟩
    · rw [hreset]
      exact h.active
    · rw [hreset]
      exact hopen.active
  | finish => exact absurd rfl hfinish

theorem openAt_after_accepting (config : CopyConfig) {calls : List Call}
    (hfinish : .finish ∉ calls) :
    (∃ n, ((start config .accepting).after calls).OpenAt n) ∧
    ((start config .accepting).after calls).config.capacity = config.capacity ∧
    ((start config .accepting).after calls).sink.refusal = Sink.accepting.refusal := by
  refine openAt_after config _ ?_
  induction calls using List.reverseRecOn with
  | nil => rfl
  | append_singleton calls c ih =>
    rw [List.mem_append, List.mem_singleton, not_or] at hfinish
    obtain ⟨⟨n, hopen⟩, -, hrefusal⟩ := openAt_after config _ (ih hfinish.1)
    rw [after_concat]
    exact hopen.active_call hrefusal (Ne.symm hfinish.2)

/-- No chunk is empty, so nothing has been sent if there was no flush. -/
theorem Regular.contents_eq_nil_iff (h : f.Regular) : f.sink.contents = [] ↔ f.flushes = 0 := by
  rw [← h.length_chunks, List.length_eq_zero_iff, Sink.contents, List.flatten_eq_nil_iff]
  constructor
  · intro hempty
    rw [List.eq_nil_iff_forall_not_mem]
    intro chunk hchunk
    have hlength := h.length_chunk chunk hchunk
    rw [hempty chunk hchunk] at hlength
    exact absurd hlength.symm f.config.capacity_pos.ne'
  · intro hnone
    simp [hnone]

theorem output_of_no_reset (config : CopyConfig) {calls : List Call} (hfinish : .finish ∉ calls)
    (hnone : ∀ c ∈ calls, ¬ c.Restarts) :
    ((start config .accepting).after calls).output =
      CopyStream.form config.columns (fittingFields calls) := by
  obtain ⟨hresumes, hconfig, -⟩ := (resumes_start config).after rfl hfinish hnone
  rw [hresumes.output_eq, columns, hconfig]
  rfl

theorem output_of_last_reset (config : CopyConfig) {before later : List Call} {columns : Nat}
    (hbefore : .finish ∉ before) (hfinish : .finish ∉ later)
    (hvalid : CopyStream.ValidColumns columns) (hlater : ∀ c ∈ later, ¬ c.Restarts) :
    ((start config .accepting).after (before ++ .reset columns :: later)).output =
      ((start config .accepting).after before).sink.contents ++
        CopyStream.form columns (fittingFields later) := by
  obtain ⟨⟨n, hopen⟩, -, hrefusal⟩ := openAt_after_accepting config hbefore
  rcases hopen.reset columns with ⟨hinvalid, -⟩ |
    ⟨-, g, hreset, hfresh, hcolumns, -, hsink, hbuffer⟩
  · exact absurd hvalid hinvalid
  · have hagain : g.Resumes ((start config .accepting).after before).sink.contents [] :=
      ⟨hfresh, by rw [output, hsink, hbuffer, CopyStream.form_nil]⟩
    obtain ⟨hresumes, hconfig, -⟩ := hagain.after (hsink ▸ hrefusal) hfinish hlater
    rw [after_append, after_cons, CopyFrame.call, hreset, hresumes.output_eq, CopyFrame.columns,
      hconfig, ← hcolumns]
    rfl

/-- **A reset begins the stream again, after what has been sent.**  In any run without a finish,
the finish at the end succeeds.  If no reset took effect, the sink then has the stream of the fields
put.  Otherwise it has what it had at the last such reset, in whole chunks, and then exactly one
stream: that of the fields put since, under the number of columns of that reset.  This is all it has
if and only if nothing had been flushed by then. -/
theorem restarts_after_what_was_sent (config : CopyConfig) {calls : List Call}
    (hfinish : .finish ∉ calls) :
    ∃ g, ((start config .accepting).after calls).finish = (.ok (), g) ∧
      g.sink.offered = g.sink.chunks.map .chunk ++ [.close] ∧
      ((∀ c ∈ calls, ¬ c.Restarts) →
        g.sink.chunks.flatten = CopyStream.form config.columns (fittingFields calls)) ∧
      ∀ before columns later, calls = before ++ .reset columns :: later →
        CopyStream.ValidColumns columns → (∀ c ∈ later, ¬ c.Restarts) →
        let f := (start config .accepting).after before
        g.sink.chunks.flatten =
          f.sink.chunks.flatten ++ CopyStream.form columns (fittingFields later) ∧
        (∀ chunk ∈ f.sink.chunks, chunk.length = config.capacity) ∧
        (g.sink.chunks.flatten = CopyStream.form columns (fittingFields later) ↔
          f.flushes = 0) := by
  obtain ⟨⟨n, hopen⟩, -, hrefusal⟩ := openAt_after_accepting config hfinish
  refine ⟨_, hopen.finish_accepting hrefusal, ?_, ?_, ?_⟩
  · simp [hopen.regular.offered_eq]
  · intro hnone
    rw [Sink.chunks_accept_close, ← Sink.contents, Sink.contents_accept_chunk, ← output,
      output_of_no_reset config hfinish hnone]
  · intro before columns later hcalls hvalid hlater f
    subst hcalls
    obtain ⟨hbefore, -, hfinish'⟩ : .finish ∉ before ∧ _ ∧ .finish ∉ later := by
      simpa only [List.mem_append, List.mem_cons, not_or] using hfinish
    obtain ⟨⟨m, hopen'⟩, hcapacity, -⟩ := openAt_after_accepting config hbefore
    rw [Sink.chunks_accept_close, ← Sink.contents, Sink.contents_accept_chunk, ← output,
      output_of_last_reset config hbefore hfinish' hvalid hlater]
    refine ⟨rfl, fun chunk hchunk => hcapacity ▸ hopen'.regular.length_chunk chunk hchunk, ?_⟩
    rw [List.append_left_eq_self]
    exact hopen'.regular.contents_eq_nil_iff

/-- A frame with one column and chunks of twenty bytes, once it has sent one of them. -/
def sentOnce : CopyFrame :=
  ⟨⟨1, 20, by decide, by decide⟩,
    ⟨fun _ _ => none, [.chunk (CopyStream.header ++ [0])], [.chunk (CopyStream.header ++ [0])]⟩,
    [1, 0, 0, 0, 10] ++ List.replicate 10 7, some 1, .active, 1⟩

theorem put_sentOnce :
    (start ⟨1, 20, by decide, by decide⟩ .accepting).put (some (List.replicate 10 7)) =
      (.ok (), sentOnce) :=
  put_eq_of_putWithin (show putWithin 2 _ _ = some _ from rfl)

/-- A reset to two columns after a flush, and a missing field. -/
theorem restarts_after_what_was_sent_once :
    .finish ∉ [Call.put (some (List.replicate 10 7)), .reset 2, .put none] ∧
    ∃ g, ((start ⟨1, 20, by decide, by decide⟩ .accepting).after
        [.put (some (List.replicate 10 7)), .reset 2, .put none]).finish = (.ok (), g) ∧
      g.sink.chunks.flatten = (CopyStream.header ++ [0]) ++ CopyStream.form 2 [none] := by
  have hfinish : .finish ∉ [Call.put (some (List.replicate 10 7)), .reset 2, .put none] := by
    decide
  obtain ⟨g, hg, -, -, hreset⟩ :=
    restarts_after_what_was_sent ⟨1, 20, by decide, by decide⟩ hfinish
  refine ⟨hfinish, g, hg, ?_⟩
  obtain ⟨hflatten, -⟩ := hreset [.put (some (List.replicate 10 7))] 2 [.put none] rfl (by decide)
    (by simp [Call.Restarts])
  rw [after_cons, call, put_sentOnce] at hflatten
  exact hflatten

/-- A reset after a flush, and nothing put since: the sink has more than the stream of no fields. -/
theorem reset_keeps_sent_chunk :
    ∃ g, ((start ⟨1, 20, by decide, by decide⟩ .accepting).after
        [.put (some (List.replicate 10 7)), .reset 1]).finish = (.ok (), g) ∧
      g.sink.chunks.flatten = (CopyStream.header ++ [0]) ++ CopyStream.header ∧
      g.sink.chunks.flatten ≠ CopyStream.form 1 [] := by
  refine ⟨_, by rw [after_cons, call, put_sentOnce]; rfl, rfl, ?_⟩
  rw [CopyStream.form_nil]
  decide

end CopyFrame

end SqlWire
