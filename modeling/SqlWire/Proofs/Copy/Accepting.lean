import SqlWire.Proofs.Copy.Runs

/-!
# Streams into a sink that accepts everything

No call fails then, except for a field too long, and what the sink has taken is the
stream less what is still in the buffer.  When the frame is finished the sink has all
of it, and word that it is complete.  In which chunks it came depends on the capacity,
and what it says does not.

That a field appends its bytes to the output needs no more than that the frame is open
(`put_of_accepting`), however the frame came to what it has.
-/

namespace SqlWire

namespace CopyFrame

variable {f g : CopyFrame} {fields : List Nullable}

/-! ### Any frame -/

/-- A frame that has put out bytes, and whose sink still accepts everything. -/
structure Appended (f : CopyFrame) (bytes : Bytes) (g : CopyFrame) : Prop where
  accepts : g.sink.refusal = Sink.accepting.refusal
  output_eq : g.output = f.output ++ bytes

theorem Appended.trans {k : CopyFrame} {bytes more : Bytes} (hfg : Appended f bytes g)
    (hgk : Appended g more k) : Appended f (bytes ++ more) k where
  accepts := hgk.accepts
  output_eq := by rw [hgk.output_eq, hfg.output_eq, List.append_assoc]

theorem pass_of_accepting (haccepts : f.sink.refusal = Sink.accepting.refusal) (bytes : Bytes) :
    (∃ g, f.pass bytes = .done (.ok ()) g ∧ Appended f bytes g) ∨
    ∃ g sent rest, f.pass bytes = .again g rest ∧ sent ++ rest = bytes ∧ Appended f sent g := by
  unfold pass
  by_cases hrest : bytes.drop f.room = []
  · refine .inl ⟨_, if_pos hrest, haccepts, ?_⟩
    simp [output]
  · let sent := f.buffer ++ bytes.take f.room
    let g := { f with
      buffer := []
      sink := f.sink.accept (.chunk sent)
      flushes := f.flushes + 1 }
    have hoffered : f.sink.deliver (.chunk sent) = (.ok (), g.sink) :=
      Sink.deliver_of_accepting haccepts _
    refine .inr ⟨g, bytes.take f.room, bytes.drop f.room, ?_, List.take_append_drop _ _,
      haccepts, ?_⟩
    · simp only [if_neg hrest, hoffered, sent]
      rfl
    · rw [output, Sink.contents_accept_chunk, List.append_nil, output, List.append_assoc]

theorem emit_of_accepting (haccepts : f.sink.refusal = Sink.accepting.refusal) (bytes : Bytes) :
    ∃ g, f.emit bytes = (.ok (), g) ∧ Appended f bytes g := by
  induction f, bytes using emit.induct with
  | case1 f bytes outcome g hpass =>
    rcases pass_of_accepting haccepts bytes with ⟨g', hdone, happended⟩ | ⟨g', _, _, hagain, -⟩
    · rw [emit, hdone]
      exact ⟨g', rfl, happended⟩
    · cases hpass.symm.trans hagain
  | case2 f bytes g rest hpass ih =>
    rcases pass_of_accepting haccepts bytes with ⟨g', hdone, -⟩ | ⟨g', sent, _, hagain, rfl, hsent⟩
    · cases hpass.symm.trans hdone
    · cases hpass.symm.trans hagain
      obtain ⟨k, hk, hrest⟩ := ih hsent.accepts
      rw [emit, hpass]
      exact ⟨k, hk, hsent.trans hrest⟩

theorem emitAll_of_accepting (haccepts : f.sink.refusal = Sink.accepting.refusal)
    (pieces : List Piece) :
    ∃ g, f.emitAll pieces = (.ok (), g) ∧ Appended f (pieces.flatMap Piece.bytes) g := by
  induction pieces generalizing f with
  | nil => exact ⟨f, rfl, haccepts, (List.append_nil _).symm⟩
  | cons piece rest ih =>
    obtain ⟨g, hemit, hpiece⟩ := emit_of_accepting haccepts piece.bytes
    obtain ⟨k, hall, hrest⟩ := ih (f := { g with position := some piece.position }) hpiece.accepts
    rw [emitAll, hemit]
    refine ⟨k, hall, hrest.accepts, ?_⟩
    rw [hrest.output_eq, List.flatMap_cons, ← List.append_assoc, ← hpiece.output_eq]
    rfl

/-- **An open frame puts out a field**, after the number of columns if it begins a tuple. -/
theorem put_of_accepting (hopen : f.closedBy? = none)
    (haccepts : f.sink.refusal = Sink.accepting.refusal) {field : Nullable} (hfits : field.Fits) :
    ∃ g, f.put field = (.ok (), g) ∧ g.output = f.output ++
      ((if f.openTuple?.isSome then [] else Bytes.bigEndian 2 f.columns) ++
        CopyStream.fieldForm field) := by
  obtain ⟨g, hall, happended⟩ := emitAll_of_accepting haccepts (f.pieces field)
  refine ⟨g, ?_, ?_⟩
  · rw [put, hopen]
    exact (if_pos hfits).trans hall
  · rw [happended.output_eq, flatMap_pieces hfits]

/-! ### From the start -/

theorem Broke.not_accepting {bytes : Bytes} {e : Error} (h : Broke f bytes e g)
    (haccepts : f.sink.refusal = Sink.accepting.refusal) : False := by
  obtain ⟨before, chunk, -, hsome⟩ := h.refused
  rw [haccepts] at hsome
  cases hsome

theorem Carries.put_accepting (h : f.Carries fields)
    (haccepts : f.sink.refusal = Sink.accepting.refusal) (field : Nullable) :
    (¬ field.Fits ∧
      f.put field = (.error (.outOfRange "copy" "field longer than 2^31-1 bytes"), f)) ∨
    (field.Fits ∧ ∃ g, f.put field = (.ok (), g) ∧ g.config = f.config ∧
      g.sink.refusal = Sink.accepting.refusal ∧ g.Carries (fields ++ [field])) := by
  rcases h.put field with hlong | ⟨hfits, g, hput, hconfig, hrefusal, hcarries⟩ | ⟨e, g, -, hbroke⟩
  · exact .inl hlong
  · exact .inr ⟨hfits, g, hput, hconfig, hrefusal.trans haccepts, hcarries⟩
  · exact (hbroke.not_accepting haccepts).elim

theorem OpenAt.finish_accepting {n : Nat} (h : f.OpenAt n)
    (haccepts : f.sink.refusal = Sink.accepting.refusal) :
    f.finish = (.ok (), { f with
      buffer := []
      sink := (f.sink.accept (.chunk f.buffer)).accept .close
      position := none
      phase := .finished }) := by
  rcases finish_cases h.active h.buffer_ne with ⟨e, hsome, -⟩ | ⟨e, hsome, -⟩ | hfinish
  · rw [haccepts] at hsome
    cases hsome
  · rw [haccepts] at hsome
    cases hsome
  · exact hfinish

theorem Carries.finish_accepting (h : f.Carries fields)
    (haccepts : f.sink.refusal = Sink.accepting.refusal) :
    f.finish = (.ok (), { f with
      buffer := []
      sink := (f.sink.accept (.chunk f.buffer)).accept .close
      position := none
      phase := .finished }) :=
  h.openAt.finish_accepting haccepts

theorem carries_puts (config : CopyConfig) (fields : List Nullable) :
    ((start config .accepting).after (fields.map .put)).config = config ∧
    ((start config .accepting).after (fields.map .put)).sink.refusal = Sink.accepting.refusal ∧
    ((start config .accepting).after (fields.map .put)).Carries (fields.filter (·.Fits)) := by
  induction fields using List.reverseRecOn with
  | nil => exact ⟨rfl, rfl, carries_start config _⟩
  | append_singleton fields field ih =>
    obtain ⟨hconfig, hrefusal, hcarries⟩ := ih
    rw [List.map_append, List.map_singleton, after_concat, call, List.filter_append,
      List.filter_singleton]
    rcases hcarries.put_accepting hrefusal field with
      ⟨hlong, hput⟩ | ⟨hfits, g, hput, hg, hg', hnext⟩
    · rw [hput, decide_eq_false hlong]
      simpa using ⟨hconfig, hrefusal, hcarries⟩
    · rw [hput, decide_eq_true hfits]
      exact ⟨hg.trans hconfig, hg', hnext⟩

theorem answers_puts (config : CopyConfig) {fields : List Nullable}
    (hfits : ∀ field ∈ fields, field.Fits) :
    ∀ answer ∈ (start config .accepting).answers (fields.map .put), answer = .ok () := by
  induction fields using List.reverseRecOn with
  | nil => simp [answers]
  | append_singleton fields field ih =>
    obtain ⟨-, hrefusal, hcarries⟩ := carries_puts config fields
    rw [List.map_append, List.map_singleton, answers_concat]
    intro answer hanswer
    rcases List.mem_append.1 hanswer with hbefore | hlast
    · exact ih (fun field hfield => hfits field (List.mem_append_left _ hfield)) answer hbefore
    · rcases hcarries.put_accepting hrefusal field with ⟨hlong, -⟩ | ⟨-, g, hput, -⟩
      · exact absurd (hfits field (by simp)) hlong
      · rw [List.mem_singleton.1 hlast, call, hput]

theorem finish_puts (config : CopyConfig) {fields : List Nullable}
    (hfits : ∀ field ∈ fields, field.Fits) :
    ∃ g : CopyFrame, ((start config .accepting).after (fields.map .put)).finish = (.ok (), g) ∧
      g.sink.offered = g.sink.chunks.map .chunk ++ [.close] ∧
      g.sink.contents = CopyStream.form config.columns fields := by
  obtain ⟨hconfig, hrefusal, hcarries⟩ := carries_puts config fields
  rw [List.filter_eq_self.2 fun field hfield => decide_eq_true (hfits field hfield)] at hcarries
  refine ⟨_, hcarries.finish_accepting hrefusal, ?_, ?_⟩
  · simp [hcarries.regular.offered_eq]
  · rw [Sink.contents, Sink.chunks_accept_close, ← Sink.contents, Sink.contents_accept_chunk,
      ← output, hcarries.output_eq, columns, hconfig]

/-- **The stream is cut but never altered.**  Whatever the capacity, as long as no field is too long
every call succeeds, and after each of them what the sink has taken and what waits in the buffer are
together the stream of the fields so far.  Finishing succeeds, and leaves the sink with chunks that
are that stream, and then one word that it is complete.  So what a sink has in the end does not
depend on the capacity. -/
theorem stream_not_altered (config : CopyConfig) {fields : List Nullable}
    (hfits : ∀ field ∈ fields, field.Fits) :
    (∀ answer ∈ (start config .accepting).answers (fields.map .put), answer = .ok ()) ∧
    (∀ done, done <+: fields →
      ((start config .accepting).after (done.map .put)).sink.chunks.flatten ++
        ((start config .accepting).after (done.map .put)).buffer =
          CopyStream.form config.columns done) ∧
    ∃ g : CopyFrame, ((start config .accepting).after (fields.map .put)).finish = (.ok (), g) ∧
      g.sink.offered = g.sink.chunks.map .chunk ++ [.close] ∧
      g.sink.chunks.flatten = CopyStream.form config.columns fields ∧
      ∀ other : CopyConfig, other.columns = config.columns →
        ((start other .accepting).after (fields.map .put ++ [.finish])).sink.chunks.flatten =
          g.sink.chunks.flatten := by
  refine ⟨answers_puts config hfits, fun done hdone => ?_, ?_⟩
  · obtain ⟨hconfig, -, hcarries⟩ := carries_puts config done
    have hall : done.filter (·.Fits) = done :=
      List.filter_eq_self.2 fun field hfield => decide_eq_true (hfits field (hdone.subset hfield))
    have houtput := hcarries.output_eq
    rwa [hall, columns, hconfig] at houtput
  · obtain ⟨g, hg, hoffered, hcontents⟩ := finish_puts config hfits
    refine ⟨g, hg, hoffered, hcontents, fun other hcolumns => ?_⟩
    obtain ⟨g', hg', -, hcontents'⟩ := finish_puts other hfits
    rw [after_concat, call, hg', ← Sink.contents, hcontents', hcolumns, ← hcontents, Sink.contents]

/-- Two columns in chunks of twenty bytes: a missing field, an empty one, and one that is longer
than a chunk and begins the second tuple. -/
theorem stream_not_altered_three :
    (∀ field ∈ [none, some [], some (List.replicate 30 7)], Nullable.Fits field) ∧
    ∃ g : CopyFrame, ((start ⟨2, 20, by decide, by decide⟩ .accepting).after
        ([none, some [], some (List.replicate 30 7)].map .put)).finish = (.ok (), g) ∧
      g.sink.chunks.flatten = CopyStream.header ++ [0, 2, 0xFF, 0xFF, 0xFF, 0xFF, 0, 0, 0, 0,
        0, 2, 0, 0, 0, 30] ++ List.replicate 30 7 := by
  have hfits : ∀ field ∈ [none, some [], some (List.replicate 30 7)], Nullable.Fits field := by
    decide
  obtain ⟨-, -, g, hg, -, hflatten, -⟩ := stream_not_altered ⟨2, 20, by decide, by decide⟩ hfits
  refine ⟨hfits, g, hg, hflatten.trans ?_⟩
  decide

end CopyFrame

end SqlWire
