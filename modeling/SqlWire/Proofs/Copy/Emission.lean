import SqlWire.Proofs.Copy.Layout

/-!
# What a frame puts out

`CopyFrame.output` is the stream as far as a frame has it: what the sink has accepted,
then what waits in the buffer.  Putting bytes appends them to the output, whatever
chunks they leave in (`Took`); if the sink refuses a chunk on the way, a part of them
is appended and the rest is not (`Broke`).

`pass_cases` says all that one pass of the loop can do.  From it `emit_emission` and
`emitAll_emission` say by induction what a whole run of passes comes to: one of the
two.  `Regular` is what each pass keeps.
-/

namespace SqlWire

namespace CopyFrame

variable {f g k : CopyFrame} {bytes more : Bytes} {e : Error}

/-- The stream so far: what the sink has accepted, and what waits to be sent. -/
def output (f : CopyFrame) : Bytes := f.sink.contents ++ f.buffer

/-- The sink has taken whole buffers only, and the buffer holds no more than the capacity. -/
structure Regular (f : CopyFrame) : Prop where
  offered_eq : f.sink.offered = f.sink.chunks.map .chunk
  accepted_eq : f.sink.accepted = f.sink.chunks.map .chunk
  length_chunk : ∀ chunk ∈ f.sink.chunks, chunk.length = f.config.capacity
  length_chunks : f.sink.chunks.length = f.flushes
  buffer_le : f.buffer.length ≤ f.config.capacity

/-- A frame after bytes have been put into it. -/
structure Took (f : CopyFrame) (bytes : Bytes) (g : CopyFrame) : Prop where
  regular : g.Regular
  config_eq : g.config = f.config
  phase_eq : g.phase = f.phase
  refusal_eq : g.sink.refusal = f.sink.refusal
  output_eq : g.output = f.output ++ bytes

/-- A frame after the sink has refused a chunk while bytes were put into it. -/
structure Broke (f : CopyFrame) (bytes : Bytes) (e : Error) (g : CopyFrame) : Prop where
  phase_eq : g.phase = .failed e
  refused : ∃ before chunk, g.sink.offered = before ++ [.chunk chunk] ∧
    f.sink.refusal before (.chunk chunk) = some e
  output_prefix : f.output <+: g.output
  prefix_output : g.output <+: f.output ++ bytes

/-- What putting bytes into a frame comes to.  A buffer that has held a byte is not empty again. -/
inductive Emission (f : CopyFrame) (bytes : Bytes) : Except Error Unit × CopyFrame → Prop
  | took {g : CopyFrame} : Took f bytes g → (f.buffer ++ bytes ≠ [] → g.buffer ≠ []) →
      Emission f bytes (.ok (), g)
  | broke {g : CopyFrame} {e : Error} : Broke f bytes e g → Emission f bytes (.error e, g)

theorem Regular.took_nil (h : f.Regular) : Took f [] f :=
  ⟨h, rfl, rfl, rfl, (List.append_nil _).symm⟩

theorem Took.trans (hfg : Took f bytes g) (hgk : Took g more k) : Took f (bytes ++ more) k where
  regular := hgk.regular
  config_eq := hgk.config_eq.trans hfg.config_eq
  phase_eq := hgk.phase_eq.trans hfg.phase_eq
  refusal_eq := hgk.refusal_eq.trans hfg.refusal_eq
  output_eq := by rw [hgk.output_eq, hfg.output_eq, List.append_assoc]

theorem Took.broke (hfg : Took f bytes g) (hgk : Broke g more e k) :
    Broke f (bytes ++ more) e k where
  phase_eq := hgk.phase_eq
  refused := hfg.refusal_eq ▸ hgk.refused
  output_prefix := by
    refine List.IsPrefix.trans ?_ hgk.output_prefix
    rw [hfg.output_eq]
    exact List.prefix_append _ _
  prefix_output := by
    rw [← List.append_assoc, ← hfg.output_eq]
    exact hgk.prefix_output

theorem Broke.append (h : Broke f bytes e g) (more : Bytes) : Broke f (bytes ++ more) e g where
  phase_eq := h.phase_eq
  refused := h.refused
  output_prefix := h.output_prefix
  prefix_output := by
    rw [← List.append_assoc]
    exact h.prefix_output.trans (List.prefix_append _ _)

theorem Took.emission {r : Except Error Unit × CopyFrame} (hfg : Took f bytes g)
    (h : Emission g more r) (hne : f.buffer ++ (bytes ++ more) ≠ [] → g.buffer ++ more ≠ []) :
    Emission f (bytes ++ more) r := by
  cases h with
  | took htook hbuffer => exact .took (hfg.trans htook) fun hall => hbuffer (hne hall)
  | broke hbroke => exact .broke (hfg.broke hbroke)

theorem Took.setPosition (h : Took f bytes g) (position : Option Nat) :
    Took f bytes { g with position } where
  regular := ⟨h.regular.offered_eq, h.regular.accepted_eq, h.regular.length_chunk,
    h.regular.length_chunks, h.regular.buffer_le⟩
  config_eq := h.config_eq
  phase_eq := h.phase_eq
  refusal_eq := h.refusal_eq
  output_eq := h.output_eq

/-! ### One pass -/

/-- **All that a pass can do.**  The bytes go into the buffer if they fit it.  If they do not, the
buffer is filled up, which takes a part of them, and the sink refuses it or takes it. -/
theorem pass_cases (f : CopyFrame) (bytes : Bytes) (hle : f.buffer.length ≤ f.config.capacity) :
    ((f.buffer ++ bytes).length ≤ f.config.capacity ∧
      f.pass bytes = .done (.ok ()) { f with buffer := f.buffer ++ bytes }) ∨
    ∃ sent rest, sent ++ rest = bytes ∧ rest ≠ [] ∧
      (f.buffer ++ sent).length = f.config.capacity ∧
      ((∃ e, f.sink.refusal f.sink.offered (.chunk (f.buffer ++ sent)) = some e ∧
        f.pass bytes = .done (.error e) { f with
          buffer := f.buffer ++ sent
          sink := f.sink.refuse (.chunk (f.buffer ++ sent))
          phase := .failed e }) ∨
      f.pass bytes = .again { f with
        buffer := []
        sink := f.sink.accept (.chunk (f.buffer ++ sent))
        flushes := f.flushes + 1 } rest) := by
  by_cases hrest : bytes.drop f.room = []
  · refine .inl ⟨?_, by rw [pass, if_pos hrest]⟩
    have hroom := List.drop_eq_nil_iff.1 hrest
    rw [room] at hroom
    rw [List.length_append]
    omega
  · refine .inr ⟨bytes.take f.room, bytes.drop f.room, List.take_append_drop _ _, hrest, ?_, ?_⟩
    · have hroom : f.room ≤ bytes.length := by
        by_contra hlt
        exact hrest (List.drop_eq_nil_of_le (by omega))
      rw [List.length_append, List.length_take_of_le hroom, room]
      omega
    · simp only [pass, if_neg hrest]
      split
      next e sink heq =>
        obtain ⟨hsome, rfl⟩ := Sink.of_deliver_eq_error heq
        exact .inl ⟨e, hsome, rfl⟩
      next sink heq =>
        obtain rfl := Sink.of_deliver_eq_ok heq
        exact .inr rfl

theorem pass_done {outcome : Except Error Unit} (hf : f.Regular)
    (h : f.pass bytes = .done outcome g) : Emission f bytes (outcome, g) := by
  rcases pass_cases f bytes hf.buffer_le with
    ⟨hle, heq⟩ | ⟨sent, rest, rfl, -, -, ⟨e, hsome, heq⟩ | heq⟩
  · rw [heq] at h
    cases h
    refine .took ⟨⟨hf.offered_eq, hf.accepted_eq, hf.length_chunk, hf.length_chunks, hle⟩,
      rfl, rfl, rfl, ?_⟩ id
    simp [output]
  · rw [heq] at h
    cases h
    refine .broke ⟨rfl, ⟨_, _, rfl, hsome⟩, ?_, ?_⟩
    · simp [output, Sink.contents]
    · simp [output, Sink.contents]
  · rw [heq] at h
    cases h

theorem pass_again {rest : Bytes} (hf : f.Regular) (h : f.pass bytes = .again g rest) :
    rest ≠ [] ∧ ∃ sent, sent ++ rest = bytes ∧ Took f sent g := by
  rcases pass_cases f bytes hf.buffer_le with
    ⟨-, heq⟩ | ⟨sent, rest', hsplit, hne, hfull, ⟨e, -, heq⟩ | heq⟩
  · rw [heq] at h
    cases h
  · rw [heq] at h
    cases h
  · rw [heq] at h
    cases h
    refine ⟨hne, sent, hsplit, ⟨?_, ?_, ?_, ?_, ?_⟩, rfl, rfl, rfl, ?_⟩
    · simp [hf.offered_eq]
    · simp [hf.accepted_eq]
    · intro chunk hchunk
      rw [Sink.chunks_accept_chunk, List.mem_append, List.mem_singleton] at hchunk
      rcases hchunk with hchunk | rfl
      · exact hf.length_chunk chunk hchunk
      · exact hfull
    · simp [hf.length_chunks]
    · exact Nat.zero_le _
    · rw [output, Sink.contents_accept_chunk, List.append_nil, output, List.append_assoc]

/-! ### All passes -/

/-- Putting bytes into a frame appends them to its output, or a part of them if the sink refuses a
chunk. -/
theorem emit_emission (hf : f.Regular) (bytes : Bytes) : Emission f bytes (f.emit bytes) := by
  induction f, bytes using emit.induct with
  | case1 f bytes outcome g hpass =>
    rw [emit, hpass]
    exact pass_done hf hpass
  | case2 f bytes g rest hpass ih =>
    -- what this pass took is out, and the passes after it do the rest
    obtain ⟨hrest, sent, rfl, htook⟩ := pass_again hf hpass
    rw [emit, hpass]
    dsimp only
    exact htook.emission (ih htook.regular) fun _ => List.append_ne_nil_of_right_ne_nil _ hrest

theorem emitAll_emission (hf : f.Regular) (pieces : List Piece) :
    Emission f (pieces.flatMap Piece.bytes) (f.emitAll pieces) := by
  induction pieces generalizing f with
  | nil => exact .took hf.took_nil (by rw [List.flatMap_nil, List.append_nil]; exact id)
  | cons piece rest ih =>
    have hemit := emit_emission hf piece.bytes
    rw [emitAll, List.flatMap_cons]
    cases hresult : f.emit piece.bytes with
    | mk outcome g =>
      rw [hresult] at hemit
      cases hemit with
      | broke hbroke => exact .broke (hbroke.append _)
      | took htook hne =>
        refine (htook.setPosition _).emission (ih (htook.setPosition _).regular) fun hall => ?_
        by_cases hfirst : f.buffer ++ piece.bytes = []
        · rw [← List.append_assoc, hfirst] at hall
          exact List.append_ne_nil_of_right_ne_nil _ hall
        · exact List.append_ne_nil_of_left_ne_nil (hne hfirst) _

theorem position_emitAll (f : CopyFrame) (front : List Piece) (piece : Piece)
    (h : f.emitAll (front ++ [piece]) = (.ok (), g)) : g.position = some piece.position := by
  induction front generalizing f with
  | nil =>
    simp only [List.nil_append, emitAll] at h
    split at h
    next => cases h; rfl
    next => cases h
  | cons first front ih =>
    simp only [List.cons_append, emitAll] at h
    split at h
    next => exact ih _ h
    next => cases h

end CopyFrame

end SqlWire
