import SqlWire.Proofs.Copy.Accepting

/-!
# How full the buffer gets

`CopyFrame.emit` goes on until what is left fits the buffer, and works out the room in
it by a subtraction.  `putWithin` puts a field with an eye on both: it is given a number
of passes for each piece, and gives nothing when they are not enough, or when a pass
begins with more in the buffer than the capacity.

`emitWithin_eq` says that one pass more than there are flushes is enough, since every
pass but the last sends the buffer.  `buffer_occupancy` puts this together with the
number of bytes that `output` has.
-/

namespace SqlWire

namespace CopyFrame

/-- Puts bytes into the buffer in at most so many passes, none of which may begin with an overfull
buffer. -/
def emitWithin : Nat → CopyFrame → Bytes → Option (Except Error Unit × CopyFrame)
  | 0, _, _ => none
  | passes + 1, f, bytes =>
    if f.buffer.length ≤ f.config.capacity then
      match f.pass bytes with
      | .done outcome g => some (outcome, g)
      | .again g rest => emitWithin passes g rest
    else none

/-- Puts pieces into the buffer, each in at most so many passes. -/
def emitAllWithin (passes : Nat) : CopyFrame → List Piece → Option (Except Error Unit × CopyFrame)
  | f, [] => some (.ok (), f)
  | f, piece :: rest =>
    match f.emitWithin passes piece.bytes with
    | some (.ok (), g) => emitAllWithin passes { g with position := some piece.position } rest
    | some (.error reason, g) => some (.error reason, g)
    | none => none

/-- Puts the next field, each piece of it in at most so many passes. -/
def putWithin (passes : Nat) (f : CopyFrame) (field : Nullable) :
    Option (Except Error Unit × CopyFrame) :=
  match f.closedBy? with
  | some reason => some (.error reason, f)
  | none =>
    if field.Fits then emitAllWithin passes f (f.pieces field)
    else some (.error (.outOfRange "copy" "field longer than 2^31-1 bytes"), f)

variable {f g : CopyFrame} {bytes rest : Bytes} {passes : Nat}
  {r : Except Error Unit × CopyFrame}

/-! ### What the bounded loop gives is what the loop gives -/

theorem emit_eq_of_emitWithin (h : f.emitWithin passes bytes = some r) : f.emit bytes = r := by
  induction passes generalizing f bytes with
  | zero => cases h
  | succ passes ih =>
    rw [emitWithin] at h
    split at h
    next =>
      rw [emit]
      split at h
      next hpass =>
        rw [hpass]
        exact Option.some.inj h
      next hpass =>
        rw [hpass]
        exact ih h
    next => cases h

theorem emitAll_eq_of_emitAllWithin {pieces : List Piece}
    (h : emitAllWithin passes f pieces = some r) : f.emitAll pieces = r := by
  induction pieces generalizing f with
  | nil => exact Option.some.inj h
  | cons piece rest ih =>
    rw [emitAllWithin] at h
    rw [emitAll]
    split at h
    next hemit =>
      rw [emit_eq_of_emitWithin hemit]
      exact ih h
    next hemit =>
      rw [emit_eq_of_emitWithin hemit]
      exact Option.some.inj h
    next => cases h

theorem put_eq_of_putWithin {field : Nullable} (h : f.putWithin passes field = some r) :
    f.put field = r := by
  unfold putWithin at h
  unfold put
  cases hclosed : f.closedBy? with
  | some reason =>
    rw [hclosed] at h
    exact Option.some.inj h
  | none =>
    rw [hclosed] at h
    dsimp only at h ⊢
    by_cases hfits : field.Fits
    · rw [if_pos hfits] at h ⊢
      exact emitAll_eq_of_emitAllWithin h
    · rw [if_neg hfits] at h ⊢
      exact Option.some.inj h

/-! ### Every pass but the last is a flush -/

theorem flushes_of_pass_done {outcome : Except Error Unit} (h : f.pass bytes = .done outcome g) :
    g.flushes = f.flushes := by
  simp only [pass] at h
  split at h
  next => cases h; rfl
  next =>
    split at h
    next => cases h; rfl
    next => cases h

theorem flushes_of_pass_again (h : f.pass bytes = .again g rest) : g.flushes = f.flushes + 1 := by
  simp only [pass] at h
  split at h
  next => cases h
  next =>
    split at h
    next => cases h
    next => cases h; rfl

theorem flushes_le_emit (f : CopyFrame) (bytes : Bytes) :
    f.flushes ≤ (f.emit bytes).2.flushes := by
  induction f, bytes using emit.induct with
  | case1 f bytes outcome g hpass =>
    rw [emit, hpass]
    exact (flushes_of_pass_done hpass).ge
  | case2 f bytes g rest hpass ih =>
    rw [emit, hpass]
    have hflush := flushes_of_pass_again hpass
    exact le_trans (by omega) ih

theorem flushes_le_emitAll (f : CopyFrame) (pieces : List Piece) :
    f.flushes ≤ (f.emitAll pieces).2.flushes := by
  induction pieces generalizing f with
  | nil => exact le_rfl
  | cons piece rest ih =>
    have hemit := flushes_le_emit f piece.bytes
    rw [emitAll]
    split
    next g heq =>
      rw [heq] at hemit
      exact hemit.trans (ih { g with position := some piece.position })
    next heq =>
      rw [heq] at hemit
      exact hemit

/-- The loop ends after as many flushes and one pass, and the buffer is never overfull. -/
theorem emitWithin_eq (hf : f.Regular)
    (hpasses : (f.emit bytes).2.flushes < f.flushes + passes) :
    f.emitWithin passes bytes = some (f.emit bytes) := by
  induction f, bytes using emit.induct generalizing passes with
  | case1 f bytes outcome g hpass =>
    rw [emit, hpass] at hpasses ⊢
    cases passes with
    | zero => exact absurd (flushes_of_pass_done hpass) (Nat.ne_of_lt hpasses)
    | succ passes => rw [emitWithin, if_pos hf.buffer_le, hpass]
  | case2 f bytes g rest hpass ih =>
    obtain ⟨-, sent, -, htook⟩ := pass_again hf hpass
    have hflush := flushes_of_pass_again hpass
    have hle := flushes_le_emit g rest
    rw [emit, hpass] at hpasses ⊢
    dsimp only at hpasses ⊢
    cases passes with
    | zero => omega
    | succ passes =>
      -- the pass that is spent is a flush that is made, so that budget and count go together
      rw [emitWithin, if_pos hf.buffer_le, hpass]
      exact ih htook.regular (by omega)

theorem emitAllWithin_eq {pieces : List Piece} (hf : f.Regular)
    (hpasses : (f.emitAll pieces).2.flushes < f.flushes + passes) :
    emitAllWithin passes f pieces = some (f.emitAll pieces) := by
  induction pieces generalizing f with
  | nil => rfl
  | cons piece rest ih =>
    have hemission := emit_emission hf piece.bytes
    have hfirst := flushes_le_emit f piece.bytes
    have hwithin (hle : (f.emit piece.bytes).2.flushes < f.flushes + passes) := emitWithin_eq hf hle
    rw [emitAll] at hpasses ⊢
    rw [emitAllWithin]
    cases hresult : f.emit piece.bytes with
    | mk outcome g =>
      rw [hresult] at hemission hfirst hwithin hpasses
      cases hemission with
      | broke hbroke => rw [hwithin hpasses]
      | took htook =>
        have hrest := flushes_le_emitAll { g with position := some piece.position } rest
        rw [hwithin (lt_of_le_of_lt hrest hpasses)]
        refine ih (htook.setPosition _).regular (hpasses.trans_le ?_)
        exact Nat.add_le_add_right hfirst passes

theorem putWithin_eq (hf : f.Regular) (field : Nullable) :
    f.putWithin ((f.put field).2.flushes - f.flushes + 1) field = some (f.put field) := by
  unfold putWithin put
  cases f.closedBy? with
  | some reason => rfl
  | none =>
    dsimp only
    by_cases hfits : field.Fits
    · rw [if_pos hfits, if_pos hfits]
      have hle := flushes_le_emitAll f (f.pieces field)
      exact emitAllWithin_eq hf (by omega)
    · rw [if_neg hfits, if_neg hfits]

/-! ### Counting the bytes -/

theorem Regular.length_output (h : f.Regular) :
    f.output.length = f.flushes * f.config.capacity + f.buffered := by
  have hchunks : f.sink.chunks.map List.length =
      List.replicate f.flushes f.config.capacity := by
    rw [List.eq_replicate_iff, List.length_map, h.length_chunks]
    exact ⟨rfl, by simpa using h.length_chunk⟩
  rw [output, List.length_append, Sink.contents, List.length_flatten, hchunks, List.sum_replicate,
    smul_eq_mul, buffered]

/-- **How full the buffer is, and how often it has been sent.**  After any fields, the next one goes
out in a bounded number of passes, in none of which the room in the buffer is less than nothing.
The buffer holds at least one byte and at most the capacity, and with the flushes it accounts for
every byte of the stream.  Every chunk so far has exactly the capacity, and finishing sends exactly
one more, which is not empty and no longer than the others. -/
theorem buffer_occupancy (config : CopyConfig) (fields : List Nullable) :
    let f := (start config .accepting).after (fields.map .put)
    (∀ field, f.putWithin ((f.put field).2.flushes - f.flushes + 1) field = some (f.put field)) ∧
    (1 ≤ f.buffered ∧ f.buffered ≤ config.capacity) ∧
    f.flushes * config.capacity + f.buffered =
      (CopyStream.form config.columns (fields.filter (·.Fits))).length ∧
    (∀ delivery ∈ f.sink.offered,
      ∃ chunk, delivery = .chunk chunk ∧ chunk.length = config.capacity) ∧
    ∃ last, f.finish.1 = .ok () ∧
      f.finish.2.sink.offered = f.sink.offered ++ [.chunk last, .close] ∧
      1 ≤ last.length ∧ last.length ≤ config.capacity := by
  intro f
  obtain ⟨hconfig, hrefusal, hcarries⟩ := carries_puts config fields
  have hregular := hcarries.regular
  have hpos : 1 ≤ f.buffered := List.length_pos_iff.2 hcarries.buffer_ne
  have hle : f.buffered ≤ config.capacity := hconfig ▸ hregular.buffer_le
  refine ⟨putWithin_eq hregular, ⟨hpos, hle⟩, ?_, ?_, ?_⟩
  · have hlength := hregular.length_output
    rw [hcarries.output_eq, columns, hconfig] at hlength
    exact hlength.symm
  · intro delivery hdelivery
    rw [hregular.offered_eq] at hdelivery
    obtain ⟨chunk, hchunk, rfl⟩ := List.mem_map.1 hdelivery
    exact ⟨chunk, rfl, hconfig ▸ hregular.length_chunk chunk hchunk⟩
  · refine ⟨f.buffer, ?_, ?_, hpos, hle⟩
    · rw [hcarries.finish_accepting hrefusal]
    · rw [hcarries.finish_accepting hrefusal]
      simp [f]

end CopyFrame

end SqlWire
