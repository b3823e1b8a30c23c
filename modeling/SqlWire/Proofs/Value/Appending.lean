import SqlWire.Proofs.Value.Length
import SqlWire.Value.Writing

/-!
# Values are appended whole or not at all

`Value.write` writes word after word, and nothing takes a word back that has been written.  What
keeps the buffer whole is the order: a numeric is checked before its first word, and no other value
can fail.

`Writes` says of a writer that it does to every buffer what a form does that has been made
beforehand.  Writers that succeed may follow one another (`Writes.andThen`), while one that
fails may do so only before anything is written.  `Value.writes_write` goes through the kinds
of values, and `written_whole_or_not_at_all` is what a caller may rely on.
-/

namespace SqlWire

namespace Writer

/-- On every buffer the writer does what the form would: it appends it, or fails and leaves the
buffer as it is. -/
def Writes (w : Writer) (form : Except Error Bytes) : Prop :=
  ∀ buffer : Bytes, w.run buffer = buffer.appendForm form

variable {w next : Writer} {bytes following : Bytes}

theorem writes_putBytes (bytes : Bytes) : Writes (putBytes bytes) (.ok bytes) := fun _ => rfl

theorem writes_put {α : Type} [Word α] (x : α) : Writes (put x) (.ok (Word.toBytes x)) :=
  writes_putBytes _

theorem writes_throw (e : Error) : Writes (throw e) (.error e) := fun _ => rfl

theorem writes_pure : Writes (pure ()) (.ok []) :=
  fun buffer => congrArg (Prod.mk (Except.ok ())) (List.append_nil buffer).symm

/-- What follows a writer that has succeeded finds its bytes in the buffer. -/
theorem run_andThen (h : Writes w (.ok bytes)) (buffer : Bytes) :
    (do w; next : Writer).run buffer = next.run (buffer ++ bytes) := by
  have hrun : w.run buffer = (.ok (), buffer ++ bytes) := h buffer
  unfold ExceptT.run at hrun ⊢
  simp only [bind, ExceptT.bind, ExceptT.mk, StateT.bind, hrun]
  rfl

theorem Writes.andThen (h : Writes w (.ok bytes)) (hnext : Writes next (.ok following)) :
    Writes (do w; next) (.ok (bytes ++ following)) := by
  intro buffer
  rw [run_andThen h, hnext, Bytes.appendForm, Bytes.appendForm, List.append_assoc]

theorem Writes.forM {α : Type} {write : α → Writer} {encode : α → Bytes}
    (h : ∀ x, Writes (write x) (.ok (encode x))) (xs : List α) :
    Writes (xs.forM write) (.ok (xs.flatMap encode)) := by
  induction xs with
  | nil => exact writes_pure
  | cons x xs ih => exact (h x).andThen ih

end Writer

open Writer

/-! ### Values -/

theorem Numeric.writes_write (n : Numeric) : Writes n.write n.encode := by
  unfold write encode
  by_cases hlength : 32767 < n.groups.length
  · rw [if_pos hlength, if_pos hlength]
    exact writes_throw _
  rw [if_neg hlength, if_neg hlength]
  by_cases hweight : (!fitsWord n.weight) = true
  · rw [if_pos hweight, if_pos hweight]
    exact writes_throw _
  rw [if_neg hweight, if_neg hweight]
  by_cases hscale : maxScale < n.scale
  · rw [if_pos hscale, if_pos hscale]
    exact writes_throw _
  rw [if_neg hscale, if_neg hscale, List.append_assoc, List.append_assoc, List.append_assoc]
  have hgroups := Writes.forM (fun g : Nat => writes_put (UInt16.ofNat g)) n.groups
  exact (writes_put _).andThen ((writes_put _).andThen ((writes_put _).andThen
    ((writes_put _).andThen hgroups)))

theorem Numeric.of_encode_eq_error {n : Numeric} {e : Error} (h : n.encode = .error e) :
    ¬ n.Sendable ∧ ∃ reason, e = .outOfRange "numeric" reason := by
  refine ⟨fun hsendable => ?_, ?_⟩
  · rw [(n.encode_eq_ok_iff n.wireForm).2 ⟨hsendable, rfl⟩] at h
    cases h
  · unfold encode at h
    split_ifs at h <;> cases h <;> exact ⟨_, rfl⟩

namespace Value

/-- **Written word after word, a value comes to what its form is.** -/
theorem writes_write (v : Value) : Writes v.write v.encode := by
  cases v with
  | bool b => cases b <;> exact writes_put _
  | bit b => obtain ⟨_ | _⟩ := b <;> exact writes_put _
  | bytea bytes => exact writes_putBytes bytes
  | name s | text s | bpchar s | varchar s => exact writes_putBytes _
  | interval i =>
    rw [encode, show Scalar.encode i = i.encode from rfl, Interval.encode, List.append_assoc]
    exact (writes_put _).andThen ((writes_put _).andThen (writes_put _))
  | timetz t => exact (writes_put t.time.micros).andThen (writes_put t.zone)
  | numeric n => exact n.writes_write
  | _ => exact writes_put _

theorem of_encode_eq_error {v : Value} {e : Error} (h : v.encode = .error e) :
    ∃ n reason, v = .numeric n ∧ ¬ n.Sendable ∧ e = .outOfRange "numeric" reason := by
  cases v with
  | numeric n =>
    obtain ⟨hnot, reason, rfl⟩ := Numeric.of_encode_eq_error h
    exact ⟨n, reason, rfl, hnot, rfl⟩
  | _ => cases h

/-- **A value is written whole or not at all**, and in its foretold length.  Word after word it does
to a buffer what its form does that has been made beforehand.  Either its bytes come to stand behind
those of the buffer, as many as foretold and the same behind any others, or it is refused and the
buffer is as before.  Refused is only a numeric whose number of groups, weight or display scale does
not fit the words of its form. -/
theorem written_whole_or_not_at_all (v : Value) :
    (∀ buffer : Bytes, v.write.run buffer = buffer.appendForm v.encode) ∧
    ((∃ bytes : Bytes, bytes.length = v.encodedLength ∧
        (∀ buffer : Bytes, v.write.run buffer = (.ok (), buffer ++ bytes)) ∧
        ∀ n, v = .numeric n → n.Sendable) ∨
      ∃ n reason, v = .numeric n ∧ ¬ n.Sendable ∧ ∀ buffer : Bytes,
        v.write.run buffer = (.error (.outOfRange "numeric" reason), buffer)) := by
  refine ⟨v.writes_write, ?_⟩
  cases hform : v.encode with
  | ok bytes =>
    refine .inl ⟨bytes, length_of_encode hform, fun buffer => ?_, ?_⟩
    · rw [v.writes_write, hform]
      rfl
    · rintro n rfl
      exact ((n.encode_eq_ok_iff bytes).1 hform).1
  | error e =>
    obtain ⟨n, reason, rfl, hnot, rfl⟩ := of_encode_eq_error hform
    refine .inr ⟨n, reason, rfl, hnot, fun buffer => ?_⟩
    rw [writes_write, hform]
    rfl

end Value

end SqlWire
