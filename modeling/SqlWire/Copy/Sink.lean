import SqlWire.Bytes.Word

/-!
# Sinks

A sink is the receiving end of a copy stream.  It is handed chunks and, at the
end, word that the stream is complete; any of these deliveries it may refuse.
What it answers may depend on all deliveries made before, and on nothing else,
so a sink is its way of answering together with the deliveries it has seen.
-/

namespace SqlWire

/-- What is handed to a sink. -/
inductive Delivery where
  | chunk (bytes : Bytes)
  /-- The stream is complete. -/
  | close
  deriving Repr, DecidableEq, Inhabited

/-- A sink, and what it has been handed. -/
structure Sink where
  /-- Why a delivery is refused, if it is, given those before it. -/
  refusal : List Delivery → Delivery → Option Error
  /-- The deliveries made, refused ones included. -/
  offered : List Delivery
  /-- The deliveries accepted. -/
  accepted : List Delivery

namespace Sink

/-- A sink that nothing has been handed to. -/
def ofRefusal (refusal : List Delivery → Delivery → Option Error) : Sink := ⟨refusal, [], []⟩

/-- The sink that accepts everything. -/
def accepting : Sink := ofRefusal fun _ _ => none

/-- The sink when it has accepted a delivery. -/
def accept (s : Sink) (d : Delivery) : Sink :=
  { s with offered := s.offered ++ [d], accepted := s.accepted ++ [d] }

/-- The sink when it has refused a delivery. -/
def refuse (s : Sink) (d : Delivery) : Sink := { s with offered := s.offered ++ [d] }

/-- Hands a delivery to a sink. -/
def deliver (s : Sink) (d : Delivery) : Except Error Unit × Sink :=
  match s.refusal s.offered d with
  | some e => (.error e, s.refuse d)
  | none => (.ok (), s.accept d)

/-- The bytes of a delivery. -/
def bytes? : Delivery → Option Bytes
  | .chunk bytes => some bytes
  | .close => none

/-- The chunks accepted. -/
def chunks (s : Sink) : List Bytes := s.accepted.filterMap bytes?

/-- The sink knows that the stream is complete. -/
def isClosed (s : Sink) : Bool := s.accepted.contains .close

/-- The bytes accepted. -/
def contents (s : Sink) : Bytes := s.chunks.flatten

/-! ### What a delivery does -/

theorem of_deliver_eq_ok {s t : Sink} {d : Delivery} (h : s.deliver d = (.ok (), t)) :
    t = s.accept d := by
  unfold deliver at h
  split at h
  next => cases h
  next => cases h; rfl

theorem of_deliver_eq_error {s t : Sink} {d : Delivery} {e : Error}
    (h : s.deliver d = (.error e, t)) : s.refusal s.offered d = some e ∧ t = s.refuse d := by
  unfold deliver at h
  split at h
  next hsome => cases h; exact ⟨hsome, rfl⟩
  next => cases h

theorem deliver_of_accepting {s : Sink} (h : s.refusal = accepting.refusal) (d : Delivery) :
    s.deliver d = (.ok (), s.accept d) := by
  rw [deliver, h]
  rfl

@[simp] theorem offered_accept (s : Sink) (d : Delivery) :
    (s.accept d).offered = s.offered ++ [d] := rfl

@[simp] theorem accepted_accept (s : Sink) (d : Delivery) :
    (s.accept d).accepted = s.accepted ++ [d] := rfl

@[simp] theorem chunks_refuse (s : Sink) (d : Delivery) : (s.refuse d).chunks = s.chunks := rfl

@[simp] theorem chunks_accept_chunk (s : Sink) (bytes : Bytes) :
    (s.accept (.chunk bytes)).chunks = s.chunks ++ [bytes] := by
  simp [chunks, bytes?]

@[simp] theorem chunks_accept_close (s : Sink) : (s.accept .close).chunks = s.chunks := by
  simp [chunks, bytes?]

theorem contents_accept_chunk (s : Sink) (bytes : Bytes) :
    (s.accept (.chunk bytes)).contents = s.contents ++ bytes := by
  simp [contents]

end Sink

end SqlWire
