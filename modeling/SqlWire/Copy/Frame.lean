import SqlWire.Bytes.Nullable
import SqlWire.Copy.Config
import SqlWire.Copy.Sink

/-!
# Framing a copy stream

A frame turns fields into a copy stream: the stream header, then for each tuple
its number of columns and its fields.  It gathers bytes in a buffer and sends
the buffer when it is full and more has to go in, so that a full buffer waits
for the next byte.  Every chunk but the last has exactly the capacity.

A tuple begins with its first field, not with the end of the one before.  When
the sink refuses a chunk, the frame keeps the chunk and the refusal, and
answers every later call with it.
-/

namespace SqlWire

/-- What a frame is still good for. -/
inductive FramePhase where
  | active
  | finished
  /-- The sink has refused a chunk. -/
  | failed (reason : Error)
  deriving Repr, DecidableEq, Inhabited

/-- A copy stream in the making. -/
structure CopyFrame where
  config : CopyConfig
  sink : Sink
  /-- The bytes not sent yet. -/
  buffer : Bytes
  /-- How many fields of the current tuple are complete; none before the first tuple. -/
  position : Option Nat
  phase : FramePhase
  /-- How many full buffers have been sent. -/
  flushes : Nat

namespace CopyFrame

/-- A frame at the start of a stream. -/
def start (config : CopyConfig) (sink : Sink) : CopyFrame :=
  ⟨config, sink, CopyStream.header, none, .active, 0⟩

/-- How many fields each tuple has. -/
def columns (f : CopyFrame) : Nat := f.config.columns

/-- How many fields of the current tuple are complete. -/
def columnPosition (f : CopyFrame) : Nat := f.position.getD 0

/-- How many bytes are in the buffer. -/
def buffered (f : CopyFrame) : Nat := f.buffer.length

def isFinished (f : CopyFrame) : Bool := f.phase == .finished

def isFailed (f : CopyFrame) : Bool :=
  match f.phase with
  | .failed _ => true
  | _ => false

/-- Why the frame takes nothing more, if it does not. -/
def closedBy? (f : CopyFrame) : Option Error :=
  match f.phase with
  | .active => none
  | .finished => some .streamFinished
  | .failed reason => some reason

/-! ### Bytes -/

/-- How many more bytes the buffer takes. -/
def room (f : CopyFrame) : Nat := f.config.capacity - f.buffer.length

/-- What one pass of putting bytes into the buffer comes to. -/
inductive Pass where
  | done (outcome : Except Error Unit) (f : CopyFrame)
  /-- The buffer has been sent, and these bytes are still to come. -/
  | again (f : CopyFrame) (rest : Bytes)

/-- Puts into the buffer as many bytes as it takes, and sends it if more are to come. -/
def pass (f : CopyFrame) (bytes : Bytes) : Pass :=
  let rest := bytes.drop f.room
  if rest = [] then .done (.ok ()) { f with buffer := f.buffer ++ bytes }
  else
    let full := f.buffer ++ bytes.take f.room
    match f.sink.deliver (.chunk full) with
    | (.error reason, sink) =>
      .done (.error reason) { f with buffer := full, sink, phase := .failed reason }
    | (.ok (), sink) => .again { f with buffer := [], sink, flushes := f.flushes + 1 } rest

/-- A pass that is not the last one leaves less to do, even when the buffer took nothing. -/
theorem lt_of_pass_eq_again {f g : CopyFrame} {bytes rest : Bytes}
    (h : f.pass bytes = .again g rest) :
    g.buffer.length + rest.length < f.buffer.length + bytes.length := by
  have hcap := f.config.capacity_pos
  simp only [pass] at h
  split at h
  next => cases h
  next hrest =>
    have hlt := List.length_pos_iff.2 hrest
    rw [List.length_drop] at hlt
    split at h
    next => cases h
    next =>
      cases h
      simp only [room, List.length_nil, List.length_drop] at hlt ⊢
      omega

/-- Puts bytes into the buffer, and sends it each time it is full and more are to come. -/
def emit (f : CopyFrame) (bytes : Bytes) : Except Error Unit × CopyFrame :=
  match _hpass : f.pass bytes with
  | .done outcome g => (outcome, g)
  | .again g rest => emit g rest
  termination_by f.buffer.length + bytes.length
  decreasing_by exact lt_of_pass_eq_again (by assumption)

/-! ### Fields -/

/-- How many fields the current tuple has, if it takes another one. -/
def openTuple? (f : CopyFrame) : Option Nat := f.position.filter fun p => decide (p < f.columns)

/-- Bytes of a field, and how many fields of the tuple are complete when they are out. -/
structure Piece where
  bytes : Bytes
  position : Nat

/-- The length word of a field and its bytes, `position` fields into the tuple. -/
def fieldPieces (field : Nullable) (position : Nat) : List Piece :=
  [⟨Word.toBytes field.lengthWord, position⟩, ⟨field.getD [], position + 1⟩]

/-- What goes out for the next field.  If it begins a tuple, the number of columns goes first. -/
def pieces (f : CopyFrame) (field : Nullable) : List Piece :=
  match f.openTuple? with
  | some p => fieldPieces field p
  | none => ⟨Word.toBytes (Int16.ofNat f.columns), 0⟩ :: fieldPieces field 0

/-- Puts pieces into the buffer, one after the other, until the sink refuses a chunk. -/
def emitAll : CopyFrame → List Piece → Except Error Unit × CopyFrame
  | f, [] => (.ok (), f)
  | f, piece :: rest =>
    match f.emit piece.bytes with
    | (.ok (), g) => emitAll { g with position := some piece.position } rest
    | (.error reason, g) => (.error reason, g)

/-- Puts the next field. -/
def put (f : CopyFrame) (field : Nullable) : Except Error Unit × CopyFrame :=
  match f.closedBy? with
  | some reason => (.error reason, f)
  | none =>
    if field.Fits then f.emitAll (f.pieces field)
    else (.error (.outOfRange "copy" "field longer than 2^31-1 bytes"), f)

/-! ### The stream as a whole -/

/-- Forgets what is in the buffer and begins a stream of so many columns.  What has been sent stays
sent. -/
def reset (f : CopyFrame) (columns : Nat) : Except Error Unit × CopyFrame :=
  match f.closedBy?, CopyConfig.make columns f.config.capacity with
  | some reason, _ => (.error reason, f)
  | none, .error reason => (.error reason, f)
  | none, .ok config => (.ok (), { f with config, buffer := CopyStream.header, position := none })

/-- Sends what is in the buffer. -/
def flushRest (f : CopyFrame) : Except Error Unit × CopyFrame :=
  if f.buffer = [] then (.ok (), f)
  else match f.sink.deliver (.chunk f.buffer) with
    | (.ok (), sink) => (.ok (), { f with buffer := [], sink })
    | (.error reason, sink) => (.error reason, { f with sink, phase := .failed reason })

/-- Ends the stream: sends what is left, and tells the sink.  The stream counts as finished even if
the sink refuses the word of it. -/
def finish (f : CopyFrame) : Except Error Unit × CopyFrame :=
  match f.closedBy? with
  | some reason => (.error reason, f)
  | none =>
    match f.flushRest with
    | (.error reason, f) => (.error reason, f)
    | (.ok (), f) =>
      let (outcome, sink) := f.sink.deliver .close
      (outcome, { f with sink, position := none, phase := .finished })

end CopyFrame

end SqlWire
