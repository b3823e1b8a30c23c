import SqlWire.Copy.Writer
import SqlWire.Value.Writing

/-!
# The ways of a field to its frame

A writer of rows has a call for each of fifteen types, and one for values of any type.  They go
different ways.  A text or a byte string is put as it is.  Everything else is first made in a
scratch buffer, once it is known that the row has room: a value of fixed width by the codec of its
type, a numeric by its own, and a value of any type word after word, a numeric among them after its
checks.  `ScratchWriter` goes these ways.
-/

namespace SqlWire

open Writer

/-- A writer of rows, with the buffer that it makes its fields in.  There is memory for each. -/
structure ScratchWriter where
  writer : CopyWriter
  /-- What the field made last has left. -/
  scratch : Bytes

namespace ScratchWriter

/-- Does what takes no buffer. -/
def directly (w : ScratchWriter) (act : CopyWriter → Except Error Unit × CopyWriter) :
    Except Error Unit × ScratchWriter :=
  let (outcome, writer) := act w.writer
  (outcome, { w with writer })

/-- Makes a field in the buffer, if the row has room, and puts it. -/
def putWith (w : ScratchWriter) (fill : Writer) : Except Error Unit × ScratchWriter :=
  match w.writer.checkRoom with
  | .error e => (.error e, w)
  | .ok () =>
    match (fill.run [] : Except Error Unit × Bytes) with
    | (.error e, scratch) => (.error e, { w with scratch })
    | (.ok (), scratch) => directly { w with scratch } (·.put (some scratch))

/-- Does what is asked of the writer, each field made in its own way. -/
def call (w : ScratchWriter) : CopyWriter.Call → Except Error Unit × ScratchWriter
  | @CopyWriter.Call.scalar _ _ x => w.putWith (putBytes (Scalar.encode x))
  | .numeric n => w.putWith n.write
  | .value v | .optional (some v) => w.putWith v.write
  | c => w.directly (·.call c)

end ScratchWriter

/-! ### Types with a call of their own -/

/-- A value of a type that a writer has a call for. -/
inductive TypedValue where
  | bool (b : Bool)
  | int2 (n : Int16)
  | int4 (n : Int32)
  | int8 (n : Int64)
  | float4 (x : Binary32)
  | float8 (x : Binary64)
  | text (s : String)
  | bytea (bytes : Bytes)
  | numeric (n : Numeric)
  | date (d : Date)
  | time (t : TimeOfDay)
  | timetz (t : ZonedTime)
  | timestamp (t : Timestamp)
  | timestamptz (t : ZonedTimestamp)
  | interval (i : Interval)

namespace TypedValue

/-- The value, of whatever type. -/
def value : TypedValue → Value
  | bool b => .bool b
  | int2 n => .int2 n
  | int4 n => .int4 n
  | int8 n => .int8 n
  | float4 x => .float4 x
  | float8 x => .float8 x
  | text s => .text s
  | bytea bytes => .bytea bytes
  | numeric n => .numeric n
  | date d => .date d
  | time t => .time t
  | timetz t => .timetz t
  | timestamp t => .timestamp t
  | timestamptz t => .timestamptz t
  | interval i => .interval i

/-- The call of its type. -/
def call : TypedValue → CopyWriter.Call
  | bool b => .scalar b
  | int2 n => .scalar n
  | int4 n => .scalar n
  | int8 n => .scalar n
  | float4 x => .scalar x
  | float8 x => .scalar x
  | text s => .text s
  | bytea bytes => .bytes bytes
  | numeric n => .numeric n
  | date d => .scalar d
  | time t => .scalar t
  | timetz t => .scalar t
  | timestamp t => .scalar t
  | timestamptz t => .scalar t
  | interval i => .scalar i

end TypedValue

end SqlWire
