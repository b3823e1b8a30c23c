import SqlWire.Arrays.Builder
import SqlWire.Catalog.Registry
import SqlWire.Copy.Frame

/-!
# Writing rows

A writer puts values into a frame and counts them: a row has exactly as many
fields as the stream has columns.  A field too many is refused before anything
else is looked at, then a value that has no wire form.
-/

namespace SqlWire

/-- A writer of rows. -/
structure CopyWriter where
  frame : CopyFrame
  /-- How many fields the current row has. -/
  inRow : Nat
  /-- How many rows are complete. -/
  rows : Nat

namespace CopyWriter

/-- A writer at the start of a stream. -/
def start (config : CopyConfig) (sink : Sink) : CopyWriter := ⟨.start config sink, 0, 0⟩

/-- Fails when the current row is full. -/
def checkRoom (w : CopyWriter) : Except Error Unit :=
  let columns := w.frame.columns
  if w.inRow < columns then .ok ()
  else .error (.invalidOperation s!"row already has {columns} fields")

/-- The failure of a row that has too few fields. -/
def shortRow (w : CopyWriter) : Error :=
  let fields := w.inRow
  let columns := w.frame.columns
  .invalidOperation s!"row has {fields} of {columns} fields"

/-! ### Fields -/

/-- Adds a field to the row. -/
def put (w : CopyWriter) (field : Nullable) : Except Error Unit × CopyWriter :=
  match w.checkRoom with
  | .error e => (.error e, w)
  | .ok () =>
    match w.frame.put field with
    | (.ok (), frame) => (.ok (), { w with frame, inRow := w.inRow + 1 })
    | (.error e, frame) => (.error e, { w with frame })

/-- Adds a field whose bytes may have failed to be made. -/
def putForm (w : CopyWriter) (form : Except Error Bytes) : Except Error Unit × CopyWriter :=
  match w.checkRoom, form with
  | .error e, _ => (.error e, w)
  | .ok (), .error e => (.error e, w)
  | .ok (), .ok bytes => w.put (some bytes)

def writeNull (w : CopyWriter) : Except Error Unit × CopyWriter := w.put none

/-- Adds a value of a scalar type. -/
def writeScalar {α : Type} [Scalar α] (w : CopyWriter) (x : α) : Except Error Unit × CopyWriter :=
  w.putForm (.ok (Scalar.encode x))

def writeText (w : CopyWriter) (s : String) : Except Error Unit × CopyWriter :=
  w.put (some (Bytes.ofText s))

def writeBytes (w : CopyWriter) (bytes : Bytes) : Except Error Unit × CopyWriter :=
  w.put (some bytes)

def writeNumeric (w : CopyWriter) (n : Numeric) : Except Error Unit × CopyWriter :=
  w.putForm n.encode

/-- Adds a value of any type. -/
def writeValue (w : CopyWriter) (v : Value) : Except Error Unit × CopyWriter :=
  w.putForm v.encode

/-- Adds a value, or a missing one. -/
def writeOptional (w : CopyWriter) : Option Value → Except Error Unit × CopyWriter
  | some v => w.writeValue v
  | none => w.writeNull

/-- Adds the one-dimensional array of some values of a type. -/
def writeArray (w : CopyWriter) (registry : Registry) (t : DataType)
    (items : List (Option Value)) : Except Error Unit × CopyWriter :=
  match registry.requireArrayOf t >>= fun _ => ArrayBuilder.encodeList t items with
  | .ok bytes => w.writeBytes bytes
  | .error e => (.error e, w)

/-! ### Rows -/

/-- Ends the row, which has to be full. -/
def endRow (w : CopyWriter) : Except Error Unit × CopyWriter :=
  if w.inRow = w.frame.columns then (.ok (), { w with inRow := 0, rows := w.rows + 1 })
  else (.error w.shortRow, w)

/-- Ends the stream, between two rows. -/
def finish (w : CopyWriter) : Except Error Unit × CopyWriter :=
  if w.inRow = 0 then
    let (outcome, frame) := w.frame.finish
    (outcome, { w with frame })
  else (.error w.shortRow, w)

/-! ### Calls -/

/-- What can be asked of a writer. -/
inductive Call : Type 1 where
  | null
  | scalar {α : Type} [Scalar α] (x : α)
  | text (s : String)
  | bytes (raw : Bytes)
  | numeric (n : Numeric)
  | value (v : Value)
  | optional (v : Option Value)
  | array (registry : Registry) (t : DataType) (items : List (Option Value))
  | endRow
  | finish

def call (w : CopyWriter) : Call → Except Error Unit × CopyWriter
  | .null => w.writeNull
  | @Call.scalar _ _ x => w.writeScalar x
  | .text s => w.writeText s
  | .bytes raw => w.writeBytes raw
  | .numeric n => w.writeNumeric n
  | .value v => w.writeValue v
  | .optional v => w.writeOptional v
  | .array registry t items => w.writeArray registry t items
  | .endRow => w.endRow
  | .finish => w.finish

end CopyWriter

end SqlWire
