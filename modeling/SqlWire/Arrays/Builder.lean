import SqlWire.Arrays.Header
import SqlWire.Arrays.Item

/-!
# Building arrays

A builder starts from a header and takes elements one by one, as many as the
header announces.  The header goes into the buffer before the first element, or
at the end if there is none.  An element is written straight into the buffer,
behind a length word that is filled in when its length is known, and what was
written of an element that fails is cut off again.

Whether elements are missing is known only at the end, so it is then that the
flag for it is set in the header that is already there.
-/

namespace SqlWire

-- powers are those of the core library, whatever else is in scope
attribute [local instance (2000)] instPowNat

/-- An array under construction. -/
structure ArrayBuilder where
  header : ArrayHeader
  /-- How many elements it has so far. -/
  written : Nat
  /-- Some of them are missing. -/
  hasNulls : Bool
  /-- The bytes so far, which are none until the header is written. -/
  buffer : Bytes
  deriving Repr, DecidableEq, Inhabited

namespace ArrayBuilder

/-- The array with no elements yet. -/
def start (header : ArrayHeader) : ArrayBuilder := ⟨header, 0, false, []⟩

/-- How many elements there have to be. -/
def expected (b : ArrayBuilder) : Nat := b.header.elementCount

/-- Fails when there are as many elements as announced. -/
def checkRoom (b : ArrayBuilder) : Except Error Unit :=
  let expected := b.expected
  if b.written < expected then .ok ()
  else .error (.invalidOperation s!"array declares {expected} elements")

/-- Writes the header, if nothing is written yet. -/
def withHeader (b : ArrayBuilder) : ArrayBuilder :=
  if b.buffer = [] then { b with buffer := b.header.encode } else b

/-- The length word of an element of so many bytes. -/
def lengthWord (length : Nat) : Except Error Int32 :=
  if length < 2 ^ (31 : Nat) then .ok (Int32.ofNat length)
  else .error (.outOfRange "array" "element longer than 2^31-1 bytes")

/-! ### Elements -/

def pushNull (b : ArrayBuilder) : Except Error Unit × ArrayBuilder :=
  match b.checkRoom with
  | .error e => (.error e, b)
  | .ok () =>
    let b := b.withHeader
    (.ok (), { b with
      buffer := b.buffer ++ Word.toBytes Nullable.missing
      hasNulls := true
      written := b.written + 1 })

/-- Adds the element whose bytes `write` appends to the buffer. -/
def pushWith (b : ArrayBuilder) (write : Bytes → Except Error Unit × Bytes) :
    Except Error Unit × ArrayBuilder :=
  match b.checkRoom with
  | .error e => (.error e, b)
  | .ok () =>
    let b := b.withHeader
    let position := b.buffer.length
    let placeholder := Word.toBytes (0 : Int32)
    let (outcome, buffer) := write (b.buffer ++ placeholder)
    match outcome.bind fun () => lengthWord (buffer.length - (position + placeholder.length)) with
    | .ok length => (.ok (), { b with
        buffer := buffer.overwrite position (Word.toBytes length)
        written := b.written + 1 })
    | .error e => (.error e, { b with buffer := buffer.take position })

def pushBytes (b : ArrayBuilder) (bytes : Bytes) : Except Error Unit × ArrayBuilder :=
  b.pushWith fun buffer => (.ok (), buffer ++ bytes)

/-- Adds a value, which has to be of the type of the elements. -/
def pushValue (b : ArrayBuilder) (v : Value) : Except Error Unit × ArrayBuilder :=
  let found := v.typeOid
  let element := b.header.element
  if found = element then b.pushWith fun buffer => buffer.appendForm v.encode
  else (.error (.invalidOperation s!"element of type {found} in array of type {element}"), b)

/-- Adds a value, or a missing element. -/
def pushOptional (b : ArrayBuilder) : Option Value → Except Error Unit × ArrayBuilder
  | some v => b.pushValue v
  | none => b.pushNull

/-- Adds values and missing elements, until one is refused. -/
def pushAll (b : ArrayBuilder) : List (Option Value) → Except Error ArrayBuilder
  | [] => .ok b
  | item :: items =>
    match b.pushOptional item with
    | (.ok (), b) => pushAll b items
    | (.error e, _) => .error e

/-! ### The whole array -/

/-- The wire form of the array, once all elements are there. -/
def finish (b : ArrayBuilder) : Except Error Bytes :=
  let expected := b.expected
  let written := b.written
  if written = expected then
    let buffer := b.withHeader.buffer
    if b.hasNulls then
      -- the flag word is the second one
      .ok (buffer.overwrite 4 (Word.toBytes (b.header.flags ||| ArrayHeader.hasNulls)))
    else .ok buffer
  else .error (.invalidOperation s!"array declares {expected} elements, {written} written")

/-- The wire form of the one-dimensional array of some values of a type. -/
def encodeList (t : DataType) (items : List (Option Value)) : Except Error Bytes := do
  let header ← ArrayHeader.oneDimensional t.entry.oid items.length
  let b ← pushAll (start header) items
  b.finish

end ArrayBuilder

end SqlWire
