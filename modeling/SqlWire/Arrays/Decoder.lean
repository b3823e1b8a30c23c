import SqlWire.Arrays.Header
import SqlWire.Arrays.Item
import SqlWire.Bytes.Sequence

/-!
# Reading arrays

A decoder has read the header of an array and holds the sequence of its
elements.
-/

namespace SqlWire

/-- An array whose header has been read. -/
structure ArrayDecoder where
  header : ArrayHeader
  items : Sequence
  deriving Repr, DecidableEq, Inhabited

namespace ArrayDecoder

def start (bytes : Bytes) : Except Error ArrayDecoder := do
  let (header, rest) ← ArrayHeader.decode bytes
  return ⟨header, header.elementCount, rest⟩

/-- The next element and the decoder after it; none at the end. -/
def next? (d : ArrayDecoder) : Option (Except Error Nullable × ArrayDecoder) :=
  (d.items.next? ArrayItem.decode).map fun (item, items) => (item, { d with items })

/-- What taking element after element gives, each with the sequence after it. -/
def run (d : ArrayDecoder) : List (Except Error Nullable × Sequence) :=
  Sequence.run ArrayItem.decode d.items.remaining d.items.rest

/-- The sequence after the last element that can be taken. -/
def left (d : ArrayDecoder) : Sequence := d.items.left ArrayItem.decode

/-- The values of all elements, in the type that the header names. -/
def values (d : ArrayDecoder) : Except Error (List (Option Value)) :=
  let element := d.header.element
  match DataType.ofOid? element with
  | some t => Sequence.collect ArrayItem.decode (ArrayItem.value t) d.items.remaining d.items.rest
  | none => .error (.invalidOperation s!"no binary codec for element type {element}")

end ArrayDecoder

end SqlWire
