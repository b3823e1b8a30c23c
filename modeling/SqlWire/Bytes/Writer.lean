import SqlWire.Bytes.Word
import SqlWire.Error

/-!
# Writing at the end of a buffer

A `Writer` puts words and runs of bytes behind what a buffer holds already.  When it fails, what it
has put so far stays: nothing takes it back.
-/

namespace SqlWire

/-- Something that writes at the end of a buffer. -/
abbrev Writer := ExceptT Error (StateM Bytes) Unit

namespace Writer

/-- Writes some bytes. -/
def putBytes (bytes : Bytes) : Writer := modify (· ++ bytes)

/-- Writes a word. -/
def put {α : Type} [Word α] (x : α) : Writer := putBytes (Word.toBytes x)

end Writer

end SqlWire
