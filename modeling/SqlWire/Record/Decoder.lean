import SqlWire.Bytes.Sequence
import SqlWire.Record.Column

/-!
# Reading records

A decoder has read the number of columns of a record and holds the sequence of
them.
-/

namespace SqlWire

/-- A record whose number of columns has been read. -/
structure RecordDecoder where
  columns : Nat
  fields : Sequence
  deriving Repr, DecidableEq, Inhabited

namespace RecordDecoder

def start (bytes : Bytes) : Except Error RecordDecoder := do
  let (columns, r) ← (Reader.start "record header" bytes).read Int32
  let columns := columns.toInt
  if columns < 0 then throw (.invalidBinary "record" s!"invalid number of columns {columns}")
  return ⟨columns.toNat, columns.toNat, r.rest⟩

/-- The next column and the decoder after it; none at the end. -/
def next? (d : RecordDecoder) : Option (Except Error Column × RecordDecoder) :=
  (d.fields.next? Column.decode).map fun (column, fields) => (column, { d with fields })

/-- What taking column after column gives, each with the sequence after it. -/
def run (d : RecordDecoder) : List (Except Error Column × Sequence) :=
  Sequence.run Column.decode d.fields.remaining d.fields.rest

/-- The sequence after the last column that can be taken. -/
def left (d : RecordDecoder) : Sequence := d.fields.left Column.decode

def values (d : RecordDecoder) : Except Error (List (Option Value)) :=
  Sequence.collect Column.decode Column.value d.fields.remaining d.fields.rest

end RecordDecoder

end SqlWire
