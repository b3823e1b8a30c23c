import SqlWire.Record.Column

/-!
# Building records

A record is its number of columns, then the columns.  The number is known only
at the end: a word is set aside for it before the first column, and filled in
when the record is finished.

A value is written behind the length that is foretold for it.  What was written
of a value that turns out to have no wire form is cut off again, and such a
column does not count.
-/

namespace SqlWire

/-- A record under construction. -/
structure RecordBuilder where
  /-- The word for the number of columns, so far. -/
  columns : Int32
  /-- The bytes so far, which are none until the word for the number is set aside. -/
  buffer : Bytes
  deriving Repr, DecidableEq, Inhabited

namespace RecordBuilder

/-- The record with no columns yet. -/
def empty : RecordBuilder := ⟨0, []⟩

def size (b : RecordBuilder) : Nat := b.columns.toInt64.toUInt64.toNat

/-- Sets a word aside for the number of columns, if nothing is written yet. -/
def withPlace (b : RecordBuilder) : RecordBuilder :=
  if b.buffer = [] then { b with buffer := Word.toBytes (0 : Int32) } else b

/-- The length word of a column of so many bytes. -/
def lengthWord : Nat → Except Error Int32 :=
  Nullable.lengthWordOr (.outOfRange "record" "column longer than 2^31-1 bytes")

/-- Writes what comes before the bytes of a column. -/
def withColumnHeader (b : RecordBuilder) (oid : Oid) (length : Int32) : RecordBuilder :=
  { b with buffer := b.buffer ++ (Word.toBytes oid ++ Word.toBytes length) }

/-! ### Columns -/

def pushNull (b : RecordBuilder) (oid : Oid) : Except Error Unit × RecordBuilder :=
  let b := b.withPlace.withColumnHeader oid Nullable.missing
  (.ok (), { b with columns := b.columns + 1 })

def pushBytes (b : RecordBuilder) (oid : Oid) (bytes : Bytes) :
    Except Error Unit × RecordBuilder :=
  match lengthWord bytes.length with
  | .error e => (.error e, b)
  | .ok length =>
    let b := b.withPlace.withColumnHeader oid length
    (.ok (), { b with buffer := b.buffer ++ bytes, columns := b.columns + 1 })

/-- Adds a column with a value of the type of the value. -/
def pushValue (b : RecordBuilder) (v : Value) : Except Error Unit × RecordBuilder :=
  match lengthWord v.encodedLength with
  | .error e => (.error e, b)
  | .ok length =>
    let b := b.withPlace
    let start := b.buffer.length
    let b := b.withColumnHeader v.typeOid length
    match b.buffer.appendForm v.encode with
    | (.ok (), buffer) => (.ok (), { b with buffer, columns := b.columns + 1 })
    | (.error e, buffer) => (.error e, { b with buffer := buffer.take start })

def finish (b : RecordBuilder) : Bytes :=
  b.withPlace.buffer.overwrite 0 (Word.toBytes b.columns)

end RecordBuilder

end SqlWire
