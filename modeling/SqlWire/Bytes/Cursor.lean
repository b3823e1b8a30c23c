import SqlWire.Bytes.Reader
import SqlWire.Bytes.Writer

/-!
# Words and bytes at a position

Words of several types and runs of bytes are written one after the other, and nothing on the wire
tells one from the next: who reads them has to ask for the same kinds in the same order.

A `Cursor` keeps all the bytes and a position in them, and a read moves the position in place, where
a `Reader` keeps only the bytes ahead.
-/

namespace SqlWire

/-! ### What is written and read at once -/

/-- The types of words. -/
inductive WordType where
  | uint8 | int16 | uint16 | int32 | uint32 | int64 | binary32 | binary64
  deriving Repr, DecidableEq

namespace WordType

/-- The words of a type. -/
def Carrier : WordType → Type
  | uint8 => UInt8
  | int16 => Int16
  | uint16 => UInt16
  | int32 => Int32
  | uint32 => UInt32
  | int64 => Int64
  | binary32 => Binary32
  | binary64 => Binary64

instance : (t : WordType) → Word t.Carrier
  | uint8 => inferInstanceAs (Word UInt8)
  | int16 => inferInstanceAs (Word Int16)
  | uint16 => inferInstanceAs (Word UInt16)
  | int32 => inferInstanceAs (Word Int32)
  | uint32 => inferInstanceAs (Word UInt32)
  | int64 => inferInstanceAs (Word Int64)
  | binary32 => inferInstanceAs (Word Binary32)
  | binary64 => inferInstanceAs (Word Binary64)

end WordType

/-- A word, or a run of bytes. -/
inductive Datum where
  | word (t : WordType) (x : t.Carrier)
  | bytes (bytes : Bytes)

/-- What can be asked for: a word of a type, or so many bytes. -/
inductive Kind where
  | word (t : WordType)
  | bytes (count : Nat)
  deriving Repr, DecidableEq

namespace Kind

/-- How many bytes it takes. -/
def width : Kind → Nat
  | word t => Word.width t.Carrier
  | bytes count => count

/-- What bytes spell. -/
def ofBytes : Kind → Bytes → Datum
  | word t, raw => .word t (Word.ofBytes t.Carrier raw)
  | bytes _, raw => .bytes raw

end Kind

namespace Datum

def kind : Datum → Kind
  | word t _ => .word t
  | bytes raw => .bytes raw.length

def encode : Datum → Bytes
  | word _ x => Word.toBytes x
  | bytes raw => raw

/-- Writes it behind what is in a buffer. -/
def put : Datum → Writer
  | word _ x => Writer.put x
  | bytes raw => Writer.putBytes raw

@[simp] theorem length_encode (x : Datum) : x.encode.length = x.kind.width := by
  cases x with
  | word t x => exact Word.length_toBytes x
  | bytes raw => rfl

@[simp] theorem ofBytes_encode (x : Datum) : x.kind.ofBytes x.encode = x := by
  cases x with
  | word t x => exact congrArg (word t) (Word.ofBytes_toBytes x)
  | bytes raw => rfl

theorem encode_ofBytes {k : Kind} {raw : Bytes} (h : raw.length = k.width) :
    (k.ofBytes raw).encode = raw := by
  cases k with
  | word t => exact Word.toBytes_ofBytes h
  | bytes count => rfl

end Datum

/-! ### A position in bytes -/

/-- All the bytes, and how many of them have been read. -/
structure Cursor where
  context : String
  bytes : Bytes
  position : Nat
  deriving Repr, DecidableEq

/-- A computation that moves a cursor.  What it has done to the cursor before a failure stays. -/
abbrev CursorM := ExceptT Error (StateM Cursor)

namespace Cursor

def start (context : String) (bytes : Bytes) : Cursor := ⟨context, bytes, 0⟩

/-- How many bytes lie ahead. -/
def remaining (c : Cursor) : Nat := c.bytes.length - c.position

def isEmpty (c : Cursor) : Bool := c.remaining == 0

/-- Fails when fewer than `n` bytes lie ahead. -/
def ensure (n : Nat) : CursorM Unit := do
  let c ← get
  if c.remaining < n then throw (.truncated c.context n c.remaining)

/-- Takes the next `n` bytes. -/
def take (n : Nat) : CursorM Bytes := do
  ensure n
  let c ← get
  set { c with position := c.position + n }
  return (c.bytes.drop c.position).take n

/-- Takes what is asked for. -/
def read (k : Kind) : CursorM Datum := do
  let raw ← take k.width
  return k.ofBytes raw

/-- Takes one thing after the other, from wherever the one before has left the cursor. -/
def readAll : List Kind → Cursor → List (Except Error Datum) × Cursor
  | [], c => ([], c)
  | k :: ks, c =>
    let (result, c) := (read k).run c
    let (results, c) := readAll ks c
    (result :: results, c)

end Cursor

end SqlWire
