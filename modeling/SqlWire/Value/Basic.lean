import SqlWire.Calendar.Interval
import SqlWire.Calendar.Timestamp
import SqlWire.Numeric.Float
import SqlWire.Numeric.Wire
import SqlWire.Scalar.Text
import SqlWire.Scalar.Words

/-!
# Values

A `Value` is a value of any data type, together with that type.  Its wire form
is that of its type; reading needs the type, by catalog entry or by identifier.
-/

namespace SqlWire

/-- A value of some data type. -/
inductive Value where
  | bool (b : Bool)
  | bytea (bytes : Bytes)
  | name (s : String)
  | int8 (n : Int64)
  | int2 (n : Int16)
  | int4 (n : Int32)
  | text (s : String)
  | oid (n : Oid)
  | float4 (x : Binary32)
  | float8 (x : Binary64)
  | bpchar (s : String)
  | varchar (s : String)
  | date (d : Date)
  | time (t : TimeOfDay)
  | timestamp (t : Timestamp)
  | timestamptz (t : ZonedTimestamp)
  | interval (i : Interval)
  | timetz (t : ZonedTime)
  | bit (b : Bit)
  | numeric (n : Numeric)
  deriving Repr, DecidableEq, Inhabited

namespace Value

def dataType : Value → DataType
  | bool _ => .bool
  | bytea _ => .bytea
  | name _ => .name
  | int8 _ => .int8
  | int2 _ => .int2
  | int4 _ => .int4
  | text _ => .text
  | oid _ => .oid
  | float4 _ => .float4
  | float8 _ => .float8
  | bpchar _ => .bpchar
  | varchar _ => .varchar
  | date _ => .date
  | time _ => .time
  | timestamp _ => .timestamp
  | timestamptz _ => .timestamptz
  | interval _ => .interval
  | timetz _ => .timetz
  | bit _ => .bit
  | numeric _ => .numeric

/-- The identifier of the type of a value. -/
def typeOid (v : Value) : Oid := v.dataType.entry.oid

/-- The text of a textual value. -/
def text? : Value → Option String
  | name s | text s | bpchar s | varchar s => some s
  | _ => none

/-! ### Writing -/

/-- The wire form of a value.  Only a numeric can be without one. -/
def encode : Value → Except Error Bytes
  | bool b => .ok (Scalar.encode b)
  | bytea bytes => .ok bytes
  | name s | text s | bpchar s | varchar s => .ok (Bytes.ofText s)
  | int8 n => .ok (Scalar.encode n)
  | int2 n => .ok (Scalar.encode n)
  | int4 n => .ok (Scalar.encode n)
  | oid n => .ok (Scalar.encode n)
  | float4 x => .ok (Scalar.encode x)
  | float8 x => .ok (Scalar.encode x)
  | date d => .ok (Scalar.encode d)
  | time t => .ok (Scalar.encode t)
  | timestamp t => .ok (Scalar.encode t)
  | timestamptz t => .ok (Scalar.encode t)
  | interval i => .ok (Scalar.encode i)
  | timetz t => .ok (Scalar.encode t)
  | bit b => .ok (Scalar.encode b)
  | numeric n => n.encode

/-- How many bytes the wire form will take, known before it is made. -/
def encodedLength : Value → Nat
  | bytea bytes => bytes.length
  | name s | text s | bpchar s | varchar s => s.utf8ByteSize
  | numeric n => n.encodedLength
  | v => v.dataType.entry.fixedSize.getD 0

/-! ### Reading -/

/-- The value of a type that bytes spell. -/
def decode (t : DataType) (bytes : Bytes) : Except Error Value :=
  match t with
  | .bool => (Scalar.decode bytes).map bool
  | .bytea => .ok (bytea bytes)
  | .name => (Bytes.decodeText bytes).map name
  | .int8 => (Scalar.decode bytes).map int8
  | .int2 => (Scalar.decode bytes).map int2
  | .int4 => (Scalar.decode bytes).map int4
  | .text => (Bytes.decodeText bytes).map text
  | .oid => (Scalar.decode bytes).map oid
  | .float4 => (Scalar.decode bytes).map float4
  | .float8 => (Scalar.decode bytes).map float8
  | .bpchar => (Bytes.decodeText bytes).map bpchar
  | .varchar => (Bytes.decodeText bytes).map varchar
  | .date => (Scalar.decode bytes).map date
  | .time => (Scalar.decode bytes).map time
  | .timestamp => (Scalar.decode bytes).map timestamp
  | .timestamptz => (Scalar.decode bytes).map timestamptz
  | .interval => (Scalar.decode bytes).map interval
  | .timetz => (Scalar.decode bytes).map timetz
  | .bit => (Scalar.decode bytes).map bit
  | .numeric => (Numeric.decode bytes).map numeric

/-- The value of the type that an identifier names. -/
def decodeOid (id : Oid) (bytes : Bytes) : Except Error Value :=
  match DataType.ofOid? id with
  | some t => decode t bytes
  | none => .error (.invalidOperation s!"no binary codec for type {id}")

end Value

end SqlWire
