import SqlWire.Bytes.Writer
import SqlWire.Value.Basic

/-!
# Writing values word after word

A value need not be made as a whole before it stands in a buffer: its words are written one after
the other.  Only a numeric can fail, and it is checked before its first word.
-/

namespace SqlWire

open Writer

/-- Writes a numeric, after all its checks. -/
def Numeric.write (n : Numeric) : Writer :=
  if 32767 < n.groups.length then
    throw (.outOfRange "numeric" "too many digits for wire format")
  else if !fitsWord n.weight then
    throw (.outOfRange "numeric" "weight overflows wire format")
  else if maxScale < n.scale then
    throw (.outOfRange "numeric" "display scale overflows wire format")
  else do
    put (UInt16.ofNat n.groups.length)
    put (Int16.ofInt n.weight)
    put (UInt16.ofNat n.sign.tag)
    put (UInt16.ofNat n.scale)
    n.groups.forM fun g => put (UInt16.ofNat g)

namespace Value

def write : Value → Writer
  | bool b => put (if b then 1 else 0 : UInt8)
  | bytea bytes => putBytes bytes
  | name s | text s | bpchar s | varchar s => putBytes (Bytes.ofText s)
  | int8 n => put n
  | int2 n => put n
  | int4 n => put n
  | oid n => put n
  | float4 x => put x
  | float8 x => put x
  | date d => put d.days
  | time t => put t.micros
  | timestamp t => put t.micros
  | timestamptz t => put t.micros
  | interval i => do
    put i.micros
    put i.days
    put i.months
  | timetz t => do
    put t.time.micros
    put t.zone
  | bit b => put (if b.isSet then 1 else 0 : UInt8)
  | numeric n => n.write

end Value

end SqlWire
