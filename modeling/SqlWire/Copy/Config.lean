import SqlWire.Bytes.Word

/-!
# Configuring a copy stream

A copy stream has a fixed number of columns and goes out in chunks of a fixed
capacity.  The stream header has to fit a chunk.
-/

namespace SqlWire

namespace CopyStream

/-- What every copy stream begins with: the signature, then two words of zero. -/
def header : Bytes :=
  [0x50, 0x47, 0x43, 0x4F, 0x50, 0x59, 0x0A, 0xFF, 0x0D, 0x0A, 0x00,
    0, 0, 0, 0, 0, 0, 0, 0]

/-- The most columns a tuple can have. -/
def maxColumns : Nat := 32767

/-- A tuple can have so many columns. -/
def ValidColumns (columns : Nat) : Prop := 1 ≤ columns ∧ columns ≤ maxColumns

instance (columns : Nat) : Decidable (ValidColumns columns) :=
  inferInstanceAs (Decidable (_ ∧ _))

/-- The failure of a number of columns that no tuple can have. -/
def invalidColumns (columns : Nat) : Error :=
  let most := maxColumns
  .invalidOperation s!"column count {columns} outside 1..={most}"

/-- The capacity of a chunk when nothing is said of it. -/
def defaultCapacity : Nat := 8192

end CopyStream

/-- How a copy stream is laid out. -/
structure CopyConfig where
  /-- How many fields each tuple has. -/
  columns : Nat
  /-- How many bytes a chunk holds. -/
  capacity : Nat
  columns_valid : CopyStream.ValidColumns columns
  header_fits : CopyStream.header.length ≤ capacity
  deriving Repr, DecidableEq

namespace CopyConfig

/-- The configuration of the given numbers.  A bad number of columns is told before a bad
capacity. -/
def make (columns capacity : Nat) : Except Error CopyConfig :=
  let least := CopyStream.header.length
  if hcolumns : CopyStream.ValidColumns columns then
    if hcapacity : CopyStream.header.length ≤ capacity then
      .ok ⟨columns, capacity, hcolumns, hcapacity⟩
    else .error (.invalidOperation
      s!"buffer capacity {capacity} is smaller than the {least}-byte stream header")
  else .error (CopyStream.invalidColumns columns)

theorem columns_pos (c : CopyConfig) : 0 < c.columns := c.columns_valid.1

theorem columns_le (c : CopyConfig) : c.columns ≤ 32767 := c.columns_valid.2

theorem capacity_pos (c : CopyConfig) : 0 < c.capacity :=
  Nat.lt_of_lt_of_le (by decide) c.header_fits

end CopyConfig

end SqlWire
