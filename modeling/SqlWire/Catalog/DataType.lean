import SqlWire.Bytes.Word

/-!
# The catalog of data types

The twenty built-in data types, each with the identifiers it goes by on the
wire.  `DataType.entry` is the whole catalog; `ofOid?_oid` says that a type's
identifier names no other type.
-/

namespace SqlWire

/-- The identifier of a type on the wire. -/
abbrev Oid := UInt32

/-- A built-in data type. -/
inductive DataType where
  | bool | bytea | name | int8 | int2 | int4 | text | oid | float4 | float8
  | bpchar | varchar | date | time | timestamp | timestamptz | interval | timetz | bit | numeric
  deriving Repr, DecidableEq, Inhabited

namespace DataType

/-- What the catalog records of a data type. -/
structure Entry where
  /-- The type's own identifier. -/
  oid : Oid
  /-- The identifier of the type of its arrays, where there is one. -/
  arrayOid : Option Oid
  /-- Its name in SQL. -/
  sqlName : String
  /-- How many bytes each value takes, where all take the same. -/
  fixedSize : Option Nat
  /-- Its values are texts. -/
  isTextual : Bool
  deriving Repr, DecidableEq

/-- The catalog. -/
def entry : DataType → Entry
  | bool => ⟨16, some 1000, "boolean", some 1, false⟩
  | bytea => ⟨17, some 1001, "bytea", none, false⟩
  | name => ⟨19, none, "name", none, true⟩
  | int8 => ⟨20, some 1016, "bigint", some 8, false⟩
  | int2 => ⟨21, some 1005, "smallint", some 2, false⟩
  | int4 => ⟨23, some 1007, "integer", some 4, false⟩
  | text => ⟨25, some 1009, "text", none, true⟩
  | oid => ⟨26, some 1028, "oid", some 4, false⟩
  | float4 => ⟨700, some 1021, "real", some 4, false⟩
  | float8 => ⟨701, some 1022, "double precision", some 8, false⟩
  | bpchar => ⟨1042, none, "character", none, true⟩
  | varchar => ⟨1043, some 1015, "character varying", none, true⟩
  | date => ⟨1082, some 1182, "date", some 4, false⟩
  | time => ⟨1083, some 1183, "time without time zone", some 8, false⟩
  | timestamp => ⟨1114, some 1115, "timestamp without time zone", some 8, false⟩
  | timestamptz => ⟨1184, some 1185, "timestamp with time zone", some 8, false⟩
  | interval => ⟨1186, some 1187, "interval", some 16, false⟩
  | timetz => ⟨1266, none, "time with time zone", some 12, false⟩
  | bit => ⟨1560, none, "bit", some 1, false⟩
  | numeric => ⟨1700, some 1231, "numeric", none, false⟩

/-- Every data type, by identifier. -/
def all : List DataType :=
  [bool, bytea, name, int8, int2, int4, text, oid, float4, float8, bpchar, varchar, date, time,
    timestamp, timestamptz, interval, timetz, bit, numeric]

/-- The data type that an identifier names. -/
def ofOid? (id : Oid) : Option DataType := all.find? fun t => t.entry.oid == id

theorem ofOid?_oid (t : DataType) : ofOid? t.entry.oid = some t := by cases t <;> decide

end DataType

end SqlWire
