import SqlWire.Catalog.DataType

/-!
# Registries of types

A registry knows types by identifier and by name, and which type is the array
of which.  The built-in one holds every data type of the catalog and the array
type of each that has one.
-/

namespace SqlWire

/-- What a registry records of a type. -/
structure TypeInfo where
  oid : Oid
  name : String
  /-- The type of the elements, of an array type. -/
  element : Option Oid
  /-- The type of the arrays of this type, where there is one. -/
  array : Option Oid
  deriving Repr, DecidableEq

/-- A set of known types. -/
structure Registry where
  types : List TypeInfo
  deriving Repr, DecidableEq

namespace Registry

/-- The registry that knows no type. -/
def empty : Registry := ⟨[]⟩

/-- What the built-in registry holds for one data type: the type, and the type of its arrays. -/
def typesOf (t : DataType) : List TypeInfo :=
  let e := t.entry
  ⟨e.oid, e.sqlName, none, e.arrayOid⟩ ::
    (e.arrayOid.map fun array => ⟨array, e.sqlName ++ "[]", some e.oid, none⟩).toList

/-- The registry of the whole catalog. -/
def builtin : Registry := ⟨DataType.all.flatMap typesOf⟩

def size (r : Registry) : Nat := r.types.length

def isEmpty (r : Registry) : Bool := r.types.isEmpty

def get? (r : Registry) (oid : Oid) : Option TypeInfo := r.types.find? fun t => t.oid == oid

def named? (r : Registry) (name : String) : Option TypeInfo :=
  r.types.find? fun t => t.name == name

/-- The type of the arrays of a type. -/
def arrayOf? (r : Registry) (element : Oid) : Option Oid := (r.get? element).bind (·.array)

/-- The type of the arrays of a data type, which has to be known. -/
def requireArrayOf (r : Registry) (t : DataType) : Except Error Oid :=
  match r.arrayOf? t.entry.oid with
  | some array => .ok array
  | none => .error (.invalidOperation ("no array type for " ++ t.entry.sqlName))

/-- The type of the elements of an array type. -/
def elementOf? (r : Registry) (array : Oid) : Option Oid := (r.get? array).bind (·.element)

/-- The identifier names an array type. -/
def isArray (r : Registry) (oid : Oid) : Bool := (r.elementOf? oid).isSome

end Registry

end SqlWire
