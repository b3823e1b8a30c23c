import SqlWire.Arrays.Builder
import SqlWire.Catalog.Registry

/-!
# Parameter lists

The parameters of a statement share one run of bytes, the payload.  An entry of
the list says where in the payload its value lies, or that it is missing.  So
the payload may grow without any entry losing its place.

A value gets into the list in one call, or step by step: `begin` marks a place,
bytes are appended, and `commit` makes an entry of all that lies behind the
mark.  A list that has been finalized takes nothing more until it is reset.

The bytes of a value are written before there is an entry for them.  When the
entry is refused, a call that adds the whole value cuts its bytes off again;
bytes that were appended step by step stay behind and belong to no entry.
Memory may refuse any request, and what it grants is an argument of every
operation that asks for some.
-/

namespace SqlWire

/-- An entry of a parameter list. -/
structure Parameter where
  oid : Oid
  /-- Where in the payload the value begins. -/
  offset : Nat
  /-- How many bytes it has; `Nullable.missing` when there is none. -/
  length : Int32
  format : Int32
  deriving Repr, DecidableEq, Inhabited

namespace Parameter

/-- The number that says that a value is in binary form. -/
def binaryFormat : Int32 := 1

/-- How many bytes an entry takes in memory. -/
def footprint : Nat := 24

def isMissing (p : Parameter) : Bool := p.length == Nullable.missing

/-- The value of an entry, cut out of the payload. -/
def slice (p : Parameter) (payload : Bytes) : Nullable :=
  if p.isMissing then none else some ((payload.drop p.offset).take p.length.toInt.toNat)

/-- The length of the value as it is handed over; zero when it is missing. -/
def shownLength (p : Parameter) : Int32 := if p.length < 0 then 0 else p.length

end Parameter

/-- A place in a payload that has been marked. -/
structure Mark where
  offset : Nat
  deriving Repr, DecidableEq, Inhabited

/-- What memory grants to an operation. -/
structure Grant where
  /-- There is room for more bytes in the payload. -/
  bytes : Bool
  /-- There is room for one more entry. -/
  entry : Bool
  /-- The size that was refused to an array made beside the payload, if one was. -/
  refused : Option Nat
  deriving Repr, DecidableEq, Inhabited

namespace Grant

/-- Everything that is asked for. -/
def all : Grant := ⟨true, true, none⟩

/-- Fails when a request for so much memory is not granted. -/
def require (granted : Bool) (size : Nat) : Except Error Unit :=
  if granted then .ok () else .error (.outOfMemory size)

end Grant

/-- The parameters of a statement. -/
structure ParameterList where
  payload : Bytes
  entries : List Parameter
  /-- The most bytes the payload may have, where there is such a bound. -/
  limit : Option Nat
  isFinalized : Bool
  deriving Repr, DecidableEq, Inhabited

/-- Parameters as they are handed over: four lists of one length. -/
structure BoundParameters where
  types : List Oid
  values : List Nullable
  /-- The lengths of the values; zero for a missing one. -/
  lengths : List Int32
  formats : List Int32
  deriving Repr, DecidableEq, Inhabited

namespace ParameterList

/-- The list without parameters. -/
def empty (limit : Option Nat) : ParameterList := ⟨[], [], limit, false⟩

def size (l : ParameterList) : Nat := l.entries.length

def isEmpty (l : ParameterList) : Bool := l.entries.isEmpty

/-- The type and the value of each parameter. -/
def toList (l : ParameterList) : List (Oid × Nullable) :=
  l.entries.map fun p => (p.oid, p.slice l.payload)

@[simp] theorem length_toList (l : ParameterList) : l.toList.length = l.size := by
  simp [toList, size]

/-! ### Checks -/

/-- Fails once the list has been finalized. -/
def checkOpen (l : ParameterList) : Except Error Unit :=
  if l.isFinalized then .error .bufferFinalized else .ok ()

/-- Fails when `additional` more bytes would go past the limit. -/
def checkLimit (l : ParameterList) (additional : Nat) : Except Error Unit :=
  if l.limit.all fun limit => decide (l.payload.length + additional ≤ limit) then .ok ()
  else .error (.outOfMemory additional)

/-- Room in the payload for `additional` more bytes. -/
def reserve (l : ParameterList) (grant : Grant) (additional : Nat) : Except Error Unit := do
  l.checkLimit additional
  Grant.require grant.bytes (l.payload.length + additional)

/-! ### Values step by step -/

/-- Marks the end of the payload. -/
def begin (l : ParameterList) : Except Error Mark := do
  l.checkOpen
  return ⟨l.payload.length⟩

/-- Lets `write` have the payload, without regard to the limit. -/
def writeThrough (l : ParameterList) (write : Bytes → Except Error Unit × Bytes) :
    Except Error Unit × ParameterList :=
  match l.checkOpen with
  | .error e => (.error e, l)
  | .ok () =>
    let (outcome, payload) := write l.payload
    (outcome, { l with payload })

def append (l : ParameterList) (grant : Grant) (bytes : Bytes) :
    Except Error Unit × ParameterList :=
  match l.checkOpen >>= fun () => l.reserve grant bytes.length with
  | .error e => (.error e, l)
  | .ok () => (.ok (), { l with payload := l.payload ++ bytes })

/-- The entry of what lies behind a mark. -/
def entryBehind (l : ParameterList) (mark : Mark) (oid : Oid) : Except Error Parameter := do
  l.checkOpen
  let cursor := mark.offset
  let held := l.payload.length
  if held < cursor then
    throw (.invalidOperation s!"cursor at {cursor} is past the end of the {held}-byte arena")
  let length ← Nullable.lengthWordOr
    (.outOfRange "parameter" "value longer than 2^31-1 bytes") (held - cursor)
  return ⟨oid, cursor, length, Parameter.binaryFormat⟩

/-- The entry of a missing value. -/
def missingEntry (l : ParameterList) (oid : Oid) : Except Error Parameter := do
  l.checkOpen
  return ⟨oid, l.payload.length, Nullable.missing, Parameter.binaryFormat⟩

/-- Adds an entry, unless it could not be made. -/
def enter (l : ParameterList) (grant : Grant) (entry : Except Error Parameter) :
    Except Error Unit × ParameterList :=
  match entry, Grant.require grant.entry Parameter.footprint with
  | .error e, _ => (.error e, l)
  | .ok _, .error e => (.error e, l)
  | .ok p, .ok () => (.ok (), { l with entries := l.entries ++ [p] })

/-- Makes an entry of what lies behind a mark. -/
def commit (l : ParameterList) (grant : Grant) (mark : Mark) (oid : Oid) :
    Except Error Unit × ParameterList :=
  l.enter grant (l.entryBehind mark oid)

def commitNull (l : ParameterList) (grant : Grant) (oid : Oid) :
    Except Error Unit × ParameterList :=
  l.enter grant (l.missingEntry oid)

/-! ### Values in one call -/

/-- Cuts the payload off at a mark, if what was begun there has failed. -/
def cutOnFailure (mark : Mark) :
    Except Error Unit × ParameterList → Except Error Unit × ParameterList
  | (.ok (), l) => (.ok (), l)
  | (.error e, l) => (.error e, { l with payload := l.payload.take mark.offset })

def add (l : ParameterList) (grant : Grant) (v : Value) : Except Error Unit × ParameterList :=
  match l.begin, l.reserve grant v.encodedLength with
  | .error e, _ => (.error e, l)
  | .ok _, .error e => (.error e, l)
  | .ok mark, .ok () =>
    cutOnFailure mark <|
      match l.payload.appendForm v.encode with
      | (.error e, payload) => (.error e, { l with payload })
      | (.ok (), payload) => { l with payload }.commit grant mark v.typeOid

/-- Adds a value, or a missing one of a type. -/
def addOptional (l : ParameterList) (grant : Grant) (t : DataType) :
    Option Value → Except Error Unit × ParameterList
  | some v => l.add grant v
  | none => l.commitNull grant t.entry.oid

/-- Adds a value that is in its wire form already. -/
def addEncoded (l : ParameterList) (grant : Grant) (oid : Oid) (bytes : Bytes) :
    Except Error Unit × ParameterList :=
  match l.begin with
  | .error e => (.error e, l)
  | .ok mark =>
    match l.append grant bytes with
    | (.error e, l) => (.error e, l)
    | (.ok (), l) => cutOnFailure mark (l.commit grant mark oid)

/-- The type and the wire form of the one-dimensional array of some values of a type. -/
def arrayForm (grant : Grant) (registry : Registry) (t : DataType)
    (items : List (Option Value)) : Except Error (Oid × Bytes) := do
  let oid ← registry.requireArrayOf t
  if let some size := grant.refused then throw (.outOfMemory size)
  let bytes ← ArrayBuilder.encodeList t items
  return (oid, bytes)

/-- Adds the one-dimensional array of some values of a type. -/
def addArray (l : ParameterList) (grant : Grant) (registry : Registry) (t : DataType)
    (items : List (Option Value)) : Except Error Unit × ParameterList :=
  match arrayForm grant registry t items with
  | .error e => (.error e, l)
  | .ok (oid, bytes) => l.addEncoded grant oid bytes

/-! ### Handing over -/

/-- The type and the value of a parameter. -/
def get? (l : ParameterList) (i : Nat) : Option (Oid × Nullable) :=
  l.entries[i]?.map fun p => (p.oid, p.slice l.payload)

theorem get?_eq_getElem? (l : ParameterList) (i : Nat) : l.get? i = l.toList[i]? := by
  simp [get?, toList]

/-- The parameters as they are handed over. -/
def bound (l : ParameterList) : BoundParameters where
  types := l.entries.map (·.oid)
  values := l.entries.map (·.slice l.payload)
  lengths := l.entries.map (·.shownLength)
  formats := l.entries.map (·.format)

/-- Hands the parameters over.  The list takes nothing more. -/
def finalize (l : ParameterList) : BoundParameters × ParameterList :=
  (l.bound, { l with isFinalized := true })

/-- Finalizes the list and hands it over together with a statement. -/
def execute {α : Type} (l : ParameterList) (executor : String → BoundParameters → Except Error α)
    (statement : String) : Except Error α × ParameterList :=
  let (parameters, l) := l.finalize
  (executor statement parameters, l)

/-- The list without parameters and open again, under the same limit. -/
def reset (l : ParameterList) : ParameterList := empty l.limit

end ParameterList

end SqlWire
