import SqlWire.Bytes.Word

/-!
# Reading bytes in order

A `Reader` is a place in a run of bytes.  A read either returns what it found
and the reader past it, or fails and leaves the caller with the reader it had;
`read_append` says that reading at a written word gives the word back and stops
right after it.
-/

namespace SqlWire

/-- A place in a run of bytes: how many lie behind it, and those ahead.  The context names what is
being read, for the failures. -/
structure Reader where
  context : String
  position : Nat
  rest : Bytes
  deriving Repr, DecidableEq, Inhabited

namespace Reader

/-- A reader at the start of some bytes. -/
def start (context : String) (bytes : Bytes) : Reader := ⟨context, 0, bytes⟩

/-- How many bytes lie ahead. -/
def remaining (r : Reader) : Nat := r.rest.length

/-- There is nothing ahead. -/
def isEmpty (r : Reader) : Bool := r.remaining == 0

/-- Fails when fewer than `n` bytes lie ahead. -/
def ensure (r : Reader) (n : Nat) : Except Error Unit :=
  if n ≤ r.remaining then .ok () else .error (.truncated r.context n r.remaining)

/-- The next `n` bytes. -/
def take (r : Reader) (n : Nat) : Except Error (Bytes × Reader) := do
  r.ensure n
  return (r.rest.take n, { r with position := r.position + n, rest := r.rest.drop n })

/-- The next word. -/
def read (α : Type) [Word α] (r : Reader) : Except Error (α × Reader) := do
  let (bytes, r) ← r.take (Word.width α)
  return (Word.ofBytes α bytes, r)

/-! ### What a read does -/

theorem take_eq_ok {r : Reader} {n : Nat} (h : n ≤ r.rest.length) :
    r.take n =
      .ok (r.rest.take n, { r with position := r.position + n, rest := r.rest.drop n }) := by
  simp [take, ensure, remaining, h, bind, Except.bind, pure, Except.pure]

theorem take_eq_error {r : Reader} {n : Nat} (h : r.rest.length < n) :
    r.take n = .error (.truncated r.context n r.rest.length) := by
  simp [take, ensure, remaining, Nat.not_le.2 h, bind, Except.bind]

/-- The reader past the next `n` bytes. -/
def advance (r : Reader) (n : Nat) : Reader :=
  { r with position := r.position + n, rest := r.rest.drop n }

theorem read_eq_ok {α : Type} [Word α] {r : Reader} (h : Word.width α ≤ r.rest.length) :
    r.read α = .ok (Word.ofBytes α (r.rest.take (Word.width α)), r.advance (Word.width α)) := by
  rw [read, take_eq_ok h]
  rfl

theorem read_eq_error {α : Type} [Word α] {r : Reader} (h : r.rest.length < Word.width α) :
    r.read α = .error (.truncated r.context (Word.width α) r.rest.length) := by
  rw [read, take_eq_error h]
  rfl

theorem of_read_eq_ok {α : Type} [Word α] {r r' : Reader} {x : α} (h : r.read α = .ok (x, r')) :
    Word.width α ≤ r.rest.length ∧ r' = r.advance (Word.width α) := by
  by_cases hlength : Word.width α ≤ r.rest.length
  · rw [read_eq_ok hlength] at h
    cases h
    exact ⟨hlength, rfl⟩
  · rw [read_eq_error (Nat.not_le.1 hlength)] at h
    cases h

theorem rest_of_take {r r' : Reader} {n : Nat} {bytes : Bytes} (h : r.take n = .ok (bytes, r')) :
    bytes.length = n ∧ r.rest = bytes ++ r'.rest := by
  by_cases hlength : n ≤ r.rest.length
  · rw [take_eq_ok hlength] at h
    cases h
    exact ⟨List.length_take_of_le hlength, (List.take_append_drop n r.rest).symm⟩
  · rw [take_eq_error (Nat.not_le.1 hlength)] at h
    cases h

theorem rest_of_read {α : Type} [Word α] {r r' : Reader} {x : α} (h : r.read α = .ok (x, r')) :
    r.rest = Word.toBytes x ++ r'.rest := by
  obtain ⟨⟨bytes, r₁⟩, htake, h⟩ := Except.bind_eq_ok_iff.1 h
  obtain ⟨hlength, hrest⟩ := rest_of_take htake
  cases h
  rw [Word.toBytes_ofBytes hlength, hrest]

theorem take_append (context : String) (position : Nat) (bytes rest : Bytes) :
    take ⟨context, position, bytes ++ rest⟩ bytes.length =
      .ok (bytes, ⟨context, position + bytes.length, rest⟩) := by
  rw [take_eq_ok (by simp)]
  simp

theorem read_append {α : Type} [Word α] (context : String) (position : Nat) (x : α)
    (rest : Bytes) :
    read α ⟨context, position, Word.toBytes x ++ rest⟩ =
      .ok (x, ⟨context, position + Word.width α, rest⟩) := by
  have h := take_append context position (Word.toBytes x) rest
  rw [Word.length_toBytes] at h
  simp [read, h, bind, Except.bind, pure, Except.pure]

theorem read_toBytes {α : Type} [Word α] (context : String) (position : Nat) (x : α) :
    read α ⟨context, position, Word.toBytes x⟩ =
      .ok (x, ⟨context, position + Word.width α, []⟩) := by
  simpa using read_append context position x []

end Reader

end SqlWire
