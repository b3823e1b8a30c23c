/-!
# Failures

Every operation of this library that can fail does so with an `Error`, carried
by `Except`.  A constructor is a cause; the wording of each cause is in one
place, `Error.message`.
-/

theorem Except.bind_eq_ok_iff {ε α β : Type} {x : Except ε α} {f : α → Except ε β} {b : β} :
    x >>= f = .ok b ↔ ∃ a, x = .ok a ∧ f a = .ok b := by
  cases x with
  | error e => exact ⟨nofun, fun ⟨_, h, _⟩ => nomatch h⟩
  | ok a => exact ⟨fun h => ⟨a, rfl, h⟩, fun ⟨_, rfl, h⟩ => h⟩

theorem Except.map_eq_ok_iff {ε α β : Type} {x : Except ε α} {f : α → β} {b : β} :
    x.map f = .ok b ↔ ∃ a, x = .ok a ∧ f a = b := by
  cases x with
  | error e => exact ⟨nofun, fun ⟨_, h, _⟩ => nomatch h⟩
  | ok a => exact ⟨fun h => ⟨a, rfl, Except.ok.inj h⟩, fun ⟨_, rfl, h⟩ => congrArg Except.ok h⟩

namespace SqlWire

/-- Why an operation was refused. -/
inductive Error where
  /-- The input ended before the bytes that `context` needs. -/
  | truncated (context : String) (needed available : Nat)
  /-- A text is no literal of the type. -/
  | invalidSyntax (typeName input : String)
  /-- Complete bytes break a rule of the binary form of the type. -/
  | invalidBinary (typeName reason : String)
  /-- A value is outside what the type can hold. -/
  | outOfRange (typeName reason : String)
  /-- A store would grow past what it may hold. -/
  | outOfMemory (requested : Nat)
  /-- A parameter list takes no more values once it has been finalized. -/
  | bufferFinalized
  /-- A copy stream takes no more data once it has ended. -/
  | streamFinished
  /-- The receiving end failed. -/
  | transport (reason : String)
  /-- The call does not fit the state it was made in, or its arguments each other. -/
  | invalidOperation (reason : String)
  deriving Repr, DecidableEq, Inhabited

namespace Error

def message : Error → String
  | truncated context needed available =>
    s!"Truncated {context}: need {needed} bytes, {available} available"
  | invalidSyntax typeName input =>
    "Invalid input syntax for type " ++ typeName ++ ": \"" ++ input ++ "\""
  | invalidBinary typeName reason =>
    "Invalid external \"" ++ typeName ++ "\" value: " ++ reason
  | outOfRange typeName reason => s!"Value out of range for type {typeName}: {reason}"
  | outOfMemory requested => s!"Out of memory: failed to reserve {requested} bytes"
  | bufferFinalized => "Parameter buffer is finalized"
  | streamFinished => "Copy stream already finished"
  | transport reason => s!"Transport failure: {reason}"
  | invalidOperation reason => s!"Invalid operation: {reason}"

/-- The failures that lie in the bytes or text given, and not in the call or its surroundings. -/
def isMalformedInput : Error → Bool
  | truncated .. | invalidSyntax .. | invalidBinary .. => true
  | _ => false

end Error

end SqlWire
