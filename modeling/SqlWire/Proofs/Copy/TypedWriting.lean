import SqlWire.Copy.ScratchWriter
import SqlWire.Proofs.Copy.Rows
import SqlWire.Proofs.Value.Appending

/-!
# Writing values by their types

The calls of a `ScratchWriter` go different ways.  But what a field leaves in the buffer no later
one reads, so all that can be seen of a call is what the call does that has its field made
beforehand (`seen_call`).  There the ways meet: a call of a type puts the wire form of its value
(`TypedValue.call_eq_putForm`).
-/

namespace SqlWire

open Writer

namespace ScratchWriter

variable {w : ScratchWriter} {fill : Writer} {form : Except Error Bytes}

/-- What can be seen of the outcome of a call. -/
def seen (r : Except Error Unit × ScratchWriter) : Except Error Unit × CopyWriter :=
  (r.1, r.2.writer)

theorem seen_putWith (h : Writes fill form) : seen (w.putWith fill) = w.writer.putForm form := by
  have hrun : fill.run [] = Bytes.appendForm [] form := h []
  unfold putWith CopyWriter.putForm
  cases w.writer.checkRoom with
  | error e => rfl
  | ok =>
    rw [hrun]
    cases form with
    | error e => rfl
    | ok bytes => rfl

/-- **What the buffer holds is of no account.** -/
theorem seen_call (w : ScratchWriter) (c : CopyWriter.Call) :
    seen (w.call c) = w.writer.call c := by
  cases c with
  | scalar x => exact seen_putWith (writes_putBytes _)
  | numeric n => exact seen_putWith n.writes_write
  | value v => exact seen_putWith v.writes_write
  | optional v =>
    cases v with
    | none => rfl
    | some v => exact seen_putWith v.writes_write
  | _ => rfl

end ScratchWriter

namespace TypedValue

/-- The call of a type puts the wire form of the value, or fails for want of one.  Other than for a
text, the room in the row is looked at twice, and found to be the same. -/
theorem call_eq_putForm (w : CopyWriter) (x : TypedValue) :
    w.call x.call = w.putForm x.value.encode := by
  cases x with
  | text s => exact (w.putForm_ok _).symm
  | bytea bytes => exact (w.putForm_ok _).symm
  | _ => rfl

/-- **The call of a type does what the call for any value does.**  Whatever state the writer is in,
whatever its sink refuses and whatever the buffer holds, both have the same outcome and leave the
same frame with its sink and the same counts of fields and rows.  They are also the calls of the
writer that has its fields made beforehand. -/
theorem typed_calls_as_dynamic (w : ScratchWriter) (x : TypedValue) :
    let typed := w.call x.call
    let dynamic := w.call (.value x.value)
    typed.1 = dynamic.1 ∧ typed.2.writer = dynamic.2.writer ∧
      w.writer.call x.call = (typed.1, typed.2.writer) ∧
      w.writer.call (.value x.value) = (dynamic.1, dynamic.2.writer) := by
  intro typed dynamic
  have htyped : ScratchWriter.seen typed = w.writer.call x.call := w.seen_call _
  have hdynamic : ScratchWriter.seen dynamic = w.writer.call (.value x.value) := w.seen_call _
  have hsame : ScratchWriter.seen typed = ScratchWriter.seen dynamic := by
    rw [htyped, hdynamic, call_eq_putForm]
    rfl
  obtain ⟨houtcome, hwriter⟩ := Prod.ext_iff.1 hsame
  exact ⟨houtcome, hwriter, htyped.symm, hdynamic.symm⟩

end TypedValue

end SqlWire
