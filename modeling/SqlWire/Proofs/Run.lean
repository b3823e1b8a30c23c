import Mathlib.Tactic
import SqlWire.Error

/-!
# Runs of calls

A writer or a builder is asked one thing after another.  Each call succeeds or fails and
leaves a state, and one that succeeds may add an item.  What the items of a run have to do
with the state in the end is an invariant of both: `holds_after` gets it from one call.
-/

namespace SqlWire

namespace Run

variable {σ κ ι : Type*} (call : σ → κ → Except Error Unit × σ) (item? : σ → κ → Option ι)

def after (s : σ) (calls : List κ) : σ := calls.foldl (fun s c => (call s c).2) s

/-- The item that a call adds, if it succeeds. -/
def acceptedBy (s : σ) (c : κ) : List ι :=
  match (call s c).1 with
  | .ok () => (item? s c).toList
  | .error _ => []

/-- The items that the calls of a run add. -/
def accepted (s : σ) : List κ → List ι
  | [] => []
  | c :: calls => acceptedBy call item? s c ++ accepted (call s c).2 calls

/-- How many calls of a run succeed. -/
def successes (s : σ) : List κ → Nat
  | [] => 0
  | c :: calls =>
    (match (call s c).1 with
      | .ok () => 1
      | .error _ => 0) + successes (call s c).2 calls

variable {call item?} {s s' : σ} {c : κ} {e : Error}

theorem acceptedBy_of_ok (h : call s c = (.ok (), s')) :
    acceptedBy call item? s c = (item? s c).toList := by
  rw [acceptedBy, h]

theorem acceptedBy_of_error (h : call s c = (.error e, s')) :
    acceptedBy call item? s c = [] := by
  rw [acceptedBy, h]

section

variable {Holds : σ → List ι → Prop} {items : List ι}
  (hstep : ∀ s items c, Holds s items → Holds (call s c).2 (items ++ acceptedBy call item? s c))

include hstep

/-- **What each call keeps holds of every run**: of the state it ends in, and the items it has
added to those before. -/
theorem holds_append (h : Holds s items) (calls : List κ) :
    Holds (after call s calls) (items ++ accepted call item? s calls) := by
  induction calls generalizing s items with
  | nil => rwa [accepted, List.append_nil]
  | cons c calls ih =>
    rw [accepted, ← List.append_assoc]
    exact ih (hstep s items c h)

theorem holds_after (h : Holds s []) (calls : List κ) :
    Holds (after call s calls) (accepted call item? s calls) :=
  holds_append hstep h calls

theorem length_accepted
    (hitem : ∀ s items c s', Holds s items → call s c = (.ok (), s') → item? s c ≠ none)
    (h : Holds s items) (calls : List κ) :
    (accepted call item? s calls).length = successes call s calls := by
  induction calls generalizing s items with
  | nil => rfl
  | cons c calls ih =>
    rw [accepted, successes, List.length_append, ih (hstep s items c h)]
    rcases hcall : call s c with ⟨_ | _, s'⟩
    · rw [acceptedBy_of_error hcall]
      rfl
    · obtain ⟨item, hsome⟩ := Option.ne_none_iff_exists'.1 (hitem s items c s' h hcall)
      rw [acceptedBy_of_ok hcall, hsome]
      rfl

end

end Run

end SqlWire
