import SqlWire.Bytes.Word

/-!
# Counted sequences

A `Sequence` is what is left of a run of items whose number was announced: how
many are still due, and the bytes they are in.  Items are taken one at a time.
The first one that cannot be read ends the sequence, whatever number is still
due, and leaves its bytes unread.  `run_append`, `left_append` and
`collect_append` say that items written one after the other are read as those
items.
-/

namespace SqlWire

/-- The items still to come: their number, and the bytes ahead. -/
structure Sequence where
  remaining : Nat
  rest : Bytes
  deriving Repr, DecidableEq, Inhabited

namespace Sequence

variable {α β : Type}

/-- The next item and the sequence after it; none when no more is due. -/
def next? (readItem : Bytes → Except Error (α × Bytes)) (s : Sequence) :
    Option (Except Error α × Sequence) :=
  match s.remaining with
  | 0 => none
  | remaining + 1 =>
    match readItem s.rest with
    | .ok (item, rest) => some (.ok item, ⟨remaining, rest⟩)
    | .error e => some (.error e, ⟨0, s.rest⟩)

/-- What taking item after item gives, each with the sequence after it. -/
def run (readItem : Bytes → Except Error (α × Bytes)) :
    Nat → Bytes → List (Except Error α × Sequence)
  | 0, _ => []
  | remaining + 1, rest =>
    match readItem rest with
    | .ok (item, rest) => (.ok item, ⟨remaining, rest⟩) :: run readItem remaining rest
    | .error e => [(.error e, ⟨0, rest⟩)]

/-- The sequence after its last item. -/
def left (readItem : Bytes → Except Error (α × Bytes)) (s : Sequence) : Sequence :=
  ((run readItem s.remaining s.rest).getLast?.map (·.2)).getD s

/-- All items to the end, each put through `f`; or the first failure of either. -/
def collect (readItem : Bytes → Except Error (α × Bytes)) (f : α → Except Error β) :
    Nat → Bytes → Except Error (List β)
  | 0, _ => .ok []
  | remaining + 1, rest => do
    let (item, rest) ← readItem rest
    let value ← f item
    let values ← collect readItem f remaining rest
    return value :: values

/-! ### Runs -/

theorem run_eq (readItem : Bytes → Except Error (α × Bytes)) (s : Sequence) :
    run readItem s.remaining s.rest =
      match next? readItem s with
      | none => []
      | some (item, s) => (item, s) :: run readItem s.remaining s.rest := by
  obtain ⟨remaining, rest⟩ := s
  cases remaining with
  | zero => rfl
  | succ remaining =>
    simp only [run, next?]
    split <;> rfl

theorem run_append {readItem : Bytes → Except Error (α × Bytes)} {encode : α → Bytes}
    {items : List α}
    (h : ∀ item ∈ items, ∀ rest, readItem (encode item ++ rest) = .ok (item, rest))
    (rest : Bytes) :
    (run readItem items.length (items.flatMap encode ++ rest)).map (·.1) = items.map .ok := by
  induction items with
  | nil => rfl
  | cons item items ih =>
    simp only [List.length_cons, List.flatMap_cons, List.append_assoc, run,
      h item List.mem_cons_self, List.map_cons]
    rw [ih fun other hother => h other (List.mem_cons_of_mem _ hother)]

theorem left_of_next? {readItem : Bytes → Except Error (α × Bytes)} {s s' : Sequence}
    {item : Except Error α} (h : next? readItem s = some (item, s')) :
    left readItem s = left readItem s' := by
  rw [left, left, run_eq, h]
  dsimp only
  rw [List.getLast?_cons]
  cases (run readItem s'.remaining s'.rest).getLast? <;> rfl

theorem left_append {readItem : Bytes → Except Error (α × Bytes)} {encode : α → Bytes}
    {items : List α}
    (h : ∀ item ∈ items, ∀ rest, readItem (encode item ++ rest) = .ok (item, rest))
    (rest : Bytes) :
    left readItem ⟨items.length, items.flatMap encode ++ rest⟩ = ⟨0, rest⟩ := by
  induction items with
  | nil => rfl
  | cons item items ih =>
    have hnext : next? readItem ⟨(item :: items).length, (item :: items).flatMap encode ++ rest⟩ =
        some (.ok item, ⟨items.length, items.flatMap encode ++ rest⟩) := by
      simp only [List.length_cons, List.flatMap_cons, List.append_assoc, next?,
        h item List.mem_cons_self]
    rw [left_of_next? hnext, ih fun other hother => h other (List.mem_cons_of_mem _ hother)]

theorem collect_append {readItem : Bytes → Except Error (α × Bytes)} {encode : α → Bytes}
    {items : List α}
    (h : ∀ item ∈ items, ∀ rest, readItem (encode item ++ rest) = .ok (item, rest))
    (f : α → Except Error β) (rest : Bytes) :
    collect readItem f items.length (items.flatMap encode ++ rest) = items.mapM f := by
  induction items with
  | nil => rfl
  | cons item items ih =>
    simp only [List.length_cons, List.flatMap_cons, List.append_assoc, collect,
      h item List.mem_cons_self, List.mapM_cons]
    rw [← ih fun other hother => h other (List.mem_cons_of_mem _ hother)]
    rfl

end Sequence

end SqlWire
