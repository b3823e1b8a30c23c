import SqlWire.Proofs.Params.Entries
import SqlWire.Proofs.Run

/-!
# Marks that are used at any time

A mark is only a number.  It may be used more than once, inside the bytes of another value, or
after the reset that took its bytes away, and then the entry that is made of it overlaps
others, or has bytes that were meant for another.  But it always lies within the payload: what
is past the end is refused.  And no failure cuts off more than its own bytes, so a parameter
that has once been there stays as it is up to the next reset (`Sound.call`, and `Sound.after`
for a run).
-/

namespace SqlWire

namespace ParameterList

/-! ### Calls -/

/-- What can be asked of a list, and what memory grants to it.  The mark that is committed may
be any, and a function that is lent the payload appends to it. -/
inductive Call where
  | addition (grant : Grant) (a : Addition)
  | begin
  | append (grant : Grant) (bytes : Bytes)
  | write (more : Bytes → Bytes) (outcome : Bytes → Except Error Unit)
  | commit (grant : Grant) (mark : Mark) (oid : Oid)
  | finalize
  | execute (executor : String → BoundParameters → Except Error Unit) (statement : String)
  | reset

def Call.isReset : Call → Bool
  | reset => true
  | _ => false

def call (l : ParameterList) : Call → Except Error Unit × ParameterList
  | .addition grant a => l.addition grant a
  | .begin => (l.begin.map fun _ => (), l)
  | .append grant bytes => l.append grant bytes
  | .write more outcome =>
    l.writeThrough fun payload => (outcome payload, payload ++ more payload)
  | .commit grant mark oid => l.commit grant mark oid
  | .finalize => (.ok (), l.finalize.2)
  | .execute executor statement => l.execute executor statement
  | .reset => (.ok (), l.reset)

def after (l : ParameterList) (calls : List Call) : ParameterList := Run.after call l calls

variable {l : ParameterList} {grant : Grant} {mark : Mark} {oid : Oid}

/-! ### One call -/

/-- **A call other than a reset keeps all parameters as they are.** -/
theorem Sound.call (h : l.Sound) {c : Call} (hc : c.isReset = false) :
    ∃ gained, Gains l (l.call c).2 gained := by
  cases c with
  | addition grant a => exact ⟨_, (h.addition_allOrNothing grant a).gains h⟩
  | begin => exact ⟨[], h.refl⟩
  | append grant bytes =>
    refine ⟨[], ?_⟩
    show Gains l (l.append grant bytes).2 []
    rcases l.append_cases grant bytes with ⟨e, hrefused⟩ | htaken
    · rw [hrefused]
      exact h.refl
    · rw [htaken]
      exact h.extended bytes
  | write more outcome =>
    refine ⟨[], ?_⟩
    show Gains l (l.writeThrough _).2 []
    unfold writeThrough
    cases l.checkOpen with
    | error e => exact h.refl
    | ok _ => exact h.extended (more l.payload)
  | commit grant mark oid => exact ⟨_, (h.commit_allOrNothing grant mark oid).gains h⟩
  | finalize => exact ⟨[], h.finalized⟩
  | execute executor statement => exact ⟨[], h.finalized⟩
  | reset => cases hc

theorem Sound.call_any (h : l.Sound) (c : Call) : (l.call c).2.Sound := by
  cases hc : c.isReset with
  | false =>
    obtain ⟨gained, hgains⟩ := h.call hc
    exact hgains.sound
  | true =>
    cases c with
    | reset => exact sound_empty l.limit
    | _ => cases hc

/-- A finalized list refuses every mark, and before that a mark past the end is refused for
what it is. -/
theorem commit_of_past (hpast : l.payload.length < mark.offset) :
    l.commit grant mark oid =
      (.error (if l.isFinalized then .bufferFinalized else .invalidOperation
        s!"cursor at {mark.offset} is past the end of the {l.payload.length}-byte arena"), l) := by
  unfold commit entryBehind checkOpen
  cases l.isFinalized with
  | true => rfl
  | false =>
    simp only [if_pos hpast]
    rfl

/-! ### Runs -/

theorem Sound.after (h : l.Sound) (calls : List Call) : (l.after calls).Sound := by
  induction calls generalizing l with
  | nil => exact h
  | cons c calls ih => exact ih (h.call_any c)

theorem Sound.gains_after (h : l.Sound) {calls : List Call}
    (hcalls : ∀ c ∈ calls, c.isReset = false) : ∃ gained, Gains l (l.after calls) gained := by
  induction calls generalizing l with
  | nil => exact ⟨[], h.refl⟩
  | cons c calls ih =>
    obtain ⟨gained, hgains⟩ := h.call (hcalls c List.mem_cons_self)
    obtain ⟨later, hlater⟩ := ih hgains.sound fun c hc => hcalls c (List.mem_cons_of_mem _ hc)
    exact ⟨gained ++ later, hgains.trans hlater⟩

/-- **What has been committed lies within the payload, and stays what it is up to the next
reset**, whatever marks are committed and whatever fails.  A mark past the end is refused. -/
theorem committed_stays (limit : Option Nat) (calls : List Call) :
    let l := (empty limit).after calls
    (∀ p ∈ l.entries, p.isMissing = false →
      0 ≤ p.length.toInt ∧ p.offset + p.length.toInt ≤ l.payload.length ∧
      ∃ bytes, p.slice l.payload = some bytes ∧ (bytes.length : Int) = p.length.toInt) ∧
    (∀ grant mark oid, l.payload.length < mark.offset → l.commit grant mark oid =
      (.error (if l.isFinalized then .bufferFinalized else .invalidOperation
        s!"cursor at {mark.offset} is past the end of the {l.payload.length}-byte arena"), l)) ∧
    ∀ later, (∀ c ∈ later, c.isReset = false) →
      ∀ i x, l.get? i = some x → (l.after later).get? i = some x := by
  intro l
  have hsound : l.Sound := (sound_empty limit).after calls
  refine ⟨?_, fun _ _ _ => commit_of_past, ?_⟩
  · intro p hp hvalue
    obtain ⟨hnonneg, hwithin⟩ := (hsound p hp).within hvalue
    exact ⟨hnonneg, hwithin, (hsound p hp).length_slice hvalue⟩
  · intro later hlater i x hx
    obtain ⟨gained, hgains⟩ := hsound.gains_after hlater
    exact hgains.get?_eq hx

/-- A value, and the same bytes and more once again by a mark inside it. -/
def overlapping : List Call :=
  [.addition .all (.encoded 25 [1, 2, 3]), .begin, .append .all [4, 5], .commit .all ⟨3⟩ 17,
    .commit .all ⟨1⟩ 17, .append .all [6]]

/-- A value that is cut off again, one by a mark that is older than both, and the end. -/
def failing : List Call :=
  [.addition ⟨true, false, none⟩ (.encoded 25 [7, 8]), .commit .all ⟨0⟩ 17, .finalize,
    .append .all [9]]

theorem committed_stays_overlapping :
    (∀ c ∈ failing, c.isReset = false) ∧
    (((empty (some 8)).after overlapping).after failing).get? 2 = some (17, some [2, 3, 4, 5]) ∧
    ((empty (some 8)).after overlapping).commit .all ⟨7⟩ 17 =
      (.error (.invalidOperation "cursor at 7 is past the end of the 6-byte arena"),
        (empty (some 8)).after overlapping) := by
  obtain ⟨-, hpast, hstays⟩ := committed_stays (some 8) overlapping
  have hfailing : ∀ c ∈ failing, c.isReset = false := by decide
  exact ⟨hfailing, hstays failing hfailing 2 _ (by decide), hpast .all ⟨7⟩ 17 (by decide)⟩

/-- A mark that a reset has put past the end, on a list that is finalized then. -/
theorem commit_past_finalized :
    let l := (empty none).after [.addition .all (.value (.int8 1))]
    let l' := l.after [.begin, .reset, .finalize]
    l.begin = .ok ⟨8⟩ ∧ l'.payload.length < 8 ∧
      ¬ ∃ reason, (l'.commit .all ⟨8⟩ 20).1 = .error (.invalidOperation reason) := by
  refine ⟨rfl, by decide, ?_⟩
  rintro ⟨reason, hreason⟩
  cases hreason

end ParameterList

end SqlWire
