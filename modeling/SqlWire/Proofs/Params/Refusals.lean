import SqlWire.Proofs.Params.Entries
import SqlWire.Proofs.Run

/-!
# What a list refuses

A list that has been finalized refuses every operation (`operate_of_finalized`), and any list
may refuse one because of its limit, because memory is short, or because a value has no wire
form.  None of this is ever to be seen afterwards: `unchanged_operate` says that a refusal
leaves the list as it was, also when bytes had been written before it came.  This is so for
every list, whatever has been done to its payload.

What a list takes is the other side.  `addEncoded_of_open` is what it does with bytes that
are within its limit, and so what it does with them after a reset.
-/

namespace SqlWire

namespace ParameterList

/-! ### Operations -/

/-- What a list may be asked for, and what memory grants to it.  The payload may be lent to a
function that changes it in any way. -/
inductive Operation where
  | begin
  | lend (change : Bytes → Bytes)
  | append (grant : Grant) (bytes : Bytes)
  | commit (grant : Grant) (mark : Mark) (oid : Oid)
  | addition (grant : Grant) (a : Addition)

def operate (l : ParameterList) : Operation → Except Error Unit × ParameterList
  | .begin => (l.begin.map fun _ => (), l)
  | .lend change => l.writeThrough fun payload => (.ok (), change payload)
  | .append grant bytes => l.append grant bytes
  | .commit grant mark oid => l.commit grant mark oid
  | .addition grant a => l.addition grant a

/-- Why a finalized list refuses an operation.  An array may fail before the list is asked. -/
def Operation.refusal : Operation → Error
  | .addition grant (.array registry t items) =>
    match arrayForm grant registry t items with
    | .error e => e
    | .ok _ => .bufferFinalized
  | _ => .bufferFinalized

/-- All that can be done to a list but to reset it. -/
inductive Request where
  | operation (op : Operation)
  | finalize
  | execute (executor : String → BoundParameters → Except Error Unit) (statement : String)

def request (l : ParameterList) : Request → Except Error Unit × ParameterList
  | .operation op => l.operate op
  | .finalize => (.ok (), l.finalize.2)
  | .execute executor statement => l.execute executor statement

variable {l : ParameterList} {grant : Grant} {mark : Mark} {oid : Oid} {bytes : Bytes}

/-! ### A refusal changes nothing -/

/-- The result of a call that has left the list as it was if it has failed. -/
def Unchanged (l : ParameterList) (result : Except Error Unit × ParameterList) : Prop :=
  ∀ e, result.1 = .error e → result.2 = l

theorem unchanged_same (l : ParameterList) (outcome : Except Error Unit) :
    Unchanged l (outcome, l) := fun _ _ => rfl

theorem unchanged_ok (l l' : ParameterList) : Unchanged l (.ok (), l') := nofun

theorem unchanged_enter (l : ParameterList) (grant : Grant) (entry : Except Error Parameter) :
    Unchanged l (l.enter grant entry) := by
  rcases l.enter_cases grant entry with ⟨e, hrefused⟩ | ⟨p, -, htaken⟩
  · rw [hrefused]
    exact l.unchanged_same _
  · rw [htaken]
    exact l.unchanged_ok _

theorem unchanged_append (l : ParameterList) (grant : Grant) (bytes : Bytes) :
    Unchanged l (l.append grant bytes) := by
  rcases l.append_cases grant bytes with ⟨e, hrefused⟩ | htaken
  · rw [hrefused]
    exact l.unchanged_same _
  · rw [htaken]
    exact l.unchanged_ok _

/-- Bytes that were appended before the refusal are cut off again. -/
theorem RefusedOrEntered.unchanged {result : Except Error Unit × ParameterList}
    (h : RefusedOrEntered l oid bytes result) : Unchanged l result := by
  rcases h with ⟨e, rfl⟩ | ⟨p, -, rfl⟩
  · exact l.unchanged_same _
  · exact l.unchanged_ok _

theorem unchanged_add (l : ParameterList) (grant : Grant) (v : Value) :
    Unchanged l (l.add grant v) := by
  rcases l.add_cases grant v with ⟨e, hrefused⟩ | ⟨bytes, -, hresult⟩
  · rw [hrefused]
    exact l.unchanged_same _
  · exact hresult.unchanged

theorem unchanged_addEncoded (l : ParameterList) (grant : Grant) (oid : Oid) (bytes : Bytes) :
    Unchanged l (l.addEncoded grant oid bytes) := (l.addEncoded_cases grant oid bytes).unchanged

theorem unchanged_addition (l : ParameterList) (grant : Grant) (a : Addition) :
    Unchanged l (l.addition grant a) := by
  cases a with
  | value v => exact l.unchanged_add grant v
  | optional t v =>
    cases v with
    | none => exact l.unchanged_enter grant _
    | some v => exact l.unchanged_add grant v
  | encoded oid bytes => exact l.unchanged_addEncoded grant oid bytes
  | null oid => exact l.unchanged_enter grant _
  | array registry t items =>
    show Unchanged l (l.addArray grant registry t items)
    unfold addArray
    cases arrayForm grant registry t items with
    | error e => exact l.unchanged_same _
    | ok form => exact l.unchanged_addEncoded grant form.1 form.2

/-- **An operation that is refused leaves the list as it was.** -/
theorem unchanged_operate (l : ParameterList) (op : Operation) : Unchanged l (l.operate op) := by
  cases op with
  | begin => exact l.unchanged_same _
  | lend change =>
    show Unchanged l (l.writeThrough _)
    unfold writeThrough
    cases l.checkOpen with
    | error e => exact l.unchanged_same _
    | ok _ => exact l.unchanged_ok _
  | append grant bytes => exact l.unchanged_append grant bytes
  | commit grant mark oid => exact l.unchanged_enter grant _
  | addition grant a => exact l.unchanged_addition grant a

/-! ### Finalized lists -/

theorem checkOpen_of_finalized (h : l.isFinalized = true) :
    l.checkOpen = .error .bufferFinalized := if_pos h

theorem begin_of_finalized (h : l.isFinalized = true) : l.begin = .error .bufferFinalized := by
  rw [begin, checkOpen_of_finalized h]
  rfl

theorem addition_of_finalized (h : l.isFinalized = true) (a : Addition) :
    l.addition grant a = (.error (Operation.addition grant a).refusal, l) := by
  have hopen := checkOpen_of_finalized h
  have hbegin := begin_of_finalized h
  have hadd (v : Value) : l.add grant v = (.error .bufferFinalized, l) := by rw [add, hbegin]
  have hencoded (oid : Oid) (bytes : Bytes) :
      l.addEncoded grant oid bytes = (.error .bufferFinalized, l) := by rw [addEncoded, hbegin]
  have hnull (oid : Oid) : l.commitNull grant oid = (.error .bufferFinalized, l) := by
    rw [commitNull, missingEntry, hopen]
    rfl
  cases a with
  | value v => exact hadd v
  | optional t v =>
    cases v with
    | none => exact hnull t.entry.oid
    | some v => exact hadd v
  | encoded oid bytes => exact hencoded oid bytes
  | null oid => exact hnull oid
  | array registry t items =>
    rw [addition, addArray, Operation.refusal]
    cases arrayForm grant registry t items with
    | error e => rfl
    | ok form => exact hencoded form.1 form.2

/-- **A finalized list refuses every operation.** -/
theorem operate_of_finalized (h : l.isFinalized = true) (op : Operation) :
    l.operate op = (.error op.refusal, l) := by
  have hopen := checkOpen_of_finalized h
  cases op with
  | begin =>
    rw [operate, begin_of_finalized h]
    rfl
  | lend change =>
    rw [operate, writeThrough, hopen]
    rfl
  | append grant bytes =>
    rw [operate, append, hopen]
    rfl
  | commit grant mark oid =>
    rw [operate, commit, entryBehind, hopen]
    rfl
  | addition grant a => exact addition_of_finalized h a

theorem request_of_finalized (h : l.isFinalized = true) (r : Request) : (l.request r).2 = l := by
  have hfinalize : l.finalize.2 = l := by
    obtain ⟨payload, entries, limit, isFinalized⟩ := l
    cases h
    rfl
  cases r with
  | operation op => rw [request, operate_of_finalized h op]
  | finalize => exact hfinalize
  | execute executor statement => exact hfinalize

/-- Only a reset changes a finalized list. -/
theorem after_requests_of_finalized (h : l.isFinalized = true) (requests : List Request) :
    Run.after request l requests = l := by
  induction requests with
  | nil => rfl
  | cons r requests ih =>
    show Run.after request (l.request r).2 requests = l
    rw [request_of_finalized h r]
    exact ih

/-! ### Open lists -/

theorem checkOpen_of_open (h : l.isFinalized = false) : l.checkOpen = .ok () :=
  if_neg (ne_true_of_eq_false h)

theorem begin_of_open (h : l.isFinalized = false) : l.begin = .ok ⟨l.payload.length⟩ := by
  rw [begin, checkOpen_of_open h]
  rfl

/-- The entry of the bytes that are appended next. -/
def nextEntry (l : ParameterList) (oid : Oid) (bytes : Bytes) : Parameter :=
  ⟨oid, l.payload.length, Nullable.lengthWord (some bytes), Parameter.binaryFormat⟩

theorem entryBehind_extended (h : l.isFinalized = false) (oid : Oid) (bytes : Bytes) :
    (l.extended bytes).entryBehind ⟨l.payload.length⟩ oid =
      if Nullable.Fits (some bytes) then .ok (l.nextEntry oid bytes)
      else .error (.outOfRange "parameter" "value longer than 2^31-1 bytes") := by
  have hopen : (l.extended bytes).checkOpen = .ok () := checkOpen_of_open h
  have hheld : (l.extended bytes).payload.length = l.payload.length + bytes.length :=
    List.length_append
  have hwithin : ¬ l.payload.length + bytes.length < l.payload.length := by omega
  unfold entryBehind
  rw [hopen, hheld]
  simp only [bind, Except.bind, if_neg hwithin, Nat.add_sub_cancel_left]
  by_cases hfits : Nullable.Fits (some bytes)
  · rw [if_pos hfits, Nullable.lengthWordOr_of_fits hfits]
    rfl
  · rw [if_neg hfits, Nullable.lengthWordOr_of_not_fits hfits]

theorem addEncoded_of_open (h : l.isFinalized = false) (hlimit : l.checkLimit bytes.length = .ok ())
    (hbytes : grant.bytes = true) (hentry : grant.entry = true) (oid : Oid) :
    l.addEncoded grant oid bytes =
      if Nullable.Fits (some bytes) then
        (.ok (), (l.extended bytes).entered (l.nextEntry oid bytes))
      else (.error (.outOfRange "parameter" "value longer than 2^31-1 bytes"), l) := by
  have happend : l.append grant bytes = (.ok (), l.extended bytes) := by
    rw [append, checkOpen_of_open h]
    simp only [bind, Except.bind, reserve, hlimit, Grant.require, hbytes, if_true]
    rfl
  rw [addEncoded, begin_of_open h]
  simp only [happend, commit, entryBehind_extended h, enter, Grant.require, hentry, if_true]
  by_cases hfits : Nullable.Fits (some bytes)
  · simp only [if_pos hfits]
    rfl
  · simp only [if_neg hfits, cutOnFailure, payload_extended, List.take_left]
    rfl

/-! ### All together -/

/-- **A refusal leaves no trace, a finalized list takes nothing, and a reset opens it again.**
Whatever a list is and whatever is asked of it, if it is refused the payload, the entries, the
limit and the flag are what they were.  Once the list has been finalized every operation is
refused, and whatever else is asked of it but a reset, it hands over the same parameters again.
A reset leaves it as a new list under the same limit: it has no parameters, and it takes any
bytes that are within the limit and not too long. -/
theorem refusals_leave_no_trace (l : ParameterList) :
    (∀ op e, (l.operate op).1 = .error e → (l.operate op).2 = l) ∧
    (l.isFinalized = true → ∀ op, l.operate op = (.error op.refusal, l)) ∧
    (∀ requests, (Run.after request l.finalize.2 requests).isFinalized = true ∧
      (Run.after request l.finalize.2 requests).finalize = l.finalize) ∧
    l.reset = empty l.limit ∧
    ∀ grant oid bytes, grant.bytes = true → grant.entry = true →
      (∀ limit ∈ l.limit, bytes.length ≤ limit) → bytes.length < 2 ^ 31 →
      ∃ l', l.reset.addEncoded grant oid bytes = (.ok (), l') ∧
        l'.toList = [(oid, some bytes)] := by
  refine ⟨l.unchanged_operate, operate_of_finalized, ?_, rfl, ?_⟩
  · intro requests
    have hsame : Run.after request l.finalize.2 requests = l.finalize.2 :=
      after_requests_of_finalized rfl requests
    rw [hsame]
    exact ⟨rfl, rfl⟩
  · intro grant oid bytes hbytes hentry hlimit hlength
    have hwithin : l.reset.checkLimit bytes.length = .ok () := by
      refine if_pos ?_
      show l.limit.all (fun limit => decide (0 + bytes.length ≤ limit)) = true
      rw [Option.all_eq_true]
      intro limit hmem
      rw [Nat.zero_add]
      exact decide_eq_true (hlimit limit hmem)
    have hfits : Nullable.Fits (some bytes) := by
      rintro _ ⟨rfl⟩
      exact hlength
    have hok := (addEncoded_of_open rfl hwithin hbytes hentry oid).trans (if_pos hfits)
    rcases (sound_empty l.limit).addEncoded_allOrNothing grant oid bytes with
      ⟨e, hrefused⟩ | ⟨x, l', ⟨rfl⟩, htaken, hgains⟩
    · cases hok.symm.trans hrefused
    · exact ⟨l', htaken, hgains.toList_eq⟩

/-- Two of four bytes are taken, and memory has no room for another entry. -/
theorem refusals_leave_no_trace_entry :
    let l := ((empty (some 4)).add .all (.int2 7)).2
    let op := Operation.addition ⟨true, false, none⟩ (.encoded 17 [1])
    (l.operate op).1 = .error (.outOfMemory 24) ∧ (l.operate op).2 = l ∧
    l.finalize.2.operate op = (.error .bufferFinalized, l.finalize.2) ∧
    (Run.after request l.finalize.2 [.operation op, .finalize]).finalize = l.finalize ∧
    ∃ l', l.reset.addEncoded .all 17 [1, 2, 3, 4] = (.ok (), l') ∧
      l'.toList = [(17, some [1, 2, 3, 4])] := by
  intro l op
  obtain ⟨hsame, -, hagain, -, htakes⟩ := refusals_leave_no_trace l
  obtain ⟨-, hrefused, -⟩ := refusals_leave_no_trace l.finalize.2
  have herror : (l.operate op).1 = .error (.outOfMemory 24) := by decide
  exact ⟨herror, hsame op _ herror, hrefused rfl op, (hagain [.operation op, .finalize]).2,
    htakes .all 17 [1, 2, 3, 4] rfl rfl (by decide) (by decide)⟩

end ParameterList

end SqlWire
