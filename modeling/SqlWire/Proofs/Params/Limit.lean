import SqlWire.Proofs.Params.Marks
import SqlWire.Proofs.Params.Refusals
import SqlWire.Proofs.Value.Length

/-!
# The limit of a payload

A list asks whether bytes are within its limit before it writes them, and for a value it asks about
a length that is worked out without the bytes.  The length is right for values of every type, so a
value is added just as its bytes are (`add_of_encode`), and there is one condition for both
(`append_eq_ok_iff`, `addEncoded_eq_ok_iff`).

All bytes but those that are written through a borrowed payload come by one of these two ways.  So
no call goes past the limit (`KeepsTo.call`), nor does any run (`KeepsTo.after`).
-/

namespace SqlWire

namespace ParameterList

variable {l : ParameterList} {grant : Grant} {bytes : Bytes} {oid : Oid} {v : Value}
  {limit count : Nat}

/-! ### What a list takes -/

/-- So many more bytes are within the limit. -/
def HasRoom (l : ParameterList) (count : Nat) : Prop :=
  ∀ limit ∈ l.limit, l.payload.length + count ≤ limit

theorem hasRoom_iff (h : l.limit = some limit) :
    l.HasRoom count ↔ l.payload.length + count ≤ limit := by
  simp [HasRoom, h]

theorem reserve_eq_ok_iff :
    l.reserve grant count = .ok () ↔ l.HasRoom count ∧ grant.bytes = true := by
  have hlimit : l.checkLimit count = .ok () ↔ l.HasRoom count := by
    unfold checkLimit HasRoom
    simp only [Option.all_eq_true, decide_eq_true_eq]
    split <;> simp_all
  have hgrant : Grant.require grant.bytes (l.payload.length + count) = .ok () ↔
      grant.bytes = true := by
    unfold Grant.require
    split <;> simp_all
  rw [reserve, Except.bind_eq_ok_iff, ← hlimit, ← hgrant]
  constructor
  · rintro ⟨_, hroom, hgranted⟩
    exact ⟨hroom, hgranted⟩
  · rintro ⟨hroom, hgranted⟩
    exact ⟨(), hroom, hgranted⟩

/-- **Bytes are appended just when the list is open and they are within the limit**, if memory is
not short. -/
theorem append_eq_ok_iff : (l.append grant bytes).1 = .ok () ↔
    l.isFinalized = false ∧ l.HasRoom bytes.length ∧ grant.bytes = true := by
  rw [← reserve_eq_ok_iff]
  cases hfinalized : l.isFinalized with
  | true =>
    rw [append, checkOpen_of_finalized hfinalized]
    simp [bind, Except.bind]
  | false =>
    rw [append, checkOpen_of_open hfinalized]
    simp only [bind, Except.bind]
    cases l.reserve grant bytes.length with
    | error e => simp
    | ok _ => simp

theorem addEncoded_eq_ok_iff : (l.addEncoded grant oid bytes).1 = .ok () ↔
    (l.append grant bytes).1 = .ok () ∧ Nullable.Fits (some bytes) ∧ grant.entry = true := by
  cases hfinalized : l.isFinalized with
  | true =>
    rw [addEncoded, begin_of_finalized hfinalized, append_eq_ok_iff, hfinalized]
    simp
  | false =>
    rw [addEncoded, begin_of_open hfinalized]
    rcases l.append_cases grant bytes with ⟨e, hrefused⟩ | htaken
    · rw [hrefused]
      simp
    · rw [htaken]
      dsimp only
      rw [commit, entryBehind_extended hfinalized]
      by_cases hfits : Nullable.Fits (some bytes)
      · cases hentry : grant.entry with
        | true => simp [enter, hfits, hentry, Grant.require, cutOnFailure]
        | false => simp [enter, hfits, hentry, Grant.require, cutOnFailure]
      · simp [enter, hfits, cutOnFailure]

/-- **The length of a value is the right one**, and so it is added just as its bytes are. -/
theorem add_of_encode (h : v.encode = .ok bytes) :
    l.add grant v = l.addEncoded grant v.typeOid bytes := by
  rw [add, addEncoded, append, ← Value.length_of_encode h, h]
  cases hfinalized : l.isFinalized with
  | true => rw [begin_of_finalized hfinalized]
  | false =>
    rw [begin_of_open hfinalized, checkOpen_of_open hfinalized]
    simp only [bind, Except.bind]
    cases l.reserve grant bytes.length <;> rfl

theorem add_eq_ok_iff : (l.add grant v).1 = .ok () ↔
    ∃ bytes, v.encode = .ok bytes ∧ (l.addEncoded grant v.typeOid bytes).1 = .ok () := by
  constructor
  · intro hadded
    rcases l.add_cases grant v with ⟨e, hrefused⟩ | ⟨bytes, hencode, -⟩
    · rw [hrefused] at hadded
      cases hadded
    · exact ⟨bytes, hencode, by rwa [← add_of_encode hencode]⟩
  · rintro ⟨bytes, hencode, hadded⟩
    rwa [add_of_encode hencode]

/-! ### What a call keeps to -/

/-- The list has this limit, and its payload is within it. -/
structure KeepsTo (l : ParameterList) (limit : Nat) : Prop where
  limit_eq : l.limit = some limit
  length_le : l.payload.length ≤ limit

theorem keepsTo_empty (limit : Nat) : (empty (some limit)).KeepsTo limit :=
  ⟨rfl, Nat.zero_le limit⟩

theorem KeepsTo.extended (h : l.KeepsTo limit) (hroom : l.HasRoom bytes.length) :
    (l.extended bytes).KeepsTo limit where
  limit_eq := h.limit_eq
  length_le := by
    rw [payload_extended, List.length_append]
    exact (hasRoom_iff h.limit_eq).1 hroom

theorem KeepsTo.enter (h : l.KeepsTo limit) (entry : Except Error Parameter) :
    (l.enter grant entry).2.KeepsTo limit := by
  rcases l.enter_cases grant entry with ⟨e, hrefused⟩ | ⟨p, -, htaken⟩
  · rwa [hrefused]
  · rw [htaken]
    exact ⟨h.limit_eq, h.length_le⟩

theorem KeepsTo.append (h : l.KeepsTo limit) (bytes : Bytes) :
    (l.append grant bytes).2.KeepsTo limit := by
  rcases l.append_cases grant bytes with ⟨e, hrefused⟩ | htaken
  · rwa [hrefused]
  · obtain ⟨-, hroom, -⟩ := append_eq_ok_iff.1 (congrArg Prod.fst htaken)
    rw [htaken]
    exact h.extended hroom

theorem KeepsTo.addEncoded (h : l.KeepsTo limit) (oid : Oid) (bytes : Bytes) :
    (l.addEncoded grant oid bytes).2.KeepsTo limit := by
  rcases l.addEncoded_cases grant oid bytes with ⟨e, hrefused⟩ | ⟨p, -, htaken⟩
  · rwa [hrefused]
  · obtain ⟨happended, -⟩ := addEncoded_eq_ok_iff.1 (congrArg Prod.fst htaken)
    obtain ⟨-, hroom, -⟩ := append_eq_ok_iff.1 happended
    have hextended := h.extended hroom
    rw [htaken]
    exact ⟨hextended.limit_eq, hextended.length_le⟩

theorem KeepsTo.add (h : l.KeepsTo limit) (v : Value) : (l.add grant v).2.KeepsTo limit := by
  rcases l.add_cases grant v with ⟨e, hrefused⟩ | ⟨bytes, hencode, -⟩
  · rwa [hrefused]
  · rw [add_of_encode hencode]
    exact h.addEncoded v.typeOid bytes

theorem KeepsTo.addition (h : l.KeepsTo limit) (a : Addition) :
    (l.addition grant a).2.KeepsTo limit := by
  cases a with
  | value v => exact h.add v
  | optional t v =>
    cases v with
    | none => exact h.enter _
    | some v => exact h.add v
  | encoded oid bytes => exact h.addEncoded oid bytes
  | null oid => exact h.enter _
  | array registry t items =>
    show (l.addArray grant registry t items).2.KeepsTo limit
    unfold addArray
    cases arrayForm grant registry t items with
    | error e => exact h
    | ok form => exact h.addEncoded form.1 form.2

/-- The call borrows the payload and writes to it. -/
def Call.WritesThrough : Call → Prop
  | write more _ => ∃ payload, more payload ≠ []
  | _ => False

/-- **A call keeps to the limit**, unless it writes through a borrowed payload. -/
theorem KeepsTo.call (h : l.KeepsTo limit) {c : Call} (hc : ¬ c.WritesThrough) :
    (l.call c).2.KeepsTo limit := by
  cases c with
  | addition grant a => exact h.addition a
  | append grant bytes => exact h.append bytes
  | commit grant mark oid => exact h.enter _
  | begin => exact h
  | finalize => exact ⟨h.limit_eq, h.length_le⟩
  | execute executor statement => exact ⟨h.limit_eq, h.length_le⟩
  | reset => exact ⟨h.limit_eq, Nat.zero_le limit⟩
  | write more outcome =>
    have hnothing : more l.payload = [] := by
      by_contra hwritten
      exact hc ⟨l.payload, hwritten⟩
    show (l.writeThrough _).2.KeepsTo limit
    unfold writeThrough
    cases l.checkOpen with
    | error e => exact h
    | ok _ =>
      dsimp only
      rw [hnothing, List.append_nil]
      exact h

theorem KeepsTo.after (h : l.KeepsTo limit) {calls : List Call}
    (hcalls : ∀ c ∈ calls, ¬ c.WritesThrough) : (l.after calls).KeepsTo limit := by
  induction calls generalizing l with
  | nil => exact h
  | cons c calls ih =>
    exact ih (h.call (hcalls c List.mem_cons_self)) fun c hc =>
      hcalls c (List.mem_cons_of_mem _ hc)

/-- **The limit is never passed, and nothing within it is refused.**  Whatever has been asked of a
list, short of writing through its payload, and whatever was refused, the payload is within the
limit.  If memory is not short, more bytes are appended just when the list is open and they are
within the limit too; and a value is added just when the list is open, its length is within the
limit, and it has a wire form. -/
theorem limit_is_tight (limit : Nat) (calls : List Call)
    (hcalls : ∀ c ∈ calls, ¬ c.WritesThrough) :
    let l := (empty (some limit)).after calls
    l.payload.length ≤ limit ∧
    (∀ bytes, (l.append .all bytes).1 = .ok () ↔
      l.isFinalized = false ∧ l.payload.length + bytes.length ≤ limit) ∧
    ∀ v : Value, v.encodedLength < 2 ^ 31 →
      ((l.add .all v).1 = .ok () ↔ l.isFinalized = false ∧
        l.payload.length + v.encodedLength ≤ limit ∧ ∃ bytes, v.encode = .ok bytes) := by
  intro l
  have hkeeps : l.KeepsTo limit := (keepsTo_empty limit).after hcalls
  have happend (bytes : Bytes) : (l.append .all bytes).1 = .ok () ↔
      l.isFinalized = false ∧ l.payload.length + bytes.length ≤ limit := by
    rw [append_eq_ok_iff, hasRoom_iff hkeeps.limit_eq]
    simp [Grant.all]
  refine ⟨hkeeps.length_le, happend, ?_⟩
  intro v hlength
  rw [add_eq_ok_iff]
  constructor
  · rintro ⟨bytes, hencode, hadded⟩
    obtain ⟨happended, -, -⟩ := addEncoded_eq_ok_iff.1 hadded
    obtain ⟨hopen, hroom⟩ := (happend bytes).1 happended
    rw [Value.length_of_encode hencode] at hroom
    exact ⟨hopen, hroom, bytes, hencode⟩
  · rintro ⟨hopen, hroom, bytes, hencode⟩
    have hbytes := Value.length_of_encode hencode
    have hfits : Nullable.Fits (some bytes) := by
      rintro _ ⟨rfl⟩
      exact hbytes ▸ hlength
    exact ⟨bytes, hencode, addEncoded_eq_ok_iff.2
      ⟨(happend bytes).2 ⟨hopen, by rwa [hbytes]⟩, hfits, rfl⟩⟩

/-- An array and two bytes of a value, 32 bytes in all, and then 13 that a limit of 44 refuses. -/
def arrayFirst : List Call :=
  [.addition .all (.array .builtin .int2 [some (.int2 7), none]), .begin, .append .all [1, 2],
    .addition .all (.encoded 17 (List.replicate 13 0))]

/-- Twelve bytes are left.  Thirteen are refused, and a value of twelve is taken; a numeric of ten
is not, since it has no wire form. -/
theorem limit_is_tight_full :
    let l := (empty (some 44)).after arrayFirst
    l.payload.length ≤ 44 ∧ (l.append .all (List.replicate 13 0)).1 ≠ .ok () ∧
    (l.add .all (.timetz ⟨⟨0⟩, 3600⟩)).1 = .ok () ∧
    (l.add .all (.numeric (.finite ⟨false, 100000, 0, [1]⟩))).1 ≠ .ok () := by
  intro l
  have hcalls : ∀ c ∈ arrayFirst, ¬ c.WritesThrough := by simp [arrayFirst, Call.WritesThrough]
  have hheld : l.isFinalized = false ∧ l.payload.length = 32 := by decide
  obtain ⟨hwithin, happend, hadd⟩ := limit_is_tight 44 arrayFirst hcalls
  refine ⟨hwithin, ?_, ?_, ?_⟩
  · intro hok
    have hroom := ((happend (List.replicate 13 0)).1 hok).2
    rw [hheld.2] at hroom
    exact absurd hroom (by decide)
  · refine (hadd (.timetz ⟨⟨0⟩, 3600⟩) (by decide)).2 ⟨hheld.1, ?_, _, rfl⟩
    rw [hheld.2]
    decide
  · intro hok
    obtain ⟨-, -, bytes, hencode⟩ :=
      (hadd (.numeric (.finite ⟨false, 100000, 0, [1]⟩)) (by decide)).1 hok
    cases hencode

end ParameterList

end SqlWire
