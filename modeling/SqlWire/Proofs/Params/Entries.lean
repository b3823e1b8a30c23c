import Mathlib.Tactic
import SqlWire.Params.Basic

/-!
# Entries and the payload they lie in

An entry is sound when its value lies within the payload, and so it is the same value however
much is appended (`Parameter.Sound.slice_append`).  Nothing is ever cut off but what a call
has appended itself before it fails (`RefusedOrEntered`), so a call does one of two things to a
list: it leaves the list as it is, or the list gains parameters behind those it has (`Gains`).  An
addition gains its own parameter or nothing at all, to the last byte
(`Sound.addition_allOrNothing`).
-/

namespace SqlWire

namespace Parameter

variable {p : Parameter} {payload : Bytes} {held : Nat}

/-- An entry for a payload of so many bytes: it has a value that lies within them, or none. -/
structure Sound (p : Parameter) (held : Nat) : Prop where
  format_eq : p.format = binaryFormat
  within : p.isMissing = false → 0 ≤ p.length.toInt ∧ p.offset + p.length.toInt ≤ held

theorem Sound.mono (h : p.Sound held) (more : Nat) : p.Sound (held + more) where
  format_eq := h.format_eq
  within := by
    intro hvalue
    obtain ⟨hnonneg, hwithin⟩ := h.within hvalue
    exact ⟨hnonneg, by omega⟩

theorem slice_of_missing (h : p.isMissing = true) (payload : Bytes) : p.slice payload = none :=
  if_pos h

theorem slice_of_value (h : p.isMissing = false) (payload : Bytes) :
    p.slice payload = some ((payload.drop p.offset).take p.length.toInt.toNat) := by
  rw [slice, h]
  rfl

/-- **What is appended to the payload does not change a value that lies within it.** -/
theorem Sound.slice_append (h : p.Sound payload.length) (more : Bytes) :
    p.slice (payload ++ more) = p.slice payload := by
  cases hmissing : p.isMissing with
  | true => rw [slice_of_missing hmissing, slice_of_missing hmissing]
  | false =>
    obtain ⟨hnonneg, hwithin⟩ := h.within hmissing
    have hoffset : p.offset ≤ payload.length := by omega
    have hlength : p.length.toInt.toNat ≤ (payload.drop p.offset).length := by
      rw [List.length_drop]
      omega
    rw [slice_of_value hmissing, slice_of_value hmissing, List.drop_append_of_le_length hoffset,
      List.take_append_of_le_length hlength]

theorem Sound.length_slice (h : p.Sound payload.length) (hvalue : p.isMissing = false) :
    ∃ bytes, p.slice payload = some bytes ∧ (bytes.length : Int) = p.length.toInt := by
  obtain ⟨hnonneg, hwithin⟩ := h.within hvalue
  refine ⟨_, slice_of_value hvalue payload, ?_⟩
  rw [List.length_take, List.length_drop]
  omega

theorem Sound.shownLength_eq (h : p.Sound payload.length) :
    p.shownLength.toInt = ((p.slice payload).getD []).length := by
  cases hmissing : p.isMissing with
  | true =>
    have hlength : p.length = Nullable.missing := eq_of_beq hmissing
    rw [shownLength, hlength, slice_of_missing hmissing]
    rfl
  | false =>
    obtain ⟨hnonneg, -⟩ := h.within hmissing
    obtain ⟨bytes, hslice, hbytes⟩ := h.length_slice hmissing
    have hlength : ¬ p.length < 0 := by
      rw [Int32.lt_iff_toInt_lt]
      exact not_lt.2 hnonneg
    rw [shownLength, if_neg hlength, hslice, Option.getD_some, hbytes]

theorem sound_of_rest (hformat : p.format = binaryFormat) (hoffset : p.offset ≤ payload.length)
    (hlength : p.length.toInt = (payload.length - p.offset : Nat)) :
    p.Sound payload.length ∧ p.slice payload = some (payload.drop p.offset) := by
  have hvalue : p.isMissing = false := by
    apply beq_false_of_ne
    intro hmissing
    rw [hmissing, show Nullable.missing.toInt = -1 from rfl] at hlength
    omega
  refine ⟨⟨hformat, ?_⟩, ?_⟩
  · intro _
    omega
  · rw [slice_of_value hvalue, hlength, Int.toNat_natCast, ← List.length_drop, List.take_length]

end Parameter

namespace ParameterList

variable {l l' l'' : ParameterList} {p : Parameter} {grant : Grant} {mark : Mark} {oid : Oid}
  {bytes : Bytes} {gained gained' : List (Oid × Nullable)}

/-- Every entry has its value within the payload. -/
def Sound (l : ParameterList) : Prop := ∀ p ∈ l.entries, p.Sound l.payload.length

theorem sound_empty (limit : Option Nat) : (empty limit).Sound := nofun

/-! ### What a list gains -/

/-- The list has the parameters it had, and behind them those that it has gained. -/
structure Gains (l l' : ParameterList) (gained : List (Oid × Nullable)) : Prop where
  toList_eq : l'.toList = l.toList ++ gained
  sound : l'.Sound

theorem Gains.trans (h : Gains l l' gained) (h' : Gains l' l'' gained') :
    Gains l l'' (gained ++ gained') where
  toList_eq := by rw [h'.toList_eq, h.toList_eq, List.append_assoc]
  sound := h'.sound

theorem Sound.refl (h : l.Sound) : Gains l l [] where
  toList_eq := (List.append_nil _).symm
  sound := h

def extended (l : ParameterList) (bytes : Bytes) : ParameterList :=
  { l with payload := l.payload ++ bytes }

def entered (l : ParameterList) (p : Parameter) : ParameterList :=
  { l with entries := l.entries ++ [p] }

@[simp] theorem payload_extended (l : ParameterList) (bytes : Bytes) :
    (l.extended bytes).payload = l.payload ++ bytes := rfl

@[simp] theorem extended_nil (l : ParameterList) : l.extended [] = l := by
  rw [extended, List.append_nil]

theorem extended_extended (l : ParameterList) (bytes more : Bytes) :
    (l.extended bytes).extended more = l.extended (bytes ++ more) := by
  rw [extended, payload_extended, List.append_assoc]
  rfl

theorem Sound.extended (h : l.Sound) (bytes : Bytes) : Gains l (l.extended bytes) [] where
  toList_eq := by
    rw [List.append_nil]
    apply List.map_congr_left
    intro p hp
    rw [payload_extended, (h p hp).slice_append]
  sound := by
    intro p hp
    rw [payload_extended, List.length_append]
    exact (h p hp).mono _

theorem Sound.entered (h : l.Sound) (hp : p.Sound l.payload.length) :
    Gains l (l.entered p) [(p.oid, p.slice l.payload)] where
  toList_eq := List.map_append
  sound := by
    intro q hq
    rcases List.mem_append.1 hq with hbefore | hlast
    · exact h q hbefore
    · rwa [List.mem_singleton.1 hlast]

theorem Sound.finalized (h : l.Sound) : Gains l l.finalize.2 [] where
  toList_eq := (List.append_nil _).symm
  sound := h

theorem Gains.get?_eq (h : Gains l l' gained) {i : Nat} {x : Oid × Nullable}
    (hx : l.get? i = some x) : l'.get? i = some x := by
  rw [get?_eq_getElem?] at hx
  obtain ⟨hi, -⟩ := List.getElem?_eq_some_iff.1 hx
  rw [get?_eq_getElem?, h.toList_eq, List.getElem?_append_left hi, hx]

/-! ### New entries -/

theorem begin_eq_ok (h : l.begin = .ok mark) : mark = ⟨l.payload.length⟩ := by
  obtain ⟨-, -, h⟩ := Except.bind_eq_ok_iff.1 h
  cases h
  rfl

theorem of_entryBehind_eq_ok (h : l.entryBehind mark oid = .ok p) :
    p.Sound l.payload.length ∧ (p.oid, p.slice l.payload) =
      (oid, some (l.payload.drop mark.offset)) := by
  obtain ⟨-, -, h⟩ := Except.bind_eq_ok_iff.1 h
  by_cases hpast : l.payload.length < mark.offset
  · simp only [if_pos hpast] at h
    cases h
  · simp only [if_neg hpast] at h
    obtain ⟨length, hlength, h⟩ := Except.bind_eq_ok_iff.1 h
    cases h
    refine And.imp_right (congrArg (Prod.mk oid)) ?_
    apply Parameter.sound_of_rest rfl (not_lt.1 hpast)
    exact Nullable.toInt_of_lengthWordOr_eq_ok hlength

theorem of_missingEntry_eq_ok (h : l.missingEntry oid = .ok p) :
    p.Sound l.payload.length ∧ (p.oid, p.slice l.payload) = (oid, none) := by
  obtain ⟨-, -, h⟩ := Except.bind_eq_ok_iff.1 h
  cases h
  exact ⟨⟨rfl, nofun⟩, rfl⟩

/-! ### What a call comes to -/

theorem enter_cases (l : ParameterList) (grant : Grant) (entry : Except Error Parameter) :
    (∃ e, l.enter grant entry = (.error e, l)) ∨
    ∃ p, entry = .ok p ∧ l.enter grant entry = (.ok (), l.entered p) := by
  unfold enter
  cases entry with
  | error e => exact .inl ⟨e, rfl⟩
  | ok p =>
    cases Grant.require grant.entry Parameter.footprint with
    | error e => exact .inl ⟨e, rfl⟩
    | ok _ => exact .inr ⟨p, rfl, rfl⟩

theorem append_cases (l : ParameterList) (grant : Grant) (bytes : Bytes) :
    (∃ e, l.append grant bytes = (.error e, l)) ∨
    l.append grant bytes = (.ok (), l.extended bytes) := by
  unfold append
  cases l.checkOpen >>= fun () => l.reserve grant bytes.length with
  | error e => exact .inl ⟨e, rfl⟩
  | ok _ => exact .inr rfl

/-- A call is refused and has left the list as it was, or it has appended bytes and made an entry
of them.  This is so for every list. -/
def RefusedOrEntered (l : ParameterList) (oid : Oid) (bytes : Bytes)
    (result : Except Error Unit × ParameterList) : Prop :=
  (∃ e, result = (.error e, l)) ∨
  ∃ p, (l.extended bytes).entryBehind ⟨l.payload.length⟩ oid = .ok p ∧
    result = (.ok (), (l.extended bytes).entered p)

/-- A value that is appended and then refused is cut off at the place where it began. -/
theorem cutOnFailure_cases (l : ParameterList) (grant : Grant) (bytes : Bytes) (oid : Oid) :
    RefusedOrEntered l oid bytes (cutOnFailure ⟨l.payload.length⟩
      ((l.extended bytes).commit grant ⟨l.payload.length⟩ oid)) := by
  rcases (l.extended bytes).enter_cases grant
    ((l.extended bytes).entryBehind ⟨l.payload.length⟩ oid) with ⟨e, hrefused⟩ | ⟨p, hp, htaken⟩
  · refine .inl ⟨e, ?_⟩
    rw [commit, hrefused, cutOnFailure, payload_extended, List.take_left]
    rfl
  · refine .inr ⟨p, hp, ?_⟩
    rw [commit, htaken, cutOnFailure]

theorem add_cases (l : ParameterList) (grant : Grant) (v : Value) :
    (∃ e, l.add grant v = (.error e, l)) ∨
    ∃ bytes, v.encode = .ok bytes ∧ RefusedOrEntered l v.typeOid bytes (l.add grant v) := by
  unfold add
  cases hbegin : l.begin with
  | error e => exact .inl ⟨e, rfl⟩
  | ok mark =>
    cases begin_eq_ok hbegin
    cases l.reserve grant v.encodedLength with
    | error e => exact .inl ⟨e, rfl⟩
    | ok _ =>
      cases v.encode with
      | error e =>
        -- a value without wire form has written nothing
        refine .inl ⟨e, ?_⟩
        simp only [Bytes.appendForm, cutOnFailure, List.take_length]
      | ok bytes => exact .inr ⟨bytes, rfl, l.cutOnFailure_cases grant bytes v.typeOid⟩

theorem addEncoded_cases (l : ParameterList) (grant : Grant) (oid : Oid) (bytes : Bytes) :
    RefusedOrEntered l oid bytes (l.addEncoded grant oid bytes) := by
  unfold addEncoded
  cases hbegin : l.begin with
  | error e => exact .inl ⟨e, rfl⟩
  | ok mark =>
    cases begin_eq_ok hbegin
    rcases l.append_cases grant bytes with ⟨e, hrefused⟩ | htaken
    · rw [hrefused]
      exact .inl ⟨e, rfl⟩
    · rw [htaken]
      exact l.cutOnFailure_cases grant bytes oid

/-! ### All or nothing -/

/-- A call that fails has left the list as it was, and one that succeeds has made it gain `x?`. -/
def AllOrNothing (l : ParameterList) (x? : Option (Oid × Nullable))
    (result : Except Error Unit × ParameterList) : Prop :=
  (∃ e, result = (.error e, l)) ∨
  ∃ x l', x? = some x ∧ result = (.ok (), l') ∧ Gains l l' [x]

theorem AllOrNothing.gains {x? : Option (Oid × Nullable)}
    {result : Except Error Unit × ParameterList} (h : AllOrNothing l x? result)
    (hsound : l.Sound) :
    Gains l result.2 (match result.1 with | .ok () => x?.toList | .error _ => []) := by
  rcases h with ⟨e, rfl⟩ | ⟨x, l', rfl, rfl, hgains⟩
  · exact hsound.refl
  · exact hgains

theorem Sound.enter_allOrNothing (h : l.Sound) (grant : Grant) {entry : Except Error Parameter}
    {x : Oid × Nullable}
    (hentry : ∀ p, entry = .ok p → p.Sound l.payload.length ∧ (p.oid, p.slice l.payload) = x) :
    AllOrNothing l (some x) (l.enter grant entry) := by
  rcases l.enter_cases grant entry with hrefused | ⟨p, rfl, htaken⟩
  · exact .inl hrefused
  · obtain ⟨hsound, rfl⟩ := hentry p rfl
    exact .inr ⟨_, l.entered p, rfl, htaken, h.entered hsound⟩

theorem Sound.commit_allOrNothing (h : l.Sound) (grant : Grant) (mark : Mark) (oid : Oid) :
    AllOrNothing l (some (oid, some (l.payload.drop mark.offset))) (l.commit grant mark oid) :=
  h.enter_allOrNothing grant fun _ hentry => of_entryBehind_eq_ok hentry

theorem Sound.commitNull_allOrNothing (h : l.Sound) (grant : Grant) (oid : Oid) :
    AllOrNothing l (some (oid, none)) (l.commitNull grant oid) :=
  h.enter_allOrNothing grant fun _ hentry => of_missingEntry_eq_ok hentry

theorem RefusedOrEntered.allOrNothing {result : Except Error Unit × ParameterList}
    (hresult : RefusedOrEntered l oid bytes result) (h : l.Sound) :
    AllOrNothing l (some (oid, some bytes)) result := by
  rcases hresult with hrefused | ⟨p, hp, htaken⟩
  · exact .inl hrefused
  · have hextended : Gains l (l.extended bytes) [] := h.extended bytes
    obtain ⟨hsound, hvalue⟩ := of_entryBehind_eq_ok hp
    have hgains := hextended.trans (hextended.sound.entered hsound)
    rw [hvalue, payload_extended, List.drop_left, List.nil_append] at hgains
    exact .inr ⟨_, _, rfl, htaken, hgains⟩

theorem Sound.add_allOrNothing (h : l.Sound) (grant : Grant) (v : Value) :
    AllOrNothing l (v.encode.toOption.map fun bytes => (v.typeOid, some bytes))
      (l.add grant v) := by
  rcases l.add_cases grant v with hrefused | ⟨bytes, hbytes, hresult⟩
  · exact .inl hrefused
  · rw [hbytes]
    exact hresult.allOrNothing h

theorem Sound.addEncoded_allOrNothing (h : l.Sound) (grant : Grant) (oid : Oid) (bytes : Bytes) :
    AllOrNothing l (some (oid, some bytes)) (l.addEncoded grant oid bytes) :=
  (l.addEncoded_cases grant oid bytes).allOrNothing h

/-- Memory decides whether there is an array, not which. -/
theorem arrayForm_of_eq_ok {registry : Registry} {t : DataType} {items : List (Option Value)}
    {form : Oid × Bytes} (h : arrayForm grant registry t items = .ok form) :
    arrayForm .all registry t items = .ok form := by
  unfold arrayForm at h ⊢
  cases hrefused : grant.refused with
  | none => rwa [hrefused] at h
  | some size =>
    rw [hrefused] at h
    obtain ⟨oid, -, h⟩ := Except.bind_eq_ok_iff.1 h
    cases h

/-! ### Additions -/

/-- What can be added to a list in one call. -/
inductive Addition where
  | value (v : Value)
  | optional (t : DataType) (v : Option Value)
  | encoded (oid : Oid) (bytes : Bytes)
  | array (registry : Registry) (t : DataType) (items : List (Option Value))
  | null (oid : Oid)

def addition (l : ParameterList) (grant : Grant) : Addition → Except Error Unit × ParameterList
  | .value v => l.add grant v
  | .optional t v => l.addOptional grant t v
  | .encoded oid bytes => l.addEncoded grant oid bytes
  | .array registry t items => l.addArray grant registry t items
  | .null oid => l.commitNull grant oid

/-- The parameter that an addition is to add.  There is none for a value without wire form. -/
def Addition.parameter? : Addition → Option (Oid × Nullable)
  | value v | optional _ (some v) => v.encode.toOption.map fun bytes => (v.typeOid, some bytes)
  | optional t none => some (t.entry.oid, none)
  | encoded oid bytes => some (oid, some bytes)
  | array registry t items =>
    (arrayForm .all registry t items).toOption.map fun (oid, bytes) => (oid, some bytes)
  | null oid => some (oid, none)

/-- **An addition adds its parameter, or leaves the list as it is.** -/
theorem Sound.addition_allOrNothing (h : l.Sound) (grant : Grant) (a : Addition) :
    AllOrNothing l a.parameter? (l.addition grant a) := by
  cases a with
  | value v => exact h.add_allOrNothing grant v
  | optional t v =>
    cases v with
    | none => exact h.commitNull_allOrNothing grant t.entry.oid
    | some v => exact h.add_allOrNothing grant v
  | encoded oid bytes => exact h.addEncoded_allOrNothing grant oid bytes
  | null oid => exact h.commitNull_allOrNothing grant oid
  | array registry t items =>
    show AllOrNothing l _ (l.addArray grant registry t items)
    unfold addArray
    cases hform : arrayForm grant registry t items with
    | error e => exact .inl ⟨e, rfl⟩
    | ok form =>
      rw [Addition.parameter?, arrayForm_of_eq_ok hform]
      exact h.addEncoded_allOrNothing grant form.1 form.2

end ParameterList

end SqlWire
