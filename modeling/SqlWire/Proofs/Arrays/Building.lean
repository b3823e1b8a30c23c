import SqlWire.Arrays.Builder
import SqlWire.Proofs.Run

/-!
# What a builder holds

The buffer of a builder is empty, or has the header and the elements so far; `Holds` says
with what count and flag that goes.  An element is written in three moves, a length word
that is not right yet, the bytes, and the right length word, and `pushWith_of_taken` and
`pushWith_of_refused` say what comes of them: `added`, or nothing but perhaps the header.
`Holds.call` is the step for a call of any kind, and `holds_after` holds of every run.
-/

namespace SqlWire

namespace ArrayBuilder

/-! ### Calls -/

/-- Appends bytes to a buffer, and then succeeds or fails.  Both may depend on the buffer. -/
def appending (payload : Bytes → Bytes) (outcome : Bytes → Except Error Unit) (buffer : Bytes) :
    Except Error Unit × Bytes :=
  (outcome buffer, buffer ++ payload buffer)

/-- What can be asked of a builder. -/
inductive Call where
  | null
  | bytes (raw : Bytes)
  | value (v : Value)
  | optional (v : Option Value)
  | write (payload : Bytes → Bytes) (outcome : Bytes → Except Error Unit)

def call (b : ArrayBuilder) : Call → Except Error Unit × ArrayBuilder
  | .null => b.pushNull
  | .bytes raw => b.pushBytes raw
  | .value v => b.pushValue v
  | .optional v => b.pushOptional v
  | .write payload outcome => b.pushWith (appending payload outcome)

/-- What the buffer is when the bytes of an element are to be appended. -/
def elementBuffer (b : ArrayBuilder) : Bytes := b.withHeader.buffer ++ Word.toBytes (0 : Int32)

/-- The element that a function appends, unless it fails. -/
def writtenItem? (b : ArrayBuilder) (payload : Bytes → Bytes)
    (outcome : Bytes → Except Error Unit) : Option Nullable :=
  (outcome b.elementBuffer).toOption.map fun () => some (payload b.elementBuffer)

/-- The element that a value makes: its wire form, if it has one and is of the right type. -/
def valueItem? (b : ArrayBuilder) (v : Value) : Option Nullable :=
  if v.typeOid = b.header.element then v.encode.toOption.map some else none

/-- The element that a call is to add. -/
def item? (b : ArrayBuilder) : Call → Option Nullable
  | .null => some none
  | .bytes raw => some (some raw)
  | .value v => b.valueItem? v
  | .optional none => some none
  | .optional (some v) => b.valueItem? v
  | .write payload outcome => b.writtenItem? payload outcome

/-- The builder has room for an element, and this is one that is not too long. -/
def Takes (b : ArrayBuilder) (item? : Option Nullable) : Prop :=
  b.written < b.expected ∧ ∃ item, item? = some item ∧ item.Fits

def after (b : ArrayBuilder) (calls : List Call) : ArrayBuilder := Run.after call b calls

/-- The elements that the calls of a run add. -/
def accepted (b : ArrayBuilder) (calls : List Call) : List Nullable :=
  Run.accepted call item? b calls

def successes (b : ArrayBuilder) (calls : List Call) : Nat := Run.successes call b calls

variable {header : ArrayHeader} {b : ArrayBuilder} {item : Nullable} {items : List Nullable}
  {payload : Bytes → Bytes} {outcome : Bytes → Except Error Unit}

/-! ### The header in the buffer -/

@[simp] theorem header_withHeader (b : ArrayBuilder) : b.withHeader.header = b.header := by
  unfold withHeader
  split <;> rfl

@[simp] theorem written_withHeader (b : ArrayBuilder) : b.withHeader.written = b.written := by
  unfold withHeader
  split <;> rfl

@[simp] theorem hasNulls_withHeader (b : ArrayBuilder) : b.withHeader.hasNulls = b.hasNulls := by
  unfold withHeader
  split <;> rfl

theorem withHeader_of_ne (h : b.buffer ≠ []) : b.withHeader = b := if_neg h

theorem buffer_withHeader_ne (b : ArrayBuilder) : b.withHeader.buffer ≠ [] := by
  by_cases h : b.buffer = []
  · rw [withHeader, if_pos h]
    apply List.ne_nil_of_length_pos
    rw [ArrayHeader.length_encode, ArrayHeader.encodedLength]
    omega
  · rwa [withHeader_of_ne h]

theorem withHeader_withHeader (b : ArrayBuilder) : b.withHeader.withHeader = b.withHeader :=
  withHeader_of_ne b.buffer_withHeader_ne

/-! ### One element -/

def added (b : ArrayBuilder) (item : Nullable) : ArrayBuilder :=
  { b.withHeader with
    written := b.written + 1
    hasNulls := b.hasNulls || item.isNone
    buffer := b.withHeader.buffer ++ item.encode }

theorem checkRoom_of_lt (h : b.written < b.expected) : b.checkRoom = .ok () := if_pos h

theorem checkRoom_of_not_lt (h : ¬ b.written < b.expected) : ∃ e, b.checkRoom = .error e :=
  ⟨_, if_neg h⟩

theorem pushNull_of_lt (h : b.written < b.expected) : b.pushNull = (.ok (), b.added none) := by
  rw [pushNull, checkRoom_of_lt h]
  simp [added, Nullable.encode, Nullable.lengthWord]

theorem lengthWord_of_fits {bytes : Bytes} (h : Nullable.Fits (some bytes)) :
    lengthWord bytes.length = .ok (Nullable.lengthWord (some bytes)) := if_pos (h bytes rfl)

theorem lengthWord_of_not_fits {bytes : Bytes} (h : ¬ Nullable.Fits (some bytes)) :
    ∃ e, lengthWord bytes.length = .error e := by
  refine ⟨_, if_neg fun hlength => h ?_⟩
  rintro _ ⟨rfl⟩
  exact hlength

theorem length_element (b : ArrayBuilder) (bytes : Bytes) :
    (b.elementBuffer ++ bytes).length -
      (b.withHeader.buffer.length + (Word.toBytes (0 : Int32)).length) = bytes.length := by
  rw [elementBuffer, List.length_append, List.length_append, Nat.add_sub_cancel_left]

/-- What an element that fails has left in the buffer is cut off, but not the header. -/
theorem pushWith_of_refused {e : Error} (hroom : b.written < b.expected)
    (hrefused : (outcome b.elementBuffer).bind
      (fun () => lengthWord (payload b.elementBuffer).length) = .error e) :
    b.pushWith (appending payload outcome) = (.error e, b.withHeader) := by
  simp only [pushWith, checkRoom_of_lt hroom, appending]
  rw [← elementBuffer, length_element, hrefused]
  dsimp only
  rw [elementBuffer, List.append_assoc, List.take_left]

theorem pushWith_of_taken (hroom : b.written < b.expected)
    (houtcome : outcome b.elementBuffer = .ok ())
    (hfits : Nullable.Fits (some (payload b.elementBuffer))) :
    b.pushWith (appending payload outcome) =
      (.ok (), b.added (some (payload b.elementBuffer))) := by
  simp only [pushWith, checkRoom_of_lt hroom, appending]
  rw [← elementBuffer, length_element, houtcome, Except.bind, lengthWord_of_fits hfits]
  dsimp only
  rw [show b.elementBuffer ++ payload b.elementBuffer = b.withHeader.buffer ++
    (Word.toBytes (0 : Int32) ++ payload b.elementBuffer) from List.append_assoc _ _ _,
    Bytes.overwrite_append _ (by simp)]
  simp [added, Nullable.encode]

/-! ### Runs -/

/-- A builder that has the header and just these elements. -/
structure Holds (header : ArrayHeader) (b : ArrayBuilder) (items : List Nullable) : Prop where
  header_eq : b.header = header
  written_eq : b.written = items.length
  hasNulls_eq : b.hasNulls = items.any Option.isNone
  buffer_eq : b.withHeader.buffer = header.encode ++ items.flatMap Nullable.encode
  fits : ∀ item ∈ items, item.Fits

theorem holds_start (header : ArrayHeader) : Holds header (start header) [] where
  header_eq := rfl
  written_eq := rfl
  hasNulls_eq := rfl
  buffer_eq := (List.append_nil header.encode).symm
  fits := nofun

theorem Holds.withHeader (h : Holds header b items) : Holds header b.withHeader items where
  header_eq := b.header_withHeader.trans h.header_eq
  written_eq := b.written_withHeader.trans h.written_eq
  hasNulls_eq := b.hasNulls_withHeader.trans h.hasNulls_eq
  buffer_eq := by rw [withHeader_withHeader, h.buffer_eq]
  fits := h.fits

theorem Holds.added (h : Holds header b items) (hfits : item.Fits) :
    Holds header (b.added item) (items ++ [item]) where
  header_eq := b.header_withHeader.trans h.header_eq
  written_eq := by simp [ArrayBuilder.added, h.written_eq]
  hasNulls_eq := by simp [ArrayBuilder.added, h.hasNulls_eq]
  buffer_eq := by
    have hne : (b.added item).buffer ≠ [] :=
      List.append_ne_nil_of_left_ne_nil b.buffer_withHeader_ne _
    rw [withHeader_of_ne hne, List.flatMap_append, List.flatMap_singleton, ← List.append_assoc,
      ← h.buffer_eq]
    rfl
  fits := by
    intro other hother
    rcases List.mem_append.1 hother with hbefore | hlast
    · exact h.fits other hbefore
    · rwa [List.mem_singleton.1 hlast]

/-- The result of adding an element to a builder that has some: it is taken, or what the builder
has stays the same. -/
def Pushes (header : ArrayHeader) (items : List Nullable) (b : ArrayBuilder)
    (item? : Option Nullable) (r : Except Error Unit × ArrayBuilder) : Prop :=
  (¬ b.Takes item? ∧ ∃ e b', r = (.error e, b') ∧ Holds header b' items) ∨
  (b.Takes item? ∧ ∃ b', r = (.ok (), b') ∧ Holds header b' (items ++ item?.toList))

theorem Holds.pushNull (h : Holds header b items) :
    Pushes header items b (some none) b.pushNull := by
  have hfits : Nullable.Fits none := nofun
  by_cases hroom : b.written < b.expected
  · exact .inr ⟨⟨hroom, none, rfl, hfits⟩, _, pushNull_of_lt hroom, h.added hfits⟩
  · obtain ⟨e, hfull⟩ := checkRoom_of_not_lt hroom
    refine .inl ⟨fun htakes => hroom htakes.1, e, b, ?_, h⟩
    rw [ArrayBuilder.pushNull, hfull]

theorem Holds.pushWith (h : Holds header b items) (payload : Bytes → Bytes)
    (outcome : Bytes → Except Error Unit) :
    Pushes header items b (b.writtenItem? payload outcome)
      (b.pushWith (appending payload outcome)) := by
  by_cases hroom : b.written < b.expected
  · cases houtcome : outcome b.elementBuffer with
    | error e =>
      refine .inl ⟨?_, e, _, pushWith_of_refused hroom (by rw [houtcome]; rfl), h.withHeader⟩
      rintro ⟨-, item, hitem, -⟩
      rw [writtenItem?, houtcome] at hitem
      cases hitem
    | ok =>
      have hitem : b.writtenItem? payload outcome = some (some (payload b.elementBuffer)) := by
        rw [writtenItem?, houtcome]
        rfl
      rw [hitem]
      by_cases hfits : Nullable.Fits (some (payload b.elementBuffer))
      · exact .inr ⟨⟨hroom, _, rfl, hfits⟩, _, pushWith_of_taken hroom houtcome hfits,
          h.added hfits⟩
      · obtain ⟨e, hlong⟩ := lengthWord_of_not_fits hfits
        refine .inl ⟨?_, e, _, pushWith_of_refused hroom ?_, h.withHeader⟩
        · rintro ⟨-, item, ⟨rfl⟩, hitem⟩
          exact hfits hitem
        · rw [houtcome]
          exact hlong
  · obtain ⟨e, hfull⟩ := checkRoom_of_not_lt hroom
    refine .inl ⟨fun htakes => hroom htakes.1, e, b, ?_, h⟩
    rw [ArrayBuilder.pushWith, hfull]

theorem appendForm_eq_appending (form : Except Error Bytes) :
    (fun buffer => Bytes.appendForm buffer form) =
      appending (fun _ => form.toOption.getD []) fun _ => form.map fun _ => () := by
  funext buffer
  cases form with
  | ok bytes => rfl
  | error e => exact congrArg (Prod.mk _) (List.append_nil buffer).symm

theorem Holds.pushValue (h : Holds header b items) (v : Value) :
    Pushes header items b (b.valueItem? v) (b.pushValue v) := by
  unfold ArrayBuilder.pushValue valueItem?
  by_cases htype : v.typeOid = b.header.element
  · dsimp only
    rw [if_pos htype, if_pos htype, appendForm_eq_appending]
    have hpush := h.pushWith (fun _ => v.encode.toOption.getD []) fun _ => v.encode.map fun _ => ()
    have hitem : b.writtenItem? (fun _ => v.encode.toOption.getD [])
        (fun _ => v.encode.map fun _ => ()) = v.encode.toOption.map some := by
      rw [writtenItem?]
      cases v.encode <;> rfl
    rwa [hitem] at hpush
  · dsimp only
    rw [if_neg htype, if_neg htype]
    refine .inl ⟨?_, _, b, rfl, h⟩
    rintro ⟨-, item, hitem, -⟩
    cases hitem

/-- **Every call takes its element, or leaves the elements as they are.** -/
theorem Holds.call (h : Holds header b items) (c : Call) :
    Pushes header items b (b.item? c) (b.call c) := by
  cases c with
  | null => exact h.pushNull
  | bytes raw => exact h.pushWith (fun _ => raw) fun _ => .ok ()
  | value v => exact h.pushValue v
  | optional v =>
    cases v with
    | none => exact h.pushNull
    | some v => exact h.pushValue v
  | write payload outcome => exact h.pushWith payload outcome

theorem Holds.call_eq_ok_iff (h : Holds header b items) (c : Call) :
    (b.call c).1 = .ok () ↔ b.Takes (b.item? c) := by
  rcases h.call c with ⟨hnot, e, b', hrefused, -⟩ | ⟨htakes, b', htaken, -⟩
  · rw [hrefused]
    exact ⟨nofun, fun htakes => absurd htakes hnot⟩
  · rw [htaken]
    exact ⟨fun _ => htakes, fun _ => rfl⟩

theorem Holds.step (b : ArrayBuilder) (items : List Nullable) (c : Call)
    (h : Holds header b items) :
    Holds header (b.call c).2 (items ++ Run.acceptedBy ArrayBuilder.call item? b c) := by
  rcases h.call c with ⟨-, e, b', hrefused, hsame⟩ | ⟨-, b', htaken, hnext⟩
  · rw [Run.acceptedBy_of_error hrefused, hrefused, List.append_nil]
    exact hsame
  · rw [Run.acceptedBy_of_ok htaken, htaken]
    exact hnext

/-- **After any run the builder holds the elements of the calls that succeeded.** -/
theorem holds_after (header : ArrayHeader) (calls : List Call) :
    Holds header ((start header).after calls) ((start header).accepted calls) :=
  Run.holds_after Holds.step (holds_start header) calls

theorem length_accepted (header : ArrayHeader) (calls : List Call) :
    ((start header).accepted calls).length = (start header).successes calls := by
  refine Run.length_accepted Holds.step ?_ (holds_start header) calls
  intro b items c b' h htaken
  obtain ⟨-, item, hitem, -⟩ := (h.call_eq_ok_iff c).1 (congrArg Prod.fst htaken)
  rw [hitem]
  exact Option.some_ne_none item

end ArrayBuilder

end SqlWire
