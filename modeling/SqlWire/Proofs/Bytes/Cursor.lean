import SqlWire.Bytes.Cursor
import SqlWire.Proofs.CutOff
import SqlWire.Proofs.Value.Appending

/-!
# Reading in the order of writing

What a read of a `Cursor` does is said once, by `run_read`: with bytes enough it gives what they
spell and goes past them, and otherwise it fails and moves nothing.  `Kind.readFrom_view` says that
this is what a `Reader` does, which keeps only the bytes ahead.

From the one step come the runs.  `readAll_append` takes what was written off the front,
`readAll_cut` finds the first thing that is cut off, and `consumed_readAll` accounts for the bytes
of any reads whatever.
-/

namespace SqlWire

theorem Datum.writes_put (x : Datum) : Writer.Writes x.put (.ok x.encode) := by
  cases x with
  | word t x => exact Writer.writes_put x
  | bytes raw => exact Writer.writes_putBytes raw

namespace Cursor

/-- The position lies within the bytes. -/
def InBounds (c : Cursor) : Prop := c.position ≤ c.bytes.length

/-- The reader in the same place. -/
def view (c : Cursor) : Reader := ⟨c.context, c.position, c.bytes.drop c.position⟩

/-! ### What a read does -/

variable {c : Cursor} {k : Kind}

/-- **A read does all or nothing.**  It gives what the next bytes spell and goes past them, or fails
for want of bytes and leaves the cursor where it is. -/
theorem run_read (k : Kind) (c : Cursor) : (read k).run c =
    if k.width ≤ c.remaining then
      (.ok (k.ofBytes ((c.bytes.drop c.position).take k.width)),
        { c with position := c.position + k.width })
    else (.error (.truncated c.context k.width c.remaining), c) := by
  have hensure : (ensure k.width).run c = if k.width ≤ c.remaining then (.ok (), c)
      else (.error (.truncated c.context k.width c.remaining), c) := by
    show (if c.remaining < k.width then
      (throw (.truncated c.context k.width c.remaining) : CursorM Unit) else pure ()).run c = _
    by_cases hroom : k.width ≤ c.remaining
    · rw [if_pos hroom, if_neg (Nat.not_lt.2 hroom)]
      rfl
    · rw [if_neg hroom, if_pos (Nat.lt_of_not_le hroom)]
      rfl
  unfold ExceptT.run at hensure ⊢
  simp only [read, take, bind, ExceptT.bind, ExceptT.mk, StateT.bind, hensure]
  split_ifs <;> rfl

theorem run_read_of_le (h : k.width ≤ c.remaining) : (read k).run c =
    (.ok (k.ofBytes ((c.bytes.drop c.position).take k.width)),
      { c with position := c.position + k.width }) := by
  rw [run_read, if_pos h]

theorem run_read_of_lt (h : c.remaining < k.width) :
    (read k).run c = (.error (.truncated c.context k.width c.remaining), c) := by
  rw [run_read, if_neg (Nat.not_le.2 h)]

theorem remaining_view (c : Cursor) : c.view.remaining = c.remaining := List.length_drop

end Cursor

/-- Reads it off a reader. -/
def Kind.readFrom : Kind → Reader → Except Error (Datum × Reader)
  | word t, r => (r.read t.Carrier).map fun (x, r) => (.word t x, r)
  | bytes count, r => (r.take count).map fun (raw, r) => (.bytes raw, r)

/-- **A reader reads what the cursor in its place does.**  It is left in the place of the cursor, or
fails with it. -/
theorem Kind.readFrom_view (k : Kind) (c : Cursor) : k.readFrom c.view =
    match (Cursor.read k).run c with
    | (.ok x, c) => .ok (x, c.view)
    | (.error e, _) => .error e := by
  have hlength : c.view.rest.length = c.remaining := c.remaining_view
  have hdrop (n : Nat) : (c.bytes.drop c.position).drop n = c.bytes.drop (c.position + n) :=
    List.drop_drop
  rw [Cursor.run_read]
  by_cases hroom : k.width ≤ c.remaining
  · rw [if_pos hroom]
    cases k with
    | word t =>
      rw [readFrom, Reader.read_eq_ok (hlength ▸ hroom)]
      simp only [Except.map, Reader.advance, Cursor.view, ofBytes, width, hdrop]
    | bytes count =>
      rw [readFrom, Reader.take_eq_ok (hlength ▸ hroom)]
      simp only [Except.map, Cursor.view, ofBytes, width, hdrop]
  · rw [if_neg hroom]
    have hshort : c.view.rest.length < k.width := hlength ▸ Nat.lt_of_not_le hroom
    cases k with
    | word t =>
      rw [readFrom, Reader.read_eq_error hshort, hlength]
      rfl
    | bytes count =>
      change c.view.rest.length < count at hshort
      rw [readFrom, Reader.take_eq_error hshort, hlength]
      rfl

namespace Cursor

variable {context : String}

/-! ### What was written is read -/

theorem run_read_append (before rest : Bytes) (x : Datum) :
    (read x.kind).run ⟨context, before ++ (x.encode ++ rest), before.length⟩ =
      (.ok x, ⟨context, (before ++ x.encode) ++ rest, (before ++ x.encode).length⟩) := by
  have hroom : x.kind.width ≤
      remaining ⟨context, before ++ (x.encode ++ rest), before.length⟩ := by
    simp only [remaining, List.length_append, x.length_encode]
    omega
  have htake : (x.encode ++ rest).take x.kind.width = x.encode := by
    rw [← x.length_encode, List.take_left]
  rw [run_read_of_le hroom]
  dsimp only
  rw [List.drop_left, htake, x.ofBytes_encode, List.length_append, x.length_encode,
    List.append_assoc]

/-- What was written one after the other is read in the same order, and then what comes after. -/
theorem readAll_append (xs : List Datum) (ks : List Kind) (before rest : Bytes) :
    readAll (xs.map Datum.kind ++ ks)
        ⟨context, before ++ (xs.flatMap Datum.encode ++ rest), before.length⟩ =
      let (results, c) := readAll ks ⟨context, (before ++ xs.flatMap Datum.encode) ++ rest,
        (before ++ xs.flatMap Datum.encode).length⟩
      (xs.map .ok ++ results, c) := by
  induction xs generalizing before with
  | nil => simp only [List.map_nil, List.nil_append, List.flatMap_nil, List.append_nil]
  | cons x xs ih =>
    have hrest := ih (before ++ x.encode)
    simp only [List.map_cons, List.cons_append, List.flatMap_cons, List.append_assoc] at hrest ⊢
    rw [readAll, run_read_append]
    simp only [List.append_assoc, hrest]

theorem readAll_start (xs : List Datum) (ks : List Kind) (rest : Bytes) :
    readAll (xs.map Datum.kind ++ ks) (start context (xs.flatMap Datum.encode ++ rest)) =
      let (results, c) := readAll ks
        ⟨context, xs.flatMap Datum.encode ++ rest, (xs.flatMap Datum.encode).length⟩
      (xs.map .ok ++ results, c) :=
  readAll_append xs ks [] rest

/-! ### What is cut off -/

/-- Where things in a row are cut off, one of them is the first that is not whole. -/
theorem exists_first_cut {xs : List Datum} {cut : Bytes}
    (h : CutFrom cut (xs.flatMap Datum.encode)) :
    ∃ whole x beyond part, xs = whole ++ x :: beyond ∧
      cut = whole.flatMap Datum.encode ++ part ∧ CutFrom part x.encode := by
  induction xs generalizing cut with
  | nil => exact absurd h not_cutFrom_nil
  | cons x xs ih =>
    rw [List.flatMap_cons] at h
    rcases h.of_append with hfirst | ⟨tail, rfl, htail⟩
    · exact ⟨[], x, xs, cut, rfl, rfl, hfirst⟩
    · obtain ⟨whole, y, beyond, part, rfl, rfl, hpart⟩ := ih htail
      exact ⟨x :: whole, y, beyond, part, rfl, by rw [List.flatMap_cons, List.append_assoc], hpart⟩

/-- **What lies before the cut is read, and what is cut is found short.** -/
theorem readAll_cut {whole beyond : List Datum} {x : Datum} {part : Bytes}
    (h : CutFrom part x.encode) : ∃ results,
      (readAll ((whole ++ x :: beyond).map Datum.kind)
        (start context (whole.flatMap Datum.encode ++ part))).1 =
      whole.map .ok ++ .error (.truncated context x.kind.width part.length) :: results := by
  have hremaining : remaining ⟨context, whole.flatMap Datum.encode ++ part,
      (whole.flatMap Datum.encode).length⟩ = part.length := by
    rw [remaining, List.length_append, Nat.add_sub_cancel_left]
  have hshort := h.length_lt
  rw [x.length_encode] at hshort
  rw [List.map_append, readAll_start, List.map_cons, readAll,
    run_read_of_lt (by rw [hremaining]; exact hshort), hremaining]
  exact ⟨_, rfl⟩

/-! ### Any reads of any bytes -/

/-- The bytes of the reads that succeed. -/
def consumed (results : List (Except Error Datum)) : Bytes :=
  results.flatMap fun result =>
    match result with
    | .ok x => x.encode
    | .error _ => []

theorem consumed_cons (result : Except Error Datum) (results : List (Except Error Datum)) :
    consumed (result :: results) = consumed [result] ++ consumed results := by
  simp only [consumed, List.flatMap_cons, List.flatMap_nil, List.append_nil]

theorem consumed_read (k : Kind) (h : c.InBounds) :
    ((read k).run c).2.bytes = c.bytes ∧ ((read k).run c).2.InBounds ∧
      c.bytes.take c.position ++ consumed [((read k).run c).1] =
        c.bytes.take ((read k).run c).2.position := by
  rw [run_read]
  by_cases hroom : k.width ≤ c.remaining
  · unfold InBounds at h ⊢
    unfold remaining at hroom
    have hlength : ((c.bytes.drop c.position).take k.width).length = k.width := by
      rw [List.length_take, List.length_drop]
      omega
    rw [remaining, if_pos hroom]
    refine ⟨rfl, by dsimp only; omega, ?_⟩
    simp only [consumed, List.flatMap_cons, List.flatMap_nil, List.append_nil]
    rw [Datum.encode_ofBytes hlength, List.take_add]
  · rw [if_neg hroom]
    exact ⟨rfl, h, List.append_nil _⟩

/-- **The reads account for the bytes up to the position**, whatever is read. -/
theorem consumed_readAll (ks : List Kind) (h : c.InBounds) :
    (readAll ks c).2.bytes = c.bytes ∧ (readAll ks c).2.InBounds ∧
      c.bytes.take c.position ++ consumed (readAll ks c).1 =
        c.bytes.take (readAll ks c).2.position := by
  induction ks generalizing c with
  | nil => exact ⟨rfl, h, List.append_nil _⟩
  | cons k ks ih =>
    obtain ⟨hbytes, hbounds, hread⟩ := consumed_read k h
    obtain ⟨hbytes', hbounds', hreads⟩ := ih hbounds
    rw [hbytes] at hbytes' hreads
    refine ⟨hbytes', hbounds', ?_⟩
    rw [← hread, List.append_assoc, ← consumed_cons] at hreads
    exact hreads

/-- **Reading is the inverse of writing, and never takes half of a thing.**  What was written one
after the other to an empty buffer is read back when the same kinds are asked for in the same
order, and nothing is left.  In bytes that are cut off, the things before the cut are read all the
same, and the first that is not whole is found short, by its width and the bytes that are there.
Whatever is read of whatever bytes, a read that fails changes nothing, the position and the bytes
ahead make up the length, and what has been read is spelled by the bytes up to the position.  A
reader in the place of the cursor reads the same. -/
theorem reads_what_was_put (context : String) :
    (∀ xs : List Datum, ∃ buffer : Bytes,
      (xs.forM Datum.put : Writer).run [] = (.ok (), buffer) ∧
      (readAll (xs.map Datum.kind) (start context buffer)).1 = xs.map .ok ∧
      (readAll (xs.map Datum.kind) (start context buffer)).2.isEmpty = true ∧
      ∀ cut, cut <+: buffer → cut ≠ buffer → ∃ whole x beyond part results,
        xs = whole ++ x :: beyond ∧ cut = whole.flatMap Datum.encode ++ part ∧
        part.length < x.kind.width ∧
        (readAll (xs.map Datum.kind) (start context cut)).1 =
          whole.map .ok ++ .error (.truncated context x.kind.width part.length) :: results) ∧
    (∀ (bytes : Bytes) (ks : List Kind),
      let (results, c) := readAll ks (start context bytes)
      c.bytes = bytes ∧ c.position + c.remaining = bytes.length ∧
        consumed results = bytes.take c.position) ∧
    (∀ (c c' : Cursor) (k : Kind) (e : Error), (read k).run c = (.error e, c') →
      c' = c ∧ c.remaining < k.width ∧ e = .truncated c.context k.width c.remaining) ∧
    ∀ (c : Cursor) (k : Kind), c.view.position = c.position ∧
      c.view.remaining = c.remaining ∧ k.readFrom c.view =
        match (read k).run c with
        | (.ok x, c) => .ok (x, c.view)
        | (.error e, _) => .error e := by
  refine ⟨fun xs => ?_, fun bytes ks => ?_, fun c c' k e h => ?_,
    fun c k => ⟨rfl, c.remaining_view, k.readFrom_view c⟩⟩
  · have hwritten := Writer.Writes.forM Datum.writes_put xs []
    have hread := @readAll_start context xs [] []
    rw [List.append_nil, List.append_nil] at hread
    refine ⟨xs.flatMap Datum.encode, hwritten, ?_, ?_, fun cut hfront hne => ?_⟩
    · rw [hread]
      exact List.append_nil _
    · rw [hread]
      exact beq_iff_eq.2 (Nat.sub_self _)
    · obtain ⟨whole, x, beyond, part, rfl, rfl, hpart⟩ := exists_first_cut ⟨hfront, hne⟩
      obtain ⟨results, hresults⟩ := @readAll_cut context whole beyond x part hpart
      exact ⟨whole, x, beyond, part, results, rfl, rfl, x.length_encode ▸ hpart.length_lt, hresults⟩
  · obtain ⟨hbytes, hbounds, hconsumed⟩ :=
      consumed_readAll (c := start context bytes) ks (Nat.zero_le _)
    refine ⟨hbytes, ?_, hconsumed⟩
    rw [remaining, hbytes]
    rw [InBounds, hbytes] at hbounds
    exact Nat.add_sub_cancel' hbounds
  · by_cases hroom : k.width ≤ c.remaining
    · rw [run_read_of_le hroom] at h
      cases h
    · rw [run_read_of_lt (Nat.lt_of_not_le hroom)] at h
      cases h
      exact ⟨rfl, Nat.lt_of_not_le hroom, rfl⟩

/-- A negative number, two bytes and a quiet NaN with a payload, and the same without their last six
bytes. -/
theorem reads_what_was_put_cut :
    let xs : List Datum := [.word .int16 (-2 : Int16), .bytes [9, 8],
      .word .binary64 (⟨0x7ff8000000000005⟩ : Binary64)]
    let cut : Bytes := [255, 254, 9, 8, 127, 248]
    (∃ buffer : Bytes, (xs.forM Datum.put : Writer).run [] = (.ok (), buffer) ∧
      (readAll (xs.map Datum.kind) (start "row" buffer)).1 = xs.map .ok ∧
      cut <+: buffer ∧ cut ≠ buffer ∧ ∃ whole x beyond part results,
        xs = whole ++ x :: beyond ∧ cut = whole.flatMap Datum.encode ++ part ∧
        part.length < x.kind.width ∧
        (readAll (xs.map Datum.kind) (start "row" cut)).1 =
          whole.map .ok ++ .error (.truncated "row" x.kind.width part.length) :: results) ∧
    (read (.word .binary64)).run ⟨"row", cut, 4⟩ =
      (.error (.truncated "row" 8 2), ⟨"row", cut, 4⟩) := by
  intro xs cut
  obtain ⟨hput, -, hfailed, -⟩ := reads_what_was_put "row"
  obtain ⟨buffer, hbuffer, hread, -, hcut⟩ := hput xs
  have hbytes : buffer = [255, 254, 9, 8, 127, 248, 0, 0, 0, 0, 0, 5] :=
    (congrArg Prod.snd hbuffer).symm.trans (by decide)
  have hfront : cut <+: buffer := hbytes ▸ ⟨[0, 0, 0, 0, 0, 5], rfl⟩
  have hne : cut ≠ buffer := hbytes ▸ by decide
  obtain ⟨c', hshort⟩ : ∃ c', (read (.word .binary64)).run ⟨"row", cut, 4⟩ =
      (.error (.truncated "row" 8 2), c') := ⟨_, rfl⟩
  refine ⟨⟨buffer, hbuffer, hread, hfront, hne, hcut cut hfront hne⟩, ?_⟩
  rw [hshort, (hfailed _ _ _ _ hshort).1]

end Cursor

end SqlWire
