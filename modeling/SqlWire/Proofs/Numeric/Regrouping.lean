import SqlWire.Proofs.Numeric.BufferedReading
import SqlWire.Proofs.Numeric.SafeCuts

/-!
# Making groups of the digits in a buffer

A machine makes each group of four digits that it has in its buffer.  The first group takes in no
more than three of the zeros in front of the digits, and the zeros behind them give the last group
four digits too (`frame_within`).  So every slice is there, and the groups are the ones that
`Literal.gather` makes (`groupsFrom?_buffered`).

With what is known of the reading this is the whole way from a text: `Numeric.parsePrefix?_eq` and
`Numeric.parse?_eq` say that within reach of its words the machine reads what `Numeric.parsePrefix`
and `Numeric.parse` read.
-/

namespace SqlWire

namespace Literal

open FixedWidth

/-! ### Where the groups lie -/

/-- Only numbers that are not negative are divided, and what comes out is rounded down. -/
theorem groupPower?_eq {power : Int} (hlow : -2147483647 ≤ power) (hhigh : power ≤ 2147483643) :
    groupPower? int32? power = some (power / 4) := by
  unfold groupPower?
  by_cases hsign : 0 ≤ power
  · rw [if_pos hsign, int32?_bind (by omega), Int.tdiv_eq_ediv_of_nonneg (by omega),
      int32?_eq (by omega)]
    congr 1
    omega
  · rw [if_neg hsign, int32?_bind (by omega), int32?_bind (by omega),
      Int.tdiv_eq_ediv_of_nonneg (by omega), int32?_bind (by omega), int32?_eq (by omega)]
    congr 1
    omega

/-- Where the groups of a literal lie in its buffer. -/
def frame (l : Literal) : Frame :=
  ⟨l.weight, l.lead, (l.lead + l.digits.length + 3) / 4, 4 - l.lead⟩

variable {l : Literal}

theorem frame?_eq (hreach : l.digits.length + l.exponent.natAbs ≤ 2147483640) :
    frame? l.leadingPower l.digits.length = some l.frame := by
  have hpower : l.leadingPower = (l.whole.length : Int) - 1 + l.exponent := rfl
  have hweight : l.weight = l.leadingPower / 4 := rfl
  have hwhole : l.whole.length ≤ l.digits.length := by simp [digits]
  have hlead := lead_eq l
  have hle := lead_le l
  have hcount : (l.digits.length + l.lead + 4 - 1 : Int).tdiv 4 =
      ((l.lead + l.digits.length + 3) / 4 : Nat) := by
    rw [Int.tdiv_eq_ediv_of_nonneg (by omega)]
    omega
  have hstart : (4 - l.lead : Int) = (4 - l.lead : Nat) := by omega
  rw [frame?, frameWith?, groupPower?_eq (by omega) (by omega), Option.bind_eq_bind,
    Option.bind_some, ← Option.bind_eq_bind, ← hweight, int32?_bind (by omega),
    int32?_bind (by omega), int32?_bind (by omega), ← hlead, int32?_bind (by omega),
    int32?_bind (by omega), int32?_bind (by omega), int32?_bind (by omega), hcount,
    index?_bind (by rw [maxIndex]; omega), hstart, int32?_bind (by omega),
    index?_bind (by rw [maxIndex]; omega)]
  rfl

/-! ### What a group is made of -/

/-- The four digits from an index on. -/
def fourFrom (buffer : List Nat) (start : Nat) : List Nat := (buffer.drop start).take 4

theorem slice?_eq {buffer : List Nat} {start : Nat} (h : start + 4 ≤ buffer.length) :
    slice? buffer start (start + 4) = some (fourFrom buffer start) := by
  rw [slice?, if_pos ⟨by omega, h⟩, Nat.add_sub_cancel_left, fourFrom]

theorem of_slice? {buffer digits : List Nat} {start : Nat}
    (h : slice? buffer start (start + 4) = some digits) : digits = fourFrom buffer start := by
  unfold slice? at h
  split_ifs at h
  cases h
  rw [fourFrom, Nat.add_sub_cancel_left]

theorem fourFrom_lt {buffer : List Nat} (h : ∀ d ∈ buffer, d < 10) (start : Nat) :
    ∀ d ∈ fourFrom buffer start, d < 10 :=
  fun d hd => h d (List.mem_of_mem_drop (List.mem_of_mem_take hd))

theorem foldGroup?_concat (digits : List Nat) (d : Nat) :
    foldGroup? (digits ++ [d]) = (foldGroup? digits >>= fun acc =>
      word16? (acc * 10 : Nat) >>= fun acc => word16? (acc + d : Nat)) := by
  simp only [foldGroup?, List.foldlM_append, List.foldlM_cons, List.foldlM_nil, bind_pure]

theorem foldGroup?_eq {digits : List Nat} (h : ∀ d ∈ digits, d < 10) (hlength : digits.length ≤ 4) :
    foldGroup? digits = some (magnitude digits) := by
  induction digits using List.reverseRecOn with
  | nil => rfl
  | append_singleton digits d ih =>
    rw [List.length_append, List.length_singleton] at hlength
    have hdigits : ∀ x ∈ digits, x < 10 := fun x hx => h x (List.mem_append_left _ hx)
    have hd : d < 10 := h d (by simp)
    have hlt : magnitude digits < 1000 :=
      (magnitude_lt hdigits).trans_le (Nat.pow_le_pow_right (by decide) (by omega : _ ≤ 3))
    rw [foldGroup?_concat, ih hdigits (by omega), Option.bind_eq_bind, Option.bind_some,
      word16?_natCast (by omega), Option.bind_some, word16?_natCast (by omega), magnitude_concat]

/-- **Every slice is within the buffer** when the last of them is, and its group is the number that
its digits spell. -/
theorem groupsFrom?_eq {buffer : List Nat} (h : ∀ d ∈ buffer, d < 10)
    (hindex : buffer.length ≤ maxIndex) {n start : Nat}
    (hwithin : start + 4 * n ≤ buffer.length) :
    groupsFrom? buffer n start =
      some ((List.range n).map fun k => magnitude (fourFrom buffer (start + 4 * k))) := by
  induction n generalizing start with
  | zero => rfl
  | succ n ih =>
    have hrest : (fun k => magnitude (fourFrom buffer (start + 4 + 4 * k))) =
        (fun k => magnitude (fourFrom buffer (start + 4 * k))) ∘ Nat.succ := by
      funext k
      simp only [Function.comp_apply, Nat.succ_eq_add_one]
      congr 2
      omega
    rw [groupsFrom?, index?_bind (by omega), slice?_eq (by omega), Option.bind_eq_bind,
      Option.bind_some, foldGroup?_eq (fourFrom_lt h start) (List.length_take_le _ _),
      Option.bind_eq_bind,
      Option.bind_some, ih (by omega), Option.bind_some, hrest, List.range_succ_eq_map,
      List.map_cons, List.map_map]
    rfl

/-! ### The slices are what is gathered -/

theorem gather_eq_slices {ds : List Nat} {n : Nat} (h : ds.length = 4 * n) :
    gather ds = (List.range n).map fun k => magnitude (fourFrom ds (4 * k)) := by
  induction n generalizing ds with
  | zero =>
    rw [List.eq_nil_of_length_eq_zero h]
    rfl
  | succ n ih =>
    obtain ⟨a, b, c, d, rest, rfl⟩ : ∃ a b c d rest, ds = a :: b :: c :: d :: rest := by
      match ds, h with
      | a :: b :: c :: d :: rest, _ => exact ⟨a, b, c, d, rest, rfl⟩
    have hrest : rest.length = 4 * n := by
      simp only [List.length_cons] at h
      omega
    have hfirst : magnitude (fourFrom (a :: b :: c :: d :: rest) (4 * 0)) =
        ((a * 10 + b) * 10 + c) * 10 + d := by
      simp [fourFrom, magnitude]
    rw [gather, ih hrest, List.range_succ_eq_map, List.map_cons, List.map_map, hfirst]
    rfl

theorem gather_append_zeros {ds : List Nat} {n : Nat} (h : n ≤ 3) (hfull : 4 ∣ ds.length + n) :
    gather (ds ++ List.replicate n 0) = gather ds := by
  fun_induction gather ds with
  | case1 a b c d rest ih =>
    have hrest : 4 ∣ rest.length + n := by
      simp only [List.length_cons] at hfull
      omega
    simp only [List.cons_append, gather, ih hrest]
  | case2 a b c =>
    obtain rfl : n = 1 := by simp only [List.length_cons, List.length_nil] at hfull; omega
    rfl
  | case3 a b =>
    obtain rfl : n = 2 := by simp only [List.length_cons, List.length_nil] at hfull; omega
    exact congrArg (· :: []) (by omega : ((a * 10 + b) * 10 + 0) * 10 + 0 = (a * 10 + b) * 100)
  | case4 a =>
    obtain rfl : n = 3 := by simp only [List.length_cons, List.length_nil] at hfull; omega
    exact congrArg (· :: []) (by omega : ((a * 10 + 0) * 10 + 0) * 10 + 0 = a * 1000)
  | case5 =>
    obtain rfl : n = 0 := by simp only [List.length_nil] at hfull; omega
    rfl

theorem slices_eq_gather {buffer : List Nat} {n start : Nat}
    (h : start + 4 * n ≤ buffer.length) :
    ((List.range n).map fun k => magnitude (fourFrom buffer (start + 4 * k))) =
      gather ((buffer.drop start).take (4 * n)) := by
  have hlength : ((buffer.drop start).take (4 * n)).length = 4 * n := by
    rw [List.length_take, List.length_drop]
    omega
  rw [gather_eq_slices hlength]
  refine List.map_congr_left fun k hk => congrArg magnitude ?_
  have hfour : min 4 (4 * n - 4 * k) = 4 := by
    rw [List.mem_range] at hk
    omega
  rw [fourFrom, fourFrom, List.drop_take, List.drop_drop, List.take_take, hfour]

/-- The last group ends with the last zero of the buffer, or before it. -/
theorem frame_within (l : Literal) :
    l.frame.start + 4 * l.frame.count ≤ l.buffered.buffer.length := by
  have hle := lead_le l
  simp only [frame, buffered, List.length_append, List.length_replicate]
  omega

/-- The groups take up the digits with zeros in front of them, and with zeros behind them that fill
up the last group. -/
theorem taken_eq (l : Literal) : ∃ n ≤ 3, 4 ∣ (List.replicate l.lead 0 ++ l.digits).length + n ∧
    (l.buffered.buffer.drop l.frame.start).take (4 * l.frame.count) =
      List.replicate l.lead 0 ++ l.digits ++ List.replicate n 0 := by
  have hle := lead_le l
  have hfront : l.buffered.buffer.drop l.frame.start =
      List.replicate l.lead 0 ++ l.digits ++ List.replicate 3 0 := by
    simp only [buffered, frame, List.append_assoc]
    rw [List.drop_append_of_le_length (by simp), List.drop_replicate]
    congr 2
    omega
  have hlength : (List.replicate l.lead 0 ++ l.digits).length = l.lead + l.digits.length := by
    rw [List.length_append, List.length_replicate]
  -- the last group goes on behind the digits for as long as it takes to have four of them
  refine ⟨4 * l.frame.count - (l.lead + l.digits.length), ?_, ?_, ?_⟩
  · simp only [frame]
    omega
  · rw [hlength]
    simp only [frame]
    omega
  · rw [hfront, List.take_append, List.take_of_length_le, List.take_replicate, hlength]
    · congr 2
      simp only [frame]
      omega
    · rw [hlength]
      simp only [frame]
      omega

theorem buffer_lt (h : ∀ d ∈ l.digits, d < 10) : ∀ d ∈ l.buffered.buffer, d < 10 := by
  intro d hd
  simp only [buffered, List.mem_append, List.mem_replicate] at hd
  rcases hd with (⟨-, rfl⟩ | hd) | ⟨-, rfl⟩
  · decide
  · exact h d hd
  · decide

theorem slices_buffered (l : Literal) :
    ((List.range l.frame.count).map fun k =>
      magnitude (fourFrom l.buffered.buffer (l.frame.start + 4 * k))) =
      gather (List.replicate l.lead 0 ++ l.digits) := by
  obtain ⟨n, hle, hfull, htaken⟩ := taken_eq l
  rw [slices_eq_gather (frame_within l), htaken, gather_append_zeros hle hfull]

theorem gathered_lt (h : ∀ d ∈ l.digits, d < 10) :
    ∀ g ∈ gather (List.replicate l.lead 0 ++ l.digits), g < 10000 := by
  refine gather_lt fun d hd => ?_
  rcases List.mem_append.1 hd with hd | hd
  · rw [List.eq_of_mem_replicate hd]
    decide
  · exact h d hd

/-- **The machine makes the groups that are gathered.** -/
theorem groupsFrom?_buffered (h : ∀ d ∈ l.digits, d < 10)
    (hlength : l.digits.length ≤ 2147483640) :
    groupsFrom? l.buffered.buffer l.frame.count l.frame.start =
      some (gather (List.replicate l.lead 0 ++ l.digits)) := by
  have hindex : l.buffered.buffer.length ≤ maxIndex := by
    simp only [buffered, List.length_append, List.length_replicate, maxIndex]
    omega
  rw [groupsFrom?_eq (buffer_lt h) hindex (frame_within l), slices_buffered]

/-! ### The decimal -/

theorem within_gathered (h : ∀ d ∈ l.digits, d < 10)
    (hreach : l.digits.length + l.exponent.natAbs ≤ 2147483640) :
    Decimal.Within 600000000 600000000
      ⟨l.negative, l.weight, l.scale, gather (List.replicate l.lead 0 ++ l.digits)⟩ := by
  have hpower : l.leadingPower = (l.whole.length : Int) - 1 + l.exponent := rfl
  have hweight : l.weight = l.leadingPower / 4 := rfl
  have hwhole : l.whole.length ≤ l.digits.length := by simp [digits]
  have hle := lead_le l
  refine ⟨?_, ?_, ?_, gathered_lt h⟩
  · dsimp only
    omega
  · dsimp only
    omega
  · dsimp only
    rw [length_gather, List.length_append, List.length_replicate]
    omega

theorem group?_eq (h : ∀ d ∈ l.digits, d < 10)
    (hreach : l.digits.length + l.exponent.natAbs ≤ 2147483640) :
    l.buffered.group? int32? =
      some ⟨l.negative, l.weight, l.scale, gather (List.replicate l.lead 0 ++ l.digits)⟩ := by
  have hframe : frameWith? int32? l.buffered.power l.buffered.count = some l.frame :=
    frame?_eq hreach
  rw [Buffered.group?, hframe, Option.bind_eq_bind, Option.bind_some,
    groupsFrom?_buffered h (by omega)]
  rfl

/-- **The machine makes the decimal of the literal.** -/
theorem toDecimal?_eq (h : ∀ d ∈ l.digits, d < 10)
    (hreach : l.digits.length + l.exponent.natAbs ≤ 2147483640) :
    l.buffered.toDecimal? = some l.toDecimal := by
  rw [Buffered.toDecimal?, group?_eq h hreach, Option.bind_eq_bind, Option.bind_some]
  exact Decimal.strip?_eq (within_gathered h hreach) (by decide)

/-! ### Buffers of any kind -/

/-- Digits that are few enough come to less than 10000, if they are summed up at all. -/
theorem foldGroup?_lt {digits : List Nat} {g : Nat} (h : ∀ d ∈ digits, d < 10)
    (hlength : digits.length ≤ 4) (hg : foldGroup? digits = some g) : g < 10000 := by
  rw [foldGroup?_eq h hlength] at hg
  cases hg
  exact (magnitude_lt h).trans_le (Nat.pow_le_pow_right (by decide) hlength)

theorem groupsFrom?_lt {buffer : List Nat} (h : ∀ d ∈ buffer, d < 10) {n start : Nat}
    {groups : List Nat} (hgroups : groupsFrom? buffer n start = some groups) :
    ∀ g ∈ groups, g < 10000 := by
  induction n generalizing start groups with
  | zero =>
    cases hgroups
    exact nofun
  | succ n ih =>
    rw [groupsFrom?] at hgroups
    obtain ⟨stop, hstop, hgroups⟩ := Option.bind_eq_some_iff.1 hgroups
    obtain ⟨digits, hslice, hgroups⟩ := Option.bind_eq_some_iff.1 hgroups
    obtain ⟨g, hfold, hgroups⟩ := Option.bind_eq_some_iff.1 hgroups
    obtain ⟨rest, hrest, hgroups⟩ := Option.bind_eq_some_iff.1 hgroups
    cases hgroups
    obtain rfl := of_index?_natCast hstop
    obtain rfl := of_slice? hslice
    exact List.forall_mem_cons.2
      ⟨foldGroup?_lt (fourFrom_lt h start) (List.length_take_le _ _) hfold, ih hrest⟩

/-- **What the machine makes of digits is canonical**, if it comes to a decimal at all. -/
theorem toDecimal?_canonical {b : Buffered} {d : Decimal} (h : ∀ x ∈ b.buffer, x < 10)
    (hd : b.toDecimal? = some d) : d.Canonical := by
  obtain ⟨grouped, hgrouped, hd⟩ := Option.bind_eq_some_iff.1 hd
  obtain ⟨frame, -, hgrouped⟩ := Option.bind_eq_some_iff.1 hgrouped
  obtain ⟨groups, hgroups, hgrouped⟩ := Option.bind_eq_some_iff.1 hgrouped
  cases hgrouped
  rw [Decimal.of_strip? hd]
  exact Decimal.strip_canonical (groupsFrom?_lt h hgroups)

/-- Five of ten ones are told of, and so there are two groups. -/
theorem group?_wrapped (n : Nat) (scale : Int) (h : n ≤ 2 ^ 33) :
    Buffered.group? wrapped32? ⟨false, List.replicate 4 0 ++ List.replicate 10 1 ++
        List.replicate n 0 ++ List.replicate 3 0, 5, 9, scale⟩ =
      some ⟨false, 2, scale, [11, 1111]⟩ := by
  have hframe : frameWith? wrapped32? 9 5 = some ⟨2, 2, 2, 2⟩ := rfl
  have hlength : (List.replicate 4 0 ++ List.replicate 10 1 ++ List.replicate n 0 ++
      List.replicate 3 0).length = 17 + n := by
    simp only [List.length_append, List.length_replicate]
    omega
  have hdigits : ∀ d ∈ List.replicate 4 0 ++ List.replicate 10 1 ++ List.replicate n 0 ++
      List.replicate 3 0, d < 10 := by
    intro d hd
    simp only [List.mem_append, List.mem_replicate] at hd
    omega
  have hgroups := groupsFrom?_eq hdigits (by rw [hlength, maxIndex]; omega)
    (show 2 + 4 * 2 ≤ _ by rw [hlength]; omega)
  rw [Buffered.group?, hframe, Option.bind_eq_bind, Option.bind_some, hgroups]
  rfl

/-! ### Each digit goes into one group -/

/-- How groups are made of the digits of a literal in its buffer. -/
structure Regrouped (l : Literal) (b : Buffered) (f : Frame) (groups : List Nat) : Prop where
  /-- The digits lie between four zeros and three. -/
  buffer_eq : b.buffer = List.replicate 4 0 ++ l.digits ++ List.replicate 3 0
  /-- The first group has no more than three zeros in front of the digits. -/
  offset_le : 0 ≤ f.offset ∧ f.offset ≤ 3
  start_eq : (f.start : Int) = 4 - f.offset
  /-- Every group ends within the buffer. -/
  within : ∀ k < f.count, f.start + 4 * k + 4 ≤ b.buffer.length
  /-- It is the number that the four digits there spell. -/
  groups_eq : groups = (List.range f.count).map fun k =>
    magnitude (fourFrom b.buffer (f.start + 4 * k))
  group_lt : ∀ g ∈ groups, g < 10000
  /-- The digit at index `i`, which lies behind the four zeros, is one of the four digits of one
  group and of no other. -/
  covered : ∀ i < l.digits.length, ∃! k, k < f.count ∧
    f.start + 4 * k ≤ 4 + i ∧ 4 + i < f.start + 4 * k + 4

/-- The groups lie side by side, and reach from the first digit to the last. -/
theorem existsUnique_group {i : Nat} (h : i < l.digits.length) :
    ∃! k, k < l.frame.count ∧ l.frame.start + 4 * k ≤ 4 + i ∧
      4 + i < l.frame.start + 4 * k + 4 := by
  have hle := lead_le l
  simp only [frame]
  -- the zeros in front count as digits of the first group
  refine ⟨(l.lead + i) / 4, by omega, ?_⟩
  rintro k ⟨-, hfrom, hto⟩
  omega

/-- **What is gathered is made of the buffer**, each digit of it once. -/
theorem regrouped_gather (h : ∀ d ∈ l.digits, d < 10) :
    l.Regrouped l.buffered l.frame (gather (List.replicate l.lead 0 ++ l.digits)) where
  buffer_eq := rfl
  offset_le := by
    have hle := lead_le l
    simp only [frame]
    omega
  start_eq := by
    have hle := lead_le l
    simp only [frame]
    omega
  within k hk := by
    have hwithin := frame_within l
    omega
  groups_eq := (slices_buffered l).symm
  group_lt := gathered_lt h
  covered _ hi := existsUnique_group hi

end Literal

/-! ### Whole texts -/

namespace Numeric

theorem length_le_utf8ByteSize (text : String) : text.length ≤ text.utf8ByteSize := by
  refine String.push_induction text (fun s => s.length ≤ s.utf8ByteSize) (le_refl 0) ?_
  intro s c ih
  have hc := c.utf8Size_pos
  rw [String.length_push, String.utf8ByteSize_push]
  omega

theorem reaches_of_utf8ByteSize {text : String} (h : text.utf8ByteSize < 2 ^ 30) :
    Literal.Reaches 2147483640 text.toList := by
  refine Literal.reaches_of_length_le ?_
  rw [String.length_toList]
  exact (length_le_utf8ByteSize text).trans h.le

/-- **The machine reads numerics** within reach of its words, whatever text there is. -/
theorem parsePrefix?_eq {text : String} (h : Literal.Reaches 2147483640 text.toList) :
    parsePrefix? text = some (parsePrefix text) := by
  unfold parsePrefix? parsePrefix scan?
  by_cases hnan : (text.toList.take 3).map Char.toLower = ['n', 'a', 'n']
  · have hthree := congrArg List.length hnan
    rw [List.length_map, List.length_take, String.length_toList] at hthree
    rw [if_pos hnan, if_pos hnan]
    dsimp only
    rw [List.length_drop, String.length_toList]
    congr 3
    simp only [List.length_cons, List.length_nil] at hthree
    omega
  · rw [if_neg hnan, if_neg hnan, Literal.read?_eq (h.mono (by decide)), Option.bind_eq_bind,
      Option.bind_some]
    cases hscan : Literal.scan? text.toList with
    | none => rfl
    | some t =>
      obtain ⟨l, rest⟩ := t
      obtain ⟨-, hlength, -⟩ := Literal.digits_of_scan? hscan
      have hreach := h.shifted_le l rest hscan
      have hdecimal := Literal.toDecimal?_eq (Literal.scan?_digits_lt hscan) (by omega)
      simp only [Option.map_some, hdecimal, Option.bind_eq_bind, Option.bind_some]
      rfl

theorem length_le_of_scan? {s rest : List Char} {n : Numeric} (h : scan? s = some (n, rest)) :
    rest.length ≤ s.length := by
  unfold scan? at h
  split at h
  · cases h
    rw [List.length_drop]
    exact Nat.sub_le _ _
  · obtain ⟨⟨l, rest'⟩, hscan, heq⟩ := Option.map_eq_some_iff.1 h
    cases heq
    obtain ⟨t, -, rfl⟩ := Literal.scan?_sound hscan
    rw [List.length_append]
    exact Nat.le_add_left _ _

theorem parse_eq_bind (text : String) : parse text =
    (parsePrefix text >>= fun (n, count) =>
      if count = text.length then .ok n else .error (.invalidSyntax "numeric" text)) := by
  unfold parse parsePrefix
  cases hscan : scan? text.toList with
  | none => rfl
  | some t =>
    obtain ⟨n, rest⟩ := t
    have hle := length_le_of_scan? hscan
    rw [String.length_toList] at hle
    show _ = if text.length - rest.length = text.length then _ else _
    cases rest with
    | nil => rw [List.length_nil, Nat.sub_zero, if_pos rfl]
    | cons c rest =>
      rw [List.length_cons] at hle ⊢
      rw [if_neg (by omega)]

theorem parse?_eq {text : String} (h : Literal.Reaches 2147483640 text.toList) :
    parse? text = some (parse text) := by
  rw [parse?, parsePrefix?_eq h, Option.bind_eq_bind, Option.bind_some, parse_eq_bind]
  rcases parsePrefix text with e | ⟨n, count⟩
  · rfl
  · show _ = some (if count = text.length then _ else _)
    dsimp only
    split <;> rfl

/-- **Making groups stays within the buffer.**  A text of less than 2^30 bytes is read without a
result going beyond its word or a slice going beyond the buffer.  When there is a literal to make
groups of, it has digits, and an exponent of at most 1000; no more than three zeros come in front of
the digits, every group is made of four digits that the buffer has and is below 10000, and every
digit of the literal goes into one group. -/
theorem regrouping_within_buffer (text : String) (hsize : text.utf8ByteSize < 2 ^ 30) :
    parsePrefix? text = some (parsePrefix text) ∧
    ∀ b rest, Literal.read? text.toList = some (some (b, rest)) → ∃ l f groups,
      Literal.scan? text.toList = some (l, rest) ∧ l.digits ≠ [] ∧ |l.exponent| ≤ 1000 ∧
      Literal.frame? b.power b.count = some f ∧
      Literal.groupsFrom? b.buffer f.count f.start = some groups ∧
      l.Regrouped b f groups := by
  have hreach := reaches_of_utf8ByteSize hsize
  refine ⟨parsePrefix?_eq hreach, fun b rest hread => ?_⟩
  rw [Literal.read?_eq (hreach.mono (by decide)), Option.some.injEq] at hread
  obtain ⟨⟨l, rest'⟩, hscan, hbuffered⟩ := Option.map_eq_some_iff.1 hread
  cases hbuffered
  obtain ⟨hpos, hle, hexponent⟩ := Literal.digits_of_scan? hscan
  have hlt := Literal.scan?_digits_lt hscan
  have hshifted := hreach.shifted_le l rest hscan
  exact ⟨l, l.frame, _, hscan, List.ne_nil_of_length_pos hpos, hexponent,
    Literal.frame?_eq (by omega), Literal.groupsFrom?_buffered hlt (by omega),
    Literal.regrouped_gather hlt⟩

/-- The two digits of 1.5e-4 make two groups, the second of which ends with the last zero of the
buffer. -/
theorem regrouping_within_buffer_last_zero :
    let l : Literal := ⟨false, [1], [5], -4⟩
    let b : Literal.Buffered := ⟨false, [0, 0, 0, 0, 1, 5, 0, 0, 0], 2, -4, 5⟩
    "1.5e-4 m".utf8ByteSize < 2 ^ 30 ∧
    parsePrefix? "1.5e-4 m" = some (.ok (finite ⟨false, -1, 5, [1, 5000]⟩, 6)) ∧
    Literal.read? "1.5e-4 m".toList = some (some (b, [' ', 'm'])) ∧
    l.Regrouped b ⟨-1, 3, 2, 1⟩ [1, 5000] := by
  intro l b
  have hsize : "1.5e-4 m".utf8ByteSize < 2 ^ 30 := by decide
  have hread : Literal.read? "1.5e-4 m".toList = some (some (b, [' ', 'm'])) := by decide
  have hscan : Literal.scan? "1.5e-4 m".toList = some (l, [' ', 'm']) := by decide
  have hframe : Literal.frame? b.power b.count = some ⟨-1, 3, 2, 1⟩ := by decide
  have hfrom : Literal.groupsFrom? b.buffer 2 1 = some [1, 5000] := by decide
  obtain ⟨hparse, hgroups⟩ := regrouping_within_buffer "1.5e-4 m" hsize
  obtain ⟨l', f, groups, hscan', -, -, hframe', hfrom', hregrouped⟩ := hgroups b [' ', 'm'] hread
  obtain rfl : l' = l := by
    rw [hscan, Option.some.injEq, Prod.mk.injEq] at hscan'
    exact hscan'.1.symm
  obtain rfl : ⟨-1, 3, 2, 1⟩ = f := Option.some.inj (hframe.symm.trans hframe')
  obtain rfl : [1, 5000] = groups := Option.some.inj (hfrom.symm.trans hfrom')
  refine ⟨hsize, hparse.trans ?_, hread, hregrouped⟩
  decide

end Numeric

end SqlWire
