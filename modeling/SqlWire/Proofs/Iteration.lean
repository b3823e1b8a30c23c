import Mathlib.Tactic
import SqlWire.Bytes.Sequence

/-!
# Taking items from bytes of any kind

`Yields` is what a decoder gives when it is asked for one item after the other.  A sequence
of items that are only read where they were written keeps account of its bytes
(`Sequence.of_yields`): those of the items that were read, and those that are left.
`Conserves` says so of a decoder, together with how soon it comes to its end, and
`Sequence.conserves_lift` passes it from a sequence to a decoder that holds one.
-/

namespace SqlWire

/-- Asked for one item after the other, a decoder gives some results and is left in a state. -/
inductive Yields {σ ι : Type} (next? : σ → Option (ι × σ)) : σ → List ι → σ → Prop
  | refl (s : σ) : Yields next? s [] s
  | next {s s' t : σ} {result : ι} {results : List ι} (hnext : next? s = some (result, s'))
      (later : Yields next? s' results t) : Yields next? s (result :: results) t

/-- A decoder whose items account for its bytes.  `ahead` are the bytes that it has not read,
`least` is how many an item takes at least, and `declared` the number of items announced. -/
structure Conserves {σ α : Type} (next? : σ → Option (Except Error α × σ)) (ahead : σ → Bytes)
    (encode : α → Bytes) (least declared : Nat) (start : σ) : Prop where
  ends : ∃ results final, Yields next? start results final ∧ next? final = none
  /-- However many items are announced, there are hardly more results than bytes for them. -/
  length_le : ∀ results s, Yields next? start results s →
    results.length ≤ min declared ((ahead start).length / least + 1)
  /-- Items come first, as many as announced, or one failure after fewer of them. -/
  split : ∀ results s, Yields next? start results s → ∃ items : List α,
    ahead start = items.flatMap encode ++ ahead s ∧
      ((results = items.map .ok ∧ (next? s = none → items.length = declared)) ∨
        ∃ e, results = items.map .ok ++ [.error e] ∧ next? s = none)

theorem length_flatMap_ge {α : Type} {encode : α → Bytes} {least : Nat}
    (h : ∀ item, least ≤ (encode item).length) (items : List α) :
    items.length * least ≤ (items.flatMap encode).length := by
  induction items with
  | nil => simp
  | cons item items ih =>
    have hitem := h item
    rw [List.length_cons, List.flatMap_cons, List.length_append, Nat.succ_mul]
    omega

theorem map_ok_ne_concat_error {α : Type} (items others : List α) (e : Error) :
    items.map (Except.ok (ε := Error)) ≠ others.map .ok ++ [.error e] := by
  intro h
  have hmem : Except.error e ∈ items.map (Except.ok (ε := Error)) := by
    rw [h]
    exact List.mem_append_right _ List.mem_cons_self
  obtain ⟨item, -, hitem⟩ := List.mem_map.1 hmem
  cases hitem

namespace Sequence

variable {α : Type} {readItem : Bytes → Except Error (α × Bytes)} {encode : α → Bytes}
  {Fits : α → Prop} {least : Nat} {s t : Sequence} {results : List (Except Error α)}

/-! ### One item -/

theorem next?_eq_none_iff : next? readItem s = none ↔ s.remaining = 0 := by
  obtain ⟨remaining, rest⟩ := s
  cases remaining with
  | zero => exact ⟨fun _ => rfl, fun _ => rfl⟩
  | succ remaining =>
    simp only [next?]
    split <;> simp

theorem of_next?_eq_some {result : Except Error α} (h : next? readItem s = some (result, t)) :
    (∃ item, result = .ok item ∧ readItem s.rest = .ok (item, t.rest) ∧
      s.remaining = t.remaining + 1) ∨
    (∃ e, result = .error e ∧ t.rest = s.rest ∧ t.remaining = 0 ∧ 0 < s.remaining) := by
  obtain ⟨remaining, rest⟩ := s
  cases remaining with
  | zero => cases h
  | succ remaining =>
    simp only [next?] at h
    split at h
    · next item rest' hread =>
      cases h
      exact .inl ⟨item, rfl, hread, rfl⟩
    · next e hread =>
      cases h
      exact .inr ⟨e, rfl, rfl, rfl, Nat.succ_pos remaining⟩

/-! ### Items in a row -/

theorem yields_run (readItem : Bytes → Except Error (α × Bytes)) (remaining : Nat)
    (rest : Bytes) :
    Yields (next? readItem) ⟨remaining, rest⟩ ((run readItem remaining rest).map (·.1))
        (left readItem ⟨remaining, rest⟩) ∧
      (left readItem ⟨remaining, rest⟩).remaining = 0 := by
  induction remaining generalizing rest with
  | zero => exact ⟨.refl _, rfl⟩
  | succ remaining ih =>
    cases hread : readItem rest with
    | error e =>
      have hnext : next? readItem ⟨remaining + 1, rest⟩ = some (.error e, ⟨0, rest⟩) := by
        simp only [next?, hread]
      rw [left_of_next? hnext, run, hread]
      exact ⟨.next hnext (.refl _), rfl⟩
    | ok read =>
      obtain ⟨item, rest'⟩ := read
      have hnext : next? readItem ⟨remaining + 1, rest⟩ = some (.ok item, ⟨remaining, rest'⟩) := by
        simp only [next?, hread]
      rw [left_of_next? hnext, run, hread]
      exact ⟨.next hnext (ih rest').1, (ih rest').2⟩

section

variable (hread : ∀ {bytes rest item}, readItem bytes = .ok (item, rest) →
  Fits item ∧ bytes = encode item ++ rest)

include hread

/-- **The bytes of a sequence are those of the items that were read, and those that are left.** -/
theorem of_yields (h : Yields (next? readItem) s results t) :
    ∃ items : List α, (∀ item ∈ items, Fits item) ∧ s.rest = items.flatMap encode ++ t.rest ∧
      ((results = items.map .ok ∧ s.remaining = items.length + t.remaining) ∨
        ∃ e, results = items.map .ok ++ [.error e] ∧ t.remaining = 0 ∧
          items.length < s.remaining) := by
  induction h with
  | refl s => exact ⟨[], nofun, rfl, .inl ⟨rfl, (Nat.zero_add _).symm⟩⟩
  | @next s s' t result results hnext _ ih =>
    obtain ⟨items, hfits, hrest, hcases⟩ := ih
    rcases of_next?_eq_some hnext with ⟨item, rfl, hitem, hcount⟩ | ⟨e, rfl, hsame, hzero, hpos⟩
    · obtain ⟨hitemFits, hbytes⟩ := hread hitem
      refine ⟨item :: items, List.forall_mem_cons.2 ⟨hitemFits, hfits⟩, ?_, ?_⟩
      · rw [hbytes, hrest, List.flatMap_cons, List.append_assoc]
      · rw [List.length_cons, hcount]
        rcases hcases with ⟨rfl, hleft⟩ | ⟨e, rfl, hleft, hlt⟩
        · exact .inl ⟨rfl, by omega⟩
        · exact .inr ⟨e, rfl, hleft, by omega⟩
    · -- a sequence that has failed gives nothing more
      rcases hcases with ⟨rfl, hleft⟩ | ⟨e', -, -, hlt⟩
      · have hnone : items = [] := List.length_eq_zero_iff.1 (by omega)
        subst hnone
        rw [hsame] at hrest
        exact ⟨[], nofun, hrest, .inr ⟨e, rfl, by omega, hpos⟩⟩
      · omega

/-- If all that was announced has been read, so many items account for the bytes. -/
theorem of_yields_all {items : List α} (h : Yields (next? readItem) s (items.map .ok) t)
    (hdone : t.remaining = 0) :
    (∀ item ∈ items, Fits item) ∧ s.rest = items.flatMap encode ++ t.rest ∧
      items.length = s.remaining := by
  obtain ⟨others, hfits, hrest, ⟨hsame, hcount⟩ | ⟨e, herror, -⟩⟩ := of_yields hread h
  · have heq : items = others := List.map_injective_iff.2 (fun _ _ => Except.ok.inj) hsame
    subst heq
    exact ⟨hfits, hrest, by omega⟩
  · exact absurd herror (map_ok_ne_concat_error items others e)

theorem length_le_of_yields (hpos : 0 < least) (hleast : ∀ item, least ≤ (encode item).length)
    (h : Yields (next? readItem) s results t) :
    results.length ≤ min s.remaining (s.rest.length / least + 1) := by
  obtain ⟨items, -, hrest, hcases⟩ := of_yields hread h
  have hbytes := length_flatMap_ge hleast items
  have hroom : items.length ≤ s.rest.length / least := by
    rw [Nat.le_div_iff_mul_le hpos, hrest, List.length_append]
    omega
  rcases hcases with ⟨rfl, hcount⟩ | ⟨e, rfl, -, hlt⟩
  · rw [List.length_map]
    omega
  · rw [List.length_append, List.length_map, List.length_singleton]
    omega

end

/-! ### Decoders that hold a sequence -/

variable {σ : Type} {hold : Sequence → σ} {step? : σ → Option (Except Error α × σ)}

section

variable (hstep : ∀ s, step? (hold s) = (next? readItem s).map fun (result, s) => (result, hold s))

include hstep

theorem yields_hold (h : Yields (next? readItem) s results t) :
    Yields step? (hold s) results (hold t) := by
  induction h with
  | refl s => exact .refl _
  | @next s s' t result results hnext _ ih =>
    refine .next ?_ ih
    rw [hstep, hnext]
    rfl

theorem exists_of_yields_hold {final : σ} (h : Yields step? (hold s) results final) :
    ∃ t, final = hold t ∧ Yields (next? readItem) s results t := by
  generalize hs : hold s = held at h
  induction h generalizing s with
  | refl held => exact ⟨s, hs.symm, .refl s⟩
  | @next held held' t result results hnext _ ih =>
    rw [← hs, hstep] at hnext
    obtain ⟨⟨result', s'⟩, hseq, heq⟩ := Option.map_eq_some_iff.1 hnext
    cases heq
    obtain ⟨t, rfl, hlater⟩ := ih rfl
    exact ⟨t, rfl, .next hseq hlater⟩

theorem hold_eq_none_iff : step? (hold s) = none ↔ s.remaining = 0 := by
  rw [hstep, Option.map_eq_none_iff, next?_eq_none_iff]

/-- **A decoder of items that are only read where they were written conserves its bytes.** -/
theorem conserves_lift {ahead : σ → Bytes} (hahead : ∀ s, ahead (hold s) = s.rest)
    (hread : ∀ {bytes rest item}, readItem bytes = .ok (item, rest) →
      Fits item ∧ bytes = encode item ++ rest)
    (hpos : 0 < least) (hleast : ∀ item, least ≤ (encode item).length) (s : Sequence) :
    Conserves step? ahead encode least s.remaining (hold s) where
  ends := by
    obtain ⟨hyields, hzero⟩ := yields_run readItem s.remaining s.rest
    exact ⟨_, _, yields_hold hstep hyields, (hold_eq_none_iff hstep).2 hzero⟩
  length_le := by
    intro results final h
    obtain ⟨t, -, hyields⟩ := exists_of_yields_hold hstep h
    rw [hahead]
    exact length_le_of_yields hread hpos hleast hyields
  split := by
    intro results final h
    obtain ⟨t, rfl, hyields⟩ := exists_of_yields_hold hstep h
    obtain ⟨items, -, hrest, hcases⟩ := of_yields hread hyields
    rw [hahead, hahead, hold_eq_none_iff hstep]
    refine ⟨items, hrest, ?_⟩
    rcases hcases with ⟨hok, hcount⟩ | ⟨e, herror, hzero, -⟩
    · exact .inl ⟨hok, fun hzero => by omega⟩
    · exact .inr ⟨e, herror, hzero⟩

end

end Sequence

end SqlWire
