import SqlWire.Proofs.Copy.Resets

/-!
# What a refusal leaves behind

A sink can refuse a chunk while a field is put, the last chunk, or word that the stream is
complete.  Every refusal closes the frame (`OpenAt.phase_of_failsOn`), and a closed
frame answers every later call alike.  After a refused chunk that answer is the refusal.
After refused word it is not: the frame counts as finished then, and the refusal is told
once (`refusal_lasts_except_of_close`).
-/

namespace SqlWire

namespace CopyFrame

variable {f : CopyFrame} {n : Nat} {c : Call} {d : Delivery} {e : Error}

/-- The sink refuses a delivery during a call, and the call is answered with that. -/
def FailsOn (f : CopyFrame) (c : Call) (d : Delivery) (e : Error) : Prop :=
  (f.call c).1 = .error e ∧ ∃ before,
    f.sink.offered <+: before ∧
    (f.call c).2.sink.offered = before ++ [d] ∧
    f.sink.refusal before d = some e

/-- The phase of a frame after the sink has refused a delivery. -/
def phaseOfRefused : Delivery → Error → FramePhase
  | .chunk _, e => .failed e
  | .close, _ => .finished

theorem FailsOn.call_ne (h : f.FailsOn c d e) : (f.call c).2 ≠ f := by
  intro heq
  obtain ⟨-, before, hbefore, hoffered, -⟩ := h
  have hle := hbefore.length_le
  rw [heq] at hoffered
  rw [hoffered, List.length_append, List.length_singleton] at hle
  omega

/-- **A refusal closes the frame**, in the way that goes with what was refused. -/
theorem OpenAt.phase_of_failsOn (h : f.OpenAt n) (hfails : f.FailsOn c d e) :
    (f.call c).2.phase = phaseOfRefused d e := by
  have hchanged := hfails.call_ne
  obtain ⟨hanswer, before, -, hoffered, -⟩ := hfails
  cases c with
  | put field =>
    rw [CopyFrame.call] at hanswer hoffered hchanged ⊢
    rcases h.put field with ⟨-, hput⟩ | ⟨-, g, hput, -⟩ | ⟨e', g, hput, hbroke⟩
    · rw [hput] at hchanged
      exact absurd rfl hchanged
    · rw [hput] at hanswer
      cases hanswer
    · obtain ⟨_, chunk, hlast, -⟩ := hbroke.refused
      rw [hput] at hanswer hoffered ⊢
      cases hanswer
      have hd := List.append_inj_right' (hoffered.symm.trans hlast) rfl
      cases hd
      exact hbroke.phase_eq
  | reset columns =>
    rw [CopyFrame.call] at hanswer hchanged
    rcases h.reset columns with ⟨-, hreset⟩ | ⟨-, g, hreset, -⟩
    · rw [hreset] at hchanged
      exact absurd rfl hchanged
    · rw [hreset] at hanswer
      cases hanswer
  | finish =>
    rw [CopyFrame.call] at hanswer hoffered ⊢
    rcases finish_cases h.active h.buffer_ne with ⟨e', -, hfinish⟩ | ⟨e', -, hfinish⟩ | hfinish
    · rw [hfinish] at hanswer hoffered ⊢
      cases hanswer
      have hd := List.append_inj_right' hoffered rfl
      cases hd
      rfl
    · rw [hfinish] at hoffered ⊢
      have hd := List.append_inj_right' hoffered rfl
      cases hd
      rfl
    · rw [hfinish] at hanswer
      cases hanswer

/-- **What lasts of a refusal.**  Whatever the sink and the calls before, resets among them, when a
call fails because the sink refused a chunk, the frame has failed, stays as it is, and answers every
later call with that error.  When it was word of the end that the sink refused, the frame has not
failed but is finished, and answers every later call with that. -/
theorem refusal_lasts_except_of_close (config : CopyConfig)
    (refusal : List Delivery → Delivery → Option Error) {calls : List Call}
    (hfails : ((start config (.ofRefusal refusal)).after calls).FailsOn c d e) :
    let g := (start config (.ofRefusal refusal)).after (calls ++ [c])
    (d ≠ .close → g.isFailed = true ∧
      ∀ later, g.after later = g ∧ ∀ answer ∈ g.answers later, answer = .error e) ∧
    (d = .close → g.isFailed = false ∧ g.isFinished = true ∧
      ∀ later, g.after later = g ∧
        ∀ answer ∈ g.answers later, answer = .error .streamFinished) := by
  intro g
  have hg : g.phase = phaseOfRefused d e := by
    have hconcat : g = _ := after_concat _ calls c
    cases hclosed : ((start config (.ofRefusal refusal)).after calls).closedBy? with
    | some reason => exact absurd (congrArg Prod.snd (call_of_closed hclosed c)) hfails.call_ne
    | none =>
      obtain ⟨⟨n, hopen⟩, -, -⟩ := openAt_after config refusal (closedBy?_eq_none_iff.1 hclosed)
      rw [hconcat]
      exact hopen.phase_of_failsOn hfails
  constructor
  · intro hd
    cases d with
    | chunk bytes =>
      have hclosed : g.closedBy? = some e := closedBy?_of_failed hg
      refine ⟨by simp [isFailed, hg, phaseOfRefused], fun later => ?_⟩
      exact ⟨after_of_closed hclosed later, answers_of_closed hclosed later⟩
    | close => exact absurd rfl hd
  · rintro rfl
    have hclosed : g.closedBy? = some .streamFinished := by
      simp [closedBy?, hg, phaseOfRefused]
    refine ⟨by simp [isFailed, hg, phaseOfRefused], by simp [isFinished, hg, phaseOfRefused],
      fun later => ?_⟩
    exact ⟨after_of_closed hclosed later, answers_of_closed hclosed later⟩

/-- A sink that takes nothing, a reset, and the finish that has to do with the header. -/
theorem refusal_lasts_except_of_close_header :
    let f := start ⟨1, 64, by decide, by decide⟩ (.ofRefusal fun _ _ => some (.transport "closed"))
    (f.after [.reset 2]).FailsOn .finish (.chunk CopyStream.header) (.transport "closed") ∧
    (f.after [.reset 2, .finish]).isFailed = true ∧
    ∀ later, ∀ answer ∈ (f.after [.reset 2, .finish]).answers later,
      answer = .error (.transport "closed") := by
  intro f
  have hfails : (f.after [.reset 2]).FailsOn .finish (.chunk CopyStream.header)
      (.transport "closed") := ⟨rfl, [], List.nil_prefix, rfl, rfl⟩
  obtain ⟨hchunk, -⟩ := refusal_lasts_except_of_close ⟨1, 64, by decide, by decide⟩ _ hfails
  obtain ⟨hfailed, hlater⟩ := hchunk nofun
  exact ⟨hfails, hfailed, fun later => (hlater later).2⟩

/-- A sink that takes chunks, and refuses word of the end. -/
def refusesClose : List Delivery → Delivery → Option Error
  | _, .chunk _ => none
  | _, .close => some (.transport "end rejected")

/-- The refusal of the end is told, and then forgotten. -/
theorem refused_close_forgotten :
    let f := start ⟨1, 64, by decide, by decide⟩ (.ofRefusal refusesClose)
    f.FailsOn .finish .close (.transport "end rejected") ∧
    (f.after [.finish]).isFailed = false ∧
    (f.after [.finish]).answers [.put none, .reset 1, .finish] =
      [.error .streamFinished, .error .streamFinished, .error .streamFinished] ∧
    Error.streamFinished ≠ .transport "end rejected" := by
  intro f
  exact ⟨⟨rfl, [.chunk CopyStream.header], List.nil_prefix, rfl, rfl⟩, rfl, rfl, nofun⟩

end CopyFrame

end SqlWire
