import SqlWire.Proofs.Copy.Occupancy

/-!
# Streams into a sink that refuses a chunk

A chunk can be refused anywhere: within the number of columns, a length word or the bytes
of a field, in the middle of a field or at the end of the stream.  What the sink has taken
and what the frame still holds are then together a part of the stream, which has all
fields up to the one that was being put (`Carries.failsToSend`).  The frame is closed from
then on (`failed_send_loses_nothing`).
-/

namespace SqlWire

namespace CopyFrame

/-- The sink refuses a chunk during a call, and the call is answered with that. -/
def FailsToSend (f : CopyFrame) (c : Call) (e : Error) : Prop :=
  (f.call c).1 = .error e ∧ ∃ before chunk,
    f.sink.offered <+: before ∧
    (f.call c).2.sink.offered = before ++ [.chunk chunk] ∧
    f.sink.refusal before (.chunk chunk) = some e

variable {f : CopyFrame} {c : Call} {e : Error} {fields : List Nullable}

theorem not_failsToSend_of_call_eq {outcome : Except Error Unit} (h : f.call c = (outcome, f)) :
    ¬ f.FailsToSend c e := by
  rintro ⟨-, before, chunk, hbefore, hoffered, -⟩
  rw [h] at hoffered
  have hle := hbefore.length_le
  rw [hoffered, List.length_append, List.length_singleton] at hle
  omega

/-- **When a chunk is refused** the frame has failed, and its output goes on from the stream of the
fields before, towards that with the field of the call. -/
theorem Carries.failsToSend (h : f.Carries fields) (hreset : ¬ c.IsReset)
    (hfails : f.FailsToSend c e) :
    (f.call c).2.phase = .failed e ∧
    CopyStream.form f.columns fields <+: (f.call c).2.output ∧
    (f.call c).2.output <+: CopyStream.form f.columns (fields ++ c.field?.toList) := by
  have hanswer := hfails.1
  cases c with
  | reset columns => exact absurd trivial hreset
  | put field =>
    rcases h.put field with ⟨-, hput⟩ | ⟨-, g, hput, -⟩ | ⟨e', g, hput, hbroke⟩
    · exact absurd hfails (not_failsToSend_of_call_eq hput)
    · rw [call, hput] at hanswer
      cases hanswer
    · rw [call, hput] at hanswer ⊢
      cases hanswer
      rw [Call.field?, Option.toList_some, CopyStream.form_concat, ← h.output_eq]
      exact ⟨hbroke.phase_eq, hbroke.output_prefix, hbroke.prefix_output⟩
  | finish =>
    rw [Call.field?, Option.toList_none, List.append_nil, ← h.output_eq]
    rcases finish_cases h.active h.buffer_ne with ⟨e', -, hfinish⟩ | ⟨e', -, hfinish⟩ | hfinish
    · rw [call, hfinish] at hanswer ⊢
      cases hanswer
      exact ⟨rfl, List.prefix_rfl, List.prefix_rfl⟩
    · -- the last thing the sink was handed is no chunk
      obtain ⟨-, before, chunk, -, hoffered, -⟩ := hfails
      rw [call, hfinish] at hoffered
      have hlast := List.append_inj_right' hoffered rfl
      cases hlast
    · rw [call, hfinish] at hanswer
      cases hanswer

/-- **A refused chunk loses nothing and closes the frame.**  Whatever sink and capacity, when a call
fails because a chunk was refused, what the sink has taken and what is in the buffer are together a
part of the stream of the fields so far and the one of the call, and not less than that of the
fields so far.  Every later call is answered with the same error, and changes neither the frame nor
what the sink was handed. -/
theorem failed_send_loses_nothing (config : CopyConfig)
    (refusal : List Delivery → Delivery → Option Error) {calls : List Call}
    (hcalls : ∀ call ∈ calls ++ [c], ¬ call.IsReset)
    (hfails : ((start config (.ofRefusal refusal)).after calls).FailsToSend c e) :
    let f := start config (.ofRefusal refusal)
    let g := f.after (calls ++ [c])
    CopyStream.form config.columns (f.accepted calls) <+: g.sink.chunks.flatten ++ g.buffer ∧
    g.sink.chunks.flatten ++ g.buffer <+:
      CopyStream.form config.columns (f.accepted calls ++ c.field?.toList) ∧
    ∀ later, g.after later = g ∧ ∀ answer ∈ g.answers later, answer = .error e := by
  intro f g
  have hg : g = ((f.after calls).call c).2 := after_concat f calls c
  cases hclosed : (f.after calls).closedBy? with
  | some reason =>
    exact absurd hfails (not_failsToSend_of_call_eq (call_of_closed hclosed c))
  | none =>
    obtain ⟨hconfig, -, hcarries⟩ := carries_after config refusal
      (fun c hc => hcalls c (List.mem_append_left _ hc)) (closedBy?_eq_none_iff.1 hclosed)
    obtain ⟨hphase, hfrom, htowards⟩ := hcarries.failsToSend (hcalls c (by simp)) hfails
    rw [columns, hconfig, ← hg] at hfrom htowards
    rw [← hg] at hphase
    have hfailed := closedBy?_of_failed hphase
    exact ⟨hfrom, htowards, fun later => ⟨after_of_closed hfailed later,
      answers_of_closed hfailed later⟩⟩

/-- The answers of a sink that fails after so many deliveries. -/
def refusalAfter (allowed : Nat) (reason : Error) (offered : List Delivery) (_ : Delivery) :
    Option Error :=
  if offered.length < allowed then none else some reason

/-- Two columns in chunks of twenty bytes, and a sink that takes one of them.  The second chunk,
which ends in the middle of the field, stays in the buffer. -/
theorem failed_send_loses_nothing_second :
    let f := start ⟨2, 20, by decide, by decide⟩
      (.ofRefusal (refusalAfter 1 (.transport "connection closed")))
    let c := Call.put (some (List.replicate 30 7))
    (∀ call ∈ [] ++ [c], ¬ call.IsReset) ∧
    (f.after []).FailsToSend c (.transport "connection closed") ∧
    (f.after [c]).buffer = [2, 0, 0, 0, 30] ++ List.replicate 15 7 ∧
    CopyStream.header <+: (f.after [c]).sink.chunks.flatten ++ (f.after [c]).buffer ∧
    (f.after [c]).sink.chunks.flatten ++ (f.after [c]).buffer <+:
      CopyStream.form 2 [some (List.replicate 30 7)] ∧
    ∀ later, (f.after [c]).after later = f.after [c] := by
  have hput : (start ⟨2, 20, by decide, by decide⟩
        (.ofRefusal (refusalAfter 1 (.transport "connection closed")))).put
          (some (List.replicate 30 7)) =
      (.error (.transport "connection closed"), ⟨⟨2, 20, by decide, by decide⟩,
        ⟨refusalAfter 1 (.transport "connection closed"),
          [.chunk (CopyStream.header ++ [0]), .chunk ([2, 0, 0, 0, 30] ++ List.replicate 15 7)],
          [.chunk (CopyStream.header ++ [0])]⟩,
        [2, 0, 0, 0, 30] ++ List.replicate 15 7, some 0,
        .failed (.transport "connection closed"), 1⟩) :=
    put_eq_of_putWithin (show putWithin 2 _ _ = some _ from rfl)
  intro f c
  have hcalls : ∀ call ∈ [] ++ [c], ¬ call.IsReset := by simp [c, Call.IsReset]
  have hfails : (f.after []).FailsToSend c (.transport "connection closed") :=
    ⟨congrArg Prod.fst hput, [.chunk (CopyStream.header ++ [0])], _, List.nil_prefix,
      congrArg (fun r => r.2.sink.offered) hput, rfl⟩
  obtain ⟨hfrom, htowards, hlater⟩ :=
    failed_send_loses_nothing ⟨2, 20, by decide, by decide⟩ _ hcalls hfails
  exact ⟨hcalls, hfails, congrArg (fun r => r.2.buffer) hput,
    CopyStream.form_nil 2 ▸ hfrom, htowards, fun later => (hlater later).1⟩

end CopyFrame

end SqlWire
