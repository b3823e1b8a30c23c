import SqlWire.Proofs.Params.Entries
import SqlWire.Proofs.Run

/-!
# A parameter list is a list of parameters

What is done to a list comes in jobs: an addition, a block that begins a value, appends to it
and perhaps commits it, handing the list over, and a reset.  `listed` keeps the books of a run
with nothing but a list of types and values: what succeeds is put at the end, what fails is
left out, and a reset clears everything.  `Sound.job` is the step and `lists_after` the run: the
payload, its offsets and what failures have left in it are not to be seen.
-/

namespace SqlWire

namespace ParameterList

/-! ### Jobs -/

/-- What is done to a list, and what memory grants to it. -/
inductive Job where
  | addition (grant : Grant) (a : Addition)
  /-- A value that is begun, appended to piece by piece and, unless it is given up, committed. -/
  | block (pieces : List (Grant × Bytes)) (closing : Option (Grant × Oid))
  | finalize
  | reset

def appendPiece (l : ParameterList) (piece : Grant × Bytes) : Except Error Unit × ParameterList :=
  l.append piece.1 piece.2

/-- The bytes of the pieces that are appended; the others are refused. -/
def written (l : ParameterList) (pieces : List (Grant × Bytes)) : Bytes :=
  (Run.accepted appendPiece (fun _ piece => some piece.2) l pieces).flatten

def block (l : ParameterList) (pieces : List (Grant × Bytes)) (closing : Option (Grant × Oid)) :
    Except Error Unit × ParameterList :=
  match l.begin with
  | .error e => (.error e, l)
  | .ok mark =>
    match closing with
    | none => (.ok (), Run.after appendPiece l pieces)
    | some (grant, oid) => (Run.after appendPiece l pieces).commit grant mark oid

def job (l : ParameterList) : Job → Except Error Unit × ParameterList
  | .addition grant a => l.addition grant a
  | .block pieces closing => l.block pieces closing
  | .finalize => (.ok (), l.finalize.2)
  | .reset => (.ok (), l.reset)

/-- The parameter that a job is to add. -/
def jobParameter? (l : ParameterList) : Job → Option (Oid × Nullable)
  | .addition _ a => a.parameter?
  | .block pieces closing => closing.map fun (_, oid) => (oid, some (l.written pieces))
  | .finalize | .reset => none

/-! ### The books -/

/-- What is listed after one more job. -/
def listedAfter (l : ParameterList) (listed : List (Oid × Nullable)) : Job → List (Oid × Nullable)
  | .reset => []
  | j => listed ++ Run.acceptedBy job jobParameter? l j

def listedFrom (l : ParameterList) (listed : List (Oid × Nullable)) :
    List Job → List (Oid × Nullable)
  | [] => listed
  | j :: jobs => listedFrom (l.job j).2 (l.listedAfter listed j) jobs

/-- The parameters that the jobs of a run have added since the last reset. -/
def listed (limit : Option Nat) (jobs : List Job) : List (Oid × Nullable) :=
  (empty limit).listedFrom [] jobs

def afterJobs (l : ParameterList) (jobs : List Job) : ParameterList := Run.after job l jobs

variable {l l' : ParameterList} {L : List (Oid × Nullable)}

/-! ### One job -/

theorem afterPieces_eq (l : ParameterList) (pieces : List (Grant × Bytes)) :
    Run.after appendPiece l pieces = l.extended (l.written pieces) := by
  have hstep : ∀ l' items piece, l' = l.extended (List.flatten items) →
      (l'.appendPiece piece).2 = l.extended (List.flatten
        (items ++ Run.acceptedBy appendPiece (fun _ piece => some piece.2) l' piece)) := by
    rintro l' items ⟨grant, bytes⟩ rfl
    rcases (l.extended items.flatten).append_cases grant bytes with ⟨e, hrefused⟩ | htaken
    · have hpiece : (l.extended items.flatten).appendPiece (grant, bytes) =
          (.error e, l.extended items.flatten) := hrefused
      rw [Run.acceptedBy_of_error hpiece, hpiece, List.append_nil]
    · have hpiece : (l.extended items.flatten).appendPiece (grant, bytes) =
          (.ok (), (l.extended items.flatten).extended bytes) := htaken
      rw [Run.acceptedBy_of_ok hpiece, hpiece, extended_extended, List.flatten_append]
      simp
  exact Run.holds_after hstep l.extended_nil.symm pieces

/-- A block that is given up or refused leaves bytes behind that no parameter has. -/
theorem Sound.block (h : l.Sound) (pieces : List (Grant × Bytes))
    (closing : Option (Grant × Oid)) :
    Gains l (l.job (.block pieces closing)).2
      (Run.acceptedBy job jobParameter? l (.block pieces closing)) := by
  have hextended : Gains l (l.extended (l.written pieces)) [] := h.extended _
  cases hbegin : l.begin with
  | error e =>
    have hrefused : l.job (.block pieces closing) = (.error e, l) := by
      rw [job, ParameterList.block, hbegin]
    rw [Run.acceptedBy_of_error hrefused, hrefused]
    exact h.refl
  | ok mark =>
    cases begin_eq_ok hbegin
    cases closing with
    | none =>
      have hgiven : l.job (.block pieces none) = (.ok (), l.extended (l.written pieces)) := by
        rw [job, ParameterList.block, hbegin, ← afterPieces_eq]
      rw [Run.acceptedBy_of_ok hgiven, hgiven]
      exact hextended
    | some closing =>
      obtain ⟨grant, oid⟩ := closing
      have hcommit : l.job (.block pieces (some (grant, oid))) =
          (l.extended (l.written pieces)).commit grant ⟨l.payload.length⟩ oid := by
        rw [job, ParameterList.block, hbegin, ← afterPieces_eq]
      rcases hextended.sound.commit_allOrNothing grant ⟨l.payload.length⟩ oid with
        ⟨e, hrefused⟩ | ⟨x, l', hx, htaken, hgains⟩
      · rw [Run.acceptedBy_of_error (hcommit.trans hrefused), hcommit, hrefused]
        exact hextended
      · rw [payload_extended, List.drop_left] at hx
        rw [Run.acceptedBy_of_ok (hcommit.trans htaken), hcommit, htaken, jobParameter?,
          Option.map_some, hx]
        exact hextended.trans hgains

/-- **What a job other than a reset makes of a list.** -/
theorem Sound.job (h : l.Sound) {j : Job} (hj : j ≠ .reset) :
    Gains l (l.job j).2 (Run.acceptedBy job jobParameter? l j) := by
  cases j with
  | addition grant a => exact (h.addition_allOrNothing grant a).gains h
  | block pieces closing => exact h.block pieces closing
  | finalize => exact h.finalized
  | reset => contradiction

/-! ### Runs -/

/-- A list with just these parameters. -/
structure Lists (l : ParameterList) (L : List (Oid × Nullable)) : Prop where
  toList_eq : l.toList = L
  sound : l.Sound

theorem lists_empty (limit : Option Nat) : Lists (empty limit) [] where
  toList_eq := rfl
  sound := sound_empty limit

theorem Lists.gains {gained : List (Oid × Nullable)} (h : Lists l L) (h' : Gains l l' gained) :
    Lists l' (L ++ gained) where
  toList_eq := by rw [h'.toList_eq, h.toList_eq]
  sound := h'.sound

theorem Lists.job (h : Lists l L) (j : Job) : Lists (l.job j).2 (l.listedAfter L j) := by
  cases j with
  | reset => exact lists_empty l.limit
  | _ => exact h.gains (h.sound.job nofun)

theorem Lists.afterJobs (h : Lists l L) (jobs : List Job) :
    Lists (l.afterJobs jobs) (l.listedFrom L jobs) := by
  induction jobs generalizing l L with
  | nil => exact h
  | cons j jobs ih => exact ih (h.job j)

/-- **After any run the list has the parameters that the books say it has.** -/
theorem lists_after (limit : Option Nat) (jobs : List Job) :
    Lists ((empty limit).afterJobs jobs) (listed limit jobs) :=
  (lists_empty limit).afterJobs jobs

/-! ### Handing over -/

theorem map_toList {α : Type} (l : ParameterList) (f : Oid × Nullable → α) :
    l.toList.map f = l.entries.map fun p => f (p.oid, p.slice l.payload) := List.map_map

theorem Sound.lengths_bound (h : l.Sound) :
    l.bound.lengths.map Int32.toInt = l.toList.map fun x => ((x.2.getD []).length : Int) := by
  rw [map_toList, bound, List.map_map]
  apply List.map_congr_left
  intro p hp
  exact (h p hp).shownLength_eq

theorem Sound.formats_bound (h : l.Sound) : l.bound.formats = l.toList.map fun _ => 1 := by
  rw [map_toList, bound]
  apply List.map_congr_left
  intro p hp
  exact (h p hp).format_eq

/-- **A parameter list is seen as the list of what has been added to it**, whatever has failed in
between: in its length, in the parameters one by one, and in what it hands over. -/
theorem refines_list (limit : Option Nat) (jobs : List Job) :
    let l := (empty limit).afterJobs jobs
    let L := listed limit jobs
    l.size = L.length ∧ (∀ i, l.get? i = L[i]?) ∧
    l.finalize.1.types = L.map (fun x => x.1) ∧
    l.finalize.1.values = L.map (fun x => x.2) ∧
    l.finalize.1.lengths.map Int32.toInt = L.map (fun x => ((x.2.getD []).length : Int)) ∧
    l.finalize.1.formats = L.map (fun _ => 1) := by
  intro l L
  obtain ⟨hlist, hsound⟩ : Lists l L := lists_after limit jobs
  rw [← hlist]
  refine ⟨l.length_toList.symm, l.get?_eq_getElem?, ?_, ?_, hsound.lengths_bound,
    hsound.formats_bound⟩
  · exact (l.map_toList fun x => x.1).symm
  · exact (l.map_toList fun x => x.2).symm

-- the second piece of the block goes past the limit, and so does the value after it
example : listed (some 4) [.addition .all (.encoded 25 [1, 2]),
    .block [(.all, [3]), (.all, [4, 5])] (some (.all, 17)), .addition .all (.value (.int2 6)),
    .addition .all (.null 20)] = [(25, some [1, 2]), (17, some [3]), (20, none)] := by decide

end ParameterList

end SqlWire
