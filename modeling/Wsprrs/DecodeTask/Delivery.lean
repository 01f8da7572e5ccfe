import Wsprrs.DecodeTask.Model

/-! Every result handled once: what each window has caused so far, where the windows are that
were received and not handled yet, and what the task leaves behind when it returns. -/
namespace Wsprrs.DecodeTask

def effectsOf (id : ℕ) (out : List Action) : List Effect :=
  out.filterMap (fun a =>
    match a with
    | .effect i e => if i = id then some e else none
    | _ => none)

/-- What a list of actions has appended to the output file. -/
def fileText (out : List Action) : Text :=
  out.flatMap (fun a =>
    match a with
    | .effect _ (.appended text) => text
    | .effect _ (.cutOff json written) => (json ++ ['\n']).take written
    | _ => [])

def loggedSpots (out : List Action) : List Text :=
  out.filterMap (fun a =>
    match a with
    | .effect _ (.spotLogged json) => some json
    | _ => none)

/-- `serde_json` writes a spot, and writes it without a newline. -/
def Compact (toJson : WsprSpot → Except Text Text) : Prop :=
  ∀ spot, ∃ json, toJson spot = .ok json ∧ '\n' ∉ json

section
variable (sinks : Sinks) (toJson : WsprSpot → Except Text Text)

def spotEffects (id left : ℕ) (spot : WsprSpot) : List Effect :=
  logSpot toJson spot ++ writeSpot sinks toJson id left spot

/-- The loop over the spots of a result. -/
def spotsEffects (id : ℕ) : List WsprSpot → List Effect
  | [] => []
  | spot::rest => spotEffects sinks toJson id rest.length spot ++ spotsEffects id rest

/-- All that handling the result of one decode causes, in order. -/
def handling (id : ℕ) : DecodeResult → List Effect
  | .ok (spots, windowStart) =>
    noticeEmpty spots ++ spotsEffects sinks toJson id spots ++ insertBatch sinks id spots windowStart
  | .error e => [.logged "wsprd decode failed" e]

/-- The result of a window has been handled, once and in full. -/
def Handled (id : ℕ) (out : List Action) : Prop :=
  ∃ result, .decoded id result ∈ out ∧ effectsOf id out = handling sinks toJson id result

/-- No window has caused more than the handling of its result, and nothing out of order. -/
def AtMostOnce (out : List Action) : Prop :=
  ∀ id, effectsOf id out = [] ∨
    ∃ result, .decoded id result ∈ out ∧ effectsOf id out <+: handling sinks toJson id result

/-- Every window received has had its result handled. -/
def AllHandled (out : List Action) : Prop :=
  ∀ id window, .received id window ∈ out → Handled sinks toJson id out

structure DeliversOnce (out : List Action) : Prop where
  atMostOnce : AtMostOnce sinks toJson out
  wholeLines : sinks.outFile = true → (fileText out).splitOn '\n' = loggedSpots out ++ [[]]
  complete : .returned ∈ out → AllHandled sinks toJson out

end

/-- The step on which the task finds the window channel empty and closed. -/
def leaves (st : State) : Event → Bool
  | .advance => st.phase = .selecting && st.winQueue.isEmpty && st.winClosed
  | _ => false

/-- If the task leaves now, no decode is running and no result is queued. -/
def Settled (st : State) (e : Event) : Prop :=
  leaves st e = true → st.decoding = [] ∧ st.spotQueue = []

instance (st : State) (e : Event) : Decidable (Settled st e) :=
  inferInstanceAs (Decidable (_ → _))

/-- The write of the next spot, if there is one, gets the whole line into the file. -/
def WritesLine (sinks : Sinks) (toJson : WsprSpot → Except Text Text) (st : State) (e : Event) : Prop :=
  match e, st.phase with
  | .advance, .writing id (spot::rest) _ _ =>
    sinks.outFile = true → ∀ json ∈ (toJson spot).toOption, ∀ fault ∈ sinks.write id rest.length,
      json.length < fault.written
  | _, _ => True

instance (sinks : Sinks) (toJson : WsprSpot → Except Text Text) (st : State) (e : Event) :
    Decidable (WritesLine sinks toJson st e) := by
  unfold WritesLine
  split <;> infer_instance

@[simp] theorem effectsOf_append (id : ℕ) (out out' : List Action) :
    effectsOf id (out ++ out') = effectsOf id out ++ effectsOf id out' := List.filterMap_append
@[simp] theorem effectsOf_nil (id : ℕ) : effectsOf id [] = [] := rfl
@[simp] theorem effectsOf_received (id i : ℕ) (window : AudioWindow) :
    effectsOf id [.received i window] = [] := rfl
@[simp] theorem effectsOf_decoded (id i : ℕ) (result : DecodeResult) :
    effectsOf id [.decoded i result] = [] := rfl
@[simp] theorem effectsOf_returned (id : ℕ) : effectsOf id [.returned] = [] := rfl

theorem effectsOf_self (id : ℕ) (es : List Effect) : effectsOf id (es.map (Action.effect id)) = es := by
  simp [effectsOf, List.filterMap_map]

theorem effectsOf_ne {id i : ℕ} (h : i ≠ id) (es : List Effect) :
    effectsOf id (es.map (Action.effect i)) = [] := by
  simp [effectsOf, List.filterMap_map, h]

theorem fileText_append (out out' : List Action) :
    fileText (out ++ out') = fileText out ++ fileText out' := List.flatMap_append
theorem loggedSpots_append (out out' : List Action) :
    loggedSpots (out ++ out') = loggedSpots out ++ loggedSpots out' := List.filterMap_append

/-- The windows that were received and not handled yet. -/
def State.openIds (st : State) : List ℕ :=
  st.decoding ++ st.spotQueue.map Prod.fst ++
    match st.phase with
    | .writing id _ _ _ => [id]
    | _ => []

section
variable {sinks : Sinks} {toJson : WsprSpot → Except Text Text} {st : State} {out : List Action}

theorem mem_spotsEffects {id : ℕ} {spots : List WsprSpot} {effect : Effect}
    (h : effect ∈ spotsEffects sinks toJson id spots) :
    ∃ left, ∃ spot ∈ spots, effect ∈ spotEffects sinks toJson id left spot := by
  induction spots with
  | nil => contradiction
  | cons spot rest ih =>
    obtain h | h := List.mem_append.mp h
    · exact ⟨rest.length, spot, List.mem_cons_self, h⟩
    · obtain ⟨left, spot', hspot, h⟩ := ih h
      exact ⟨left, spot', List.mem_cons_of_mem _ hspot, h⟩

theorem handling_ne_nil (id : ℕ) (result : DecodeResult) : handling sinks toJson id result ≠ [] := by
  match result with
  | .error e => simp [handling]
  | .ok ([], windowStart) => simp [handling, noticeEmpty]
  | .ok (spot::spots, windowStart) =>
    cases hj : toJson spot <;> simp [handling, spotsEffects, spotEffects, logSpot, hj]

/-- While the task runs, every window received is running, queued, being written or handled. -/
structure Accounted (sinks : Sinks) (toJson : WsprSpot → Except Text Text) (st : State)
    (out : List Action) : Prop where
  nodup : st.openIds.Nodup
  lt : ∀ id ∈ st.openIds, id < st.nextId
  received : ∀ id, (∃ window, .received id window ∈ out) ↔ id < st.nextId
  unseen : ∀ id, st.nextId ≤ id → effectsOf id out = []
  decoding : ∀ id ∈ st.decoding, effectsOf id out = []
  queued : ∀ id result, (id,result) ∈ st.spotQueue → .decoded id result ∈ out ∧ effectsOf id out = []
  writing : ∀ id rest spots windowStart, st.phase = .writing id rest spots windowStart →
    .decoded id (.ok (spots,windowStart)) ∈ out ∧
    effectsOf id out ++ spotsEffects sinks toJson id rest ++
      insertBatch sinks id spots windowStart = handling sinks toJson id (.ok (spots,windowStart))
  handled : ∀ id < st.nextId, id ∉ st.openIds → Handled sinks toJson id out

theorem Handled.append {id : ℕ} (h : Handled sinks toJson id out) {out' : List Action}
    (hne : effectsOf id out' = []) : Handled sinks toJson id (out ++ out') := by
  obtain ⟨result, hmem, heq⟩ := h
  exact ⟨result, by simp [hmem], by simp [heq, hne]⟩

theorem accounted_initial : Accounted sinks toJson .initial [] where
  nodup := by simp [State.initial, State.openIds]
  lt := by simp [State.initial, State.openIds]
  received := by simp [State.initial]
  unseen := by simp
  decoding := by simp
  queued := by simp [State.initial]
  writing := by simp [State.initial]
  handled := by simp [State.initial]

namespace Accounted

theorem receive (h : Accounted sinks toJson st out) (window : AudioWindow) (rest : List AudioWindow) :
    Accounted sinks toJson
      { st with winQueue := rest, decoding := st.decoding ++ [st.nextId], nextId := st.nextId + 1 }
      (out ++ [.received st.nextId window]) := by
  have hopen : (State.openIds ⟨rest, st.winClosed, st.decoding ++ [st.nextId], st.spotQueue,
      st.nextId + 1, st.phase⟩).Perm (st.nextId::st.openIds) := by
    simp [State.openIds]
  refine ⟨?_, ?_, ?_, ?_, ?_, ?_, ?_, ?_⟩
  · rw [hopen.nodup_iff, List.nodup_cons]
    exact ⟨fun hmem => absurd (h.lt _ hmem) (by omega), h.nodup⟩
  · intro id hid
    rw [hopen.mem_iff, List.mem_cons] at hid
    obtain rfl | hid := hid
    · exact Nat.lt_succ_self _
    · exact (h.lt id hid).trans (Nat.lt_succ_self _)
  · intro id
    have hold := h.received id
    simp only [List.mem_append, List.mem_singleton, Action.received.injEq, exists_or, hold]
    constructor
    · rintro (hlt | ⟨w, rfl, -⟩) <;> omega
    · intro hlt
      obtain hlt | rfl := Nat.lt_succ_iff_lt_or_eq.mp hlt
      · exact .inl hlt
      · exact .inr ⟨window, rfl, rfl⟩
  · intro id hid
    simp [h.unseen id (by simp only at hid; omega)]
  · intro id hid
    rw [effectsOf_append, effectsOf_received, List.append_nil]
    obtain hid | hid := List.mem_append.mp hid
    · exact h.decoding id hid
    · exact h.unseen id (by simp at hid; omega)
  · intro id result hid
    obtain ⟨hmem, hnil⟩ := h.queued id result hid
    simp [hmem, hnil]
  · intro id more spots windowStart hphase
    obtain ⟨hmem, heq⟩ := h.writing id more spots windowStart hphase
    simpa [hmem] using heq
  · intro id hlt hid
    rw [hopen.mem_iff, List.mem_cons, not_or] at hid
    simp only at hlt
    exact (h.handled id (by omega) hid.2).append rfl

theorem complete (h : Accounted sinks toJson st out) {id : ℕ} (hid : id ∈ st.decoding)
    (result : DecodeResult) :
    Accounted sinks toJson
      { st with decoding := st.decoding.erase id, spotQueue := st.spotQueue ++ [(id,result)] }
      (out ++ [.decoded id result]) := by
  have hopen : (State.openIds ⟨st.winQueue, st.winClosed, st.decoding.erase id,
      st.spotQueue ++ [(id,result)], st.nextId, st.phase⟩).Perm st.openIds := by
    simp only [State.openIds, List.map_append, List.map_cons, List.map_nil]
    refine List.Perm.append_right _ ?_
    rw [← List.append_assoc]
    have hlast := List.perm_append_singleton id (st.decoding.erase id ++ st.spotQueue.map Prod.fst)
    exact hlast.trans ((List.perm_cons_erase hid).symm.append_right _)
  refine ⟨?_, ?_, ?_, ?_, ?_, ?_, ?_, ?_⟩
  · exact hopen.nodup_iff.mpr h.nodup
  · intro i hi
    exact h.lt i (hopen.mem_iff.mp hi)
  · intro i
    simpa using h.received i
  · intro i hi
    simpa using h.unseen i hi
  · intro i hi
    simpa using h.decoding i (List.mem_of_mem_erase hi)
  · intro i r hi
    obtain hi | hi := List.mem_append.mp hi
    · obtain ⟨hmem, hnil⟩ := h.queued i r hi
      simp [hmem, hnil]
    · obtain ⟨rfl, rfl⟩ := Prod.mk.inj (List.mem_singleton.mp hi)
      simp [h.decoding i hid]
  · intro i more spots windowStart hphase
    obtain ⟨hmem, heq⟩ := h.writing i more spots windowStart hphase
    simpa [hmem] using heq
  · intro i hlt hi
    exact (h.handled i hlt (fun hmem => hi (hopen.mem_iff.mpr hmem))).append rfl

/-- The effects of one window leave the other windows as they are. -/
theorem effectsOf_frame {id i : ℕ} (h : i ≠ id) (es : List Effect) :
    effectsOf i (out ++ es.map (Action.effect id)) = effectsOf i out := by
  rw [effectsOf_append, effectsOf_ne h.symm, List.append_nil]

/-- A step that only causes effects of one open window, which is then neither running nor queued:
what is left to show is about that window. -/
theorem cause (h : Accounted sinks toJson st out) {st' : State} {id : ℕ} {es : List Effect}
    (hopen : id ∈ st.openIds) (hnext : st'.nextId = st.nextId) (hdec : st'.decoding = st.decoding)
    (hqueue : st'.spotQueue ⊆ st.spotQueue) (hnodup : st'.openIds.Nodup)
    (hids : ∀ i, i ≠ id → (i ∈ st'.openIds ↔ i ∈ st.openIds))
    (hgone : ∀ i ∈ st'.decoding ++ st'.spotQueue.map Prod.fst, i ≠ id)
    (hwriting : ∀ i rest spots windowStart, st'.phase = .writing i rest spots windowStart → i = id ∧
      .decoded id (.ok (spots,windowStart)) ∈ out ∧
      effectsOf id out ++ es ++ spotsEffects sinks toJson id rest ++
        insertBatch sinks id spots windowStart = handling sinks toJson id (.ok (spots,windowStart)))
    (hhandled : id ∉ st'.openIds → Handled sinks toJson id (out ++ es.map (Action.effect id))) :
    Accounted sinks toJson st' (out ++ es.map (Action.effect id)) := by
  have hid : id < st.nextId := h.lt id hopen
  refine ⟨hnodup, ?_, ?_, ?_, ?_, ?_, ?_, ?_⟩
  · intro i hi
    rw [hnext]
    by_cases hne : i = id
    · rw [hne]
      exact hid
    · exact h.lt i ((hids i hne).mp hi)
  · intro i
    rw [hnext]
    simpa using h.received i
  · intro i hi
    rw [hnext] at hi
    rw [effectsOf_frame (by omega)]
    exact h.unseen i hi
  · intro i hi
    rw [effectsOf_frame (hgone i (List.mem_append_left _ hi))]
    exact h.decoding i (hdec ▸ hi)
  · intro i r hi
    obtain ⟨hdecoded, hnil⟩ := h.queued i r (hqueue hi)
    rw [effectsOf_frame (hgone i (List.mem_append_right _ (List.mem_map_of_mem hi)))]
    exact ⟨List.mem_append_left _ hdecoded, hnil⟩
  · intro i rest spots windowStart hphase
    obtain ⟨rfl, hmem, heq⟩ := hwriting i rest spots windowStart hphase
    refine ⟨List.mem_append_left _ hmem, ?_⟩
    rw [effectsOf_append, effectsOf_self]
    exact heq
  · intro i hlt hi
    by_cases hne : i = id
    · rw [hne] at hi ⊢
      exact hhandled hi
    · have hold : i ∉ st.openIds := fun hmem => hi ((hids i hne).mpr hmem)
      exact (h.handled i (hnext ▸ hlt) hold).append (effectsOf_ne (Ne.symm hne) _)

/-- A step that only causes effects of one window, and after which that window is being
written. -/
theorem write (h : Accounted sinks toJson st out) {st' : State} {id : ℕ}
    {rest spots : List WsprSpot} {windowStart : ℤ} {es : List Effect}
    (hphase : st'.phase = .writing id rest spots windowStart) (hnext : st'.nextId = st.nextId)
    (hopen : st'.openIds.Perm st.openIds) (hdec : st'.decoding = st.decoding)
    (hqueue : st'.spotQueue ⊆ st.spotQueue) (hmem : .decoded id (.ok (spots,windowStart)) ∈ out)
    (heq : effectsOf id out ++ es ++ spotsEffects sinks toJson id rest ++
      insertBatch sinks id spots windowStart = handling sinks toJson id (.ok (spots,windowStart))) :
    Accounted sinks toJson st' (out ++ es.map (Action.effect id)) := by
  have hnodup : st'.openIds.Nodup := hopen.nodup_iff.mpr h.nodup
  have hself : id ∈ st'.openIds := by simp [State.openIds, hphase]
  refine h.cause (hopen.mem_iff.mp hself) hnext hdec hqueue hnodup (fun i _ => hopen.mem_iff) ?_ ?_
    (fun hclosed => absurd hself hclosed)
  · intro i hi
    simp only [State.openIds, hphase] at hnodup
    exact (List.nodup_append.mp hnodup).2.2 i hi id (List.mem_singleton_self id)
  · intro i rest' spots' start' hwriting
    rw [hphase] at hwriting
    cases hwriting
    exact ⟨rfl, hmem, heq⟩

/-- A step that only causes effects of one window, and after which that window is handled. -/
theorem finish (h : Accounted sinks toJson st out) {st' : State} {id : ℕ} {es : List Effect}
    (hphase : st'.phase = .selecting) (hnext : st'.nextId = st.nextId)
    (hopen : st.openIds.Perm (id::st'.openIds)) (hdec : st'.decoding = st.decoding)
    (hqueue : st'.spotQueue ⊆ st.spotQueue) {result : DecodeResult}
    (hmem : .decoded id result ∈ out) (heq : effectsOf id out ++ es = handling sinks toJson id result) :
    Accounted sinks toJson st' (out ++ es.map (Action.effect id)) := by
  obtain ⟨hclosed, hnodup⟩ := List.nodup_cons.mp (hopen.nodup_iff.mp h.nodup)
  have hids : ∀ i, i ≠ id → (i ∈ st'.openIds ↔ i ∈ st.openIds) := by
    intro i hne
    rw [hopen.mem_iff, List.mem_cons, or_iff_right hne]
  refine h.cause (hopen.mem_iff.mpr List.mem_cons_self) hnext hdec hqueue hnodup hids ?_ ?_ ?_
  · rintro i hi rfl
    exact hclosed (by simpa only [State.openIds, hphase, List.append_nil] using hi)
  · intro i rest spots windowStart hwriting
    rw [hphase] at hwriting
    contradiction
  · intro _
    exact ⟨result, List.mem_append_left _ hmem, by rw [effectsOf_append, effectsOf_self, heq]⟩

theorem poll (h : Accounted sinks toJson st out) (hphase : st.phase = .selecting)
    (hstay : leaves st .advance = false) :
    Accounted sinks toJson (poll st).1 (out ++ (poll st).2) := by
  unfold DecodeTask.poll
  cases hwin : st.winQueue with
  | cons window rest => exact h.receive window rest
  | nil =>
    have hopen : st.winClosed = false := by simpa [leaves, hphase, hwin] using hstay
    simp only [hopen, Bool.false_eq_true, if_false]
    match hq : st.spotQueue with
    | [] => simpa using h
    | (id,result)::rest =>
      obtain ⟨hmem, hnil⟩ := h.queued id result (by rw [hq]; exact List.mem_cons_self)
      have hsub : rest ⊆ st.spotQueue := by rw [hq]; exact List.subset_cons_self _ _
      match result with
      | .ok (spots, windowStart) =>
        refine h.write rfl rfl ?_ rfl hsub hmem (by rw [hnil]; rfl)
        simp only [State.openIds, takeResult, hq, hphase, List.map_cons, List.append_nil,
          List.append_assoc]
        exact (List.perm_append_singleton _ _).append_left _
      | .error e =>
        change Accounted sinks toJson (takeResult _ id (.error e)).1
          (out ++ [Effect.logged "wsprd decode failed" e].map (Action.effect id))
        refine h.finish hphase rfl ?_ rfl hsub hmem (by rw [hnil]; rfl)
        simp only [State.openIds, takeResult, hq, hphase, List.map_cons, List.append_nil]
        exact List.perm_middle

theorem advance (h : Accounted sinks toJson st out) (hrun : st.phase ≠ .returned)
    (hstay : leaves st .advance = false) :
    Accounted sinks toJson (advance sinks toJson st).1 (out ++ (advance sinks toJson st).2) := by
  match hphase : st.phase with
  | .selecting =>
    simp only [DecodeTask.advance, hphase]
    exact h.poll hphase hstay
  | .returned => exact absurd hphase hrun
  | .writing id [] spots windowStart =>
    simp only [DecodeTask.advance, hphase]
    obtain ⟨hmem, heq⟩ := h.writing id [] spots windowStart hphase
    refine h.finish rfl rfl ?_ rfl (List.Subset.refl _) hmem (by simpa [spotsEffects] using heq)
    simp only [State.openIds, hphase, List.append_nil]
    exact List.perm_append_singleton _ _
  | .writing id (spot::rest) spots windowStart =>
    simp only [DecodeTask.advance, hphase]
    obtain ⟨hmem, heq⟩ := h.writing id (spot::rest) spots windowStart hphase
    refine h.write rfl rfl ?_ rfl (List.Subset.refl _) hmem ?_
    · simp only [State.openIds, hphase]
      exact List.Perm.refl _
    · simpa [spotsEffects, spotEffects] using heq

theorem step (h : Accounted sinks toJson st out) (hrun : st.phase ≠ .returned) (e : Event)
    (hstay : leaves st e = false) :
    Accounted sinks toJson (step sinks toJson st e).1 (out ++ (step sinks toJson st e).2) := by
  cases e with
  | arrive window =>
    by_cases hclosed : st.winClosed ∨ st.phase = .returned
    · simpa [DecodeTask.step, hclosed] using h
    · simp only [DecodeTask.step, hclosed, if_false, List.append_nil]
      exact ⟨h.nodup, h.lt, h.received, h.unseen, h.decoding, h.queued, h.writing, h.handled⟩
  | close =>
    simp only [DecodeTask.step, List.append_nil]
    exact ⟨h.nodup, h.lt, h.received, h.unseen, h.decoding, h.queued, h.writing, h.handled⟩
  | complete id result =>
    by_cases hid : id ∈ st.decoding
    · simp only [DecodeTask.step, hid, not_true, if_false, hrun]
      exact h.complete hid result
    · simpa [DecodeTask.step, hid] using h
  | advance => exact h.advance hrun hstay

end Accounted

/-- The file holds exactly the spots that were logged, each on a line of its own. -/
def WholeLines (out : List Action) : Prop :=
  fileText out = Text.terminated (loggedSpots out) ∧ ∀ json ∈ loggedSpots out, '\n' ∉ json

theorem WholeLines.append {out' : List Action} (h : WholeLines out) (h' : WholeLines out') :
    WholeLines (out ++ out') := by
  refine ⟨?_, ?_⟩
  · rw [fileText_append, loggedSpots_append, Text.terminated_append, h.1, h'.1]
  · intro json hmem
    rw [loggedSpots_append] at hmem
    obtain hmem | hmem := List.mem_append.mp hmem
    · exact h.2 json hmem
    · exact h'.2 json hmem

theorem wholeLines_of_quiet (hfile : fileText out = []) (hspots : loggedSpots out = []) :
    WholeLines out := by
  simp [WholeLines, hfile, hspots]

/-- A spot's line is in the file as a whole, or without its newline. -/
theorem spotEffects_cases (hfile : sinks.outFile = true) (hjson : Compact toJson) (id left : ℕ)
    (spot : WsprSpot) :
    let out := (spotEffects sinks toJson id left spot).map (Action.effect id)
    let whole := ∀ json ∈ (toJson spot).toOption, ∀ fault ∈ sinks.write id left,
      json.length < fault.written
    (whole ∧ WholeLines out) ∨ (¬ whole ∧ '\n' ∉ fileText out ∧ (loggedSpots out).length = 1) := by
  intro out whole
  obtain ⟨json, hok, hline⟩ := hjson spot
  have hlogged : loggedSpots out = [json] := by
    cases hfault : sinks.write id left <;>
      simp [out, spotEffects, logSpot, writeSpot, hok, hfile, hfault, loggedSpots]
  cases hfault : sinks.write id left with
  | none =>
    left
    refine ⟨by simp [whole, hfault], ?_, by simp [hlogged, hline]⟩
    rw [hlogged]
    simp [out, spotEffects, logSpot, writeSpot, hok, hfile, hfault, fileText, Text.terminated]
  | some fault =>
    have htext : fileText out = (json ++ ['\n']).take fault.written := by
      simp [out, spotEffects, logSpot, writeSpot, hok, hfile, hfault, fileText]
    have hwhole : whole ↔ json.length < fault.written := by
      simp [whole, hok, hfault, Except.toOption]
    by_cases hlt : json.length < fault.written
    · left
      refine ⟨hwhole.mpr hlt, ?_, by simp [hlogged, hline]⟩
      rw [htext, hlogged, List.take_of_length_le (by simpa using hlt)]
      simp [Text.terminated]
    · right
      refine ⟨fun h => hlt (hwhole.mp h), ?_, by rw [hlogged]; rfl⟩
      rw [htext, List.take_append_of_le_length (not_lt.mp hlt)]
      exact fun hmem => hline (List.mem_of_mem_take hmem)

theorem wholeLines_poll : WholeLines (poll st).2 := by
  unfold poll
  cases st.winQueue with
  | cons window rest => exact wholeLines_of_quiet rfl rfl
  | nil =>
    by_cases hclosed : st.winClosed = true
    · simp only [hclosed, if_true]
      exact wholeLines_of_quiet rfl rfl
    · simp only [hclosed, Bool.false_eq_true, if_false]
      match st.spotQueue with
      | [] => exact wholeLines_of_quiet rfl rfl
      | (id,.error e)::rest => exact wholeLines_of_quiet rfl rfl
      | (id,.ok ([],windowStart))::rest => exact wholeLines_of_quiet rfl rfl
      | (id,.ok (spot::spots,windowStart))::rest => exact wholeLines_of_quiet rfl rfl

theorem wholeLines_insertBatch (id : ℕ) (spots : List WsprSpot) (windowStart : ℤ) :
    WholeLines ((insertBatch sinks id spots windowStart).map (Action.effect id)) := by
  unfold insertBatch insertSpotsCh
  split
  · split_ifs
    · exact wholeLines_of_quiet rfl rfl
    · split <;> exact wholeLines_of_quiet rfl rfl
  · exact wholeLines_of_quiet rfl rfl

/-- A step writes the lines of the spots it logs, or it cuts off the one line it writes. -/
theorem lines_step (hfile : sinks.outFile = true) (hjson : Compact toJson) (st : State) (e : Event) :
    (WritesLine sinks toJson st e ∧ WholeLines (step sinks toJson st e).2) ∨
    (¬ WritesLine sinks toJson st e ∧ '\n' ∉ fileText (step sinks toJson st e).2 ∧
      (loggedSpots (step sinks toJson st e).2).length = 1) := by
  cases e with
  | arrive window =>
    refine .inl ⟨trivial, ?_⟩
    simp only [step]
    split <;> exact wholeLines_of_quiet rfl rfl
  | close => exact .inl ⟨trivial, wholeLines_of_quiet rfl rfl⟩
  | complete id result =>
    refine .inl ⟨trivial, ?_⟩
    simp only [step]
    split_ifs <;> exact wholeLines_of_quiet rfl rfl
  | advance =>
    cases hphase : st.phase with
    | selecting =>
      refine .inl ⟨by simp [WritesLine, hphase], ?_⟩
      simpa only [step, advance, hphase] using wholeLines_poll
    | returned =>
      refine .inl ⟨by simp [WritesLine, hphase], ?_⟩
      simp only [step, advance, hphase]
      exact wholeLines_of_quiet rfl rfl
    | writing id rest spots windowStart =>
      cases rest with
      | nil =>
        refine .inl ⟨by simp [WritesLine, hphase], ?_⟩
        simpa only [step, advance, hphase] using wholeLines_insertBatch id spots windowStart
      | cons spot rest =>
        simp only [step, advance, hphase, WritesLine, hfile, true_imp_iff]
        exact spotEffects_cases hfile hjson id rest.length spot

theorem count_of_wholeLines (h : WholeLines out) :
    (fileText out).count '\n' = (loggedSpots out).length := by
  have hlength := Text.length_splitOn (fileText out)
  rw [h.1, Text.splitOn_terminated h.2, List.length_append, List.length_singleton] at hlength
  rw [h.1]
  omega

/-- If all writes get their line into the file, the lines are those of the spots that were logged;
if one does not, there are fewer. -/
theorem lines_run (hfile : sinks.outFile = true) (hjson : Compact toJson) (st : State)
    (es : List Event) :
    let out := (machine sinks toJson).outputs st es
    let whole := (machine sinks toJson).EveryStep (WritesLine sinks toJson) st es
    (whole ∧ WholeLines out) ∨
      (¬ whole ∧ (fileText out).count '\n' < (loggedSpots out).length) := by
  induction es generalizing st with
  | nil => exact .inl ⟨trivial, wholeLines_of_quiet rfl rfl⟩
  | cons e es ih =>
    have hrest := ih (step sinks toJson st e).1
    simp only [EventMachine.outputs_cons, machine_step, EventMachine.EveryStep, fileText_append,
      loggedSpots_append, List.count_append, List.length_append]
    obtain ⟨hstep, hlines⟩ | ⟨hstep, hcut, hone⟩ := lines_step hfile hjson st e
    · obtain ⟨hes, hlines'⟩ | ⟨hes, hfewer⟩ := hrest
      · exact .inl ⟨⟨hstep, hes⟩, hlines.append hlines'⟩
      · have hcount := count_of_wholeLines hlines
        exact .inr ⟨fun h => hes h.2, by omega⟩
    · have hzero : (fileText (step sinks toJson st e).2).count '\n' = 0 := List.count_eq_zero.mpr hcut
      refine .inr ⟨fun h => hstep h.1, ?_⟩
      obtain ⟨-, hlines'⟩ | ⟨-, hfewer⟩ := hrest
      · have hcount := count_of_wholeLines hlines'
        omega
      · omega

/-- The file splits into the lines of the spots that were logged exactly if every write got its
line into it. -/
theorem splitOn_fileText_iff (hfile : sinks.outFile = true) (hjson : Compact toJson) (st : State)
    (es : List Event) :
    (fileText ((machine sinks toJson).outputs st es)).splitOn '\n' =
        loggedSpots ((machine sinks toJson).outputs st es) ++ [[]] ↔
      (machine sinks toJson).EveryStep (WritesLine sinks toJson) st es := by
  obtain ⟨hwhole, hlines⟩ | ⟨hwhole, hfewer⟩ := lines_run hfile hjson st es
  · refine iff_of_true ?_ hwhole
    rw [hlines.1, Text.splitOn_terminated hlines.2]
  · refine iff_of_false ?_ hwhole
    intro hsplit
    have hlength := Text.length_splitOn (fileText ((machine sinks toJson).outputs st es))
    rw [hsplit, List.length_append, List.length_singleton] at hlength
    omega

theorem Accounted.atMostOnce (h : Accounted sinks toJson st out) : AtMostOnce sinks toJson out := by
  intro id
  by_cases hnext : st.nextId ≤ id
  · exact .inl (h.unseen id hnext)
  by_cases hdec : id ∈ st.decoding
  · exact .inl (h.decoding id hdec)
  by_cases hqueue : id ∈ st.spotQueue.map Prod.fst
  · obtain ⟨⟨i, result⟩, hmem, rfl⟩ := List.mem_map.mp hqueue
    exact .inl (h.queued i result hmem).2
  by_cases hopen : id ∈ st.openIds
  · match hphase : st.phase with
    | .writing i rest spots windowStart =>
      obtain rfl : id = i := by simpa [State.openIds, hdec, hqueue, hphase] using hopen
      obtain ⟨hmem, heq⟩ := h.writing id rest spots windowStart hphase
      exact .inr ⟨_, hmem, by rw [← heq, List.append_assoc]; exact List.prefix_append _ _⟩
    | .selecting => simp_all [State.openIds]
    | .returned => simp_all [State.openIds]
  · obtain ⟨result, hmem, heq⟩ := h.handled id (by omega) hopen
    exact .inr ⟨result, hmem, by rw [heq]⟩

/-- Where the task stands when it leaves: everything received is handled exactly when
nothing is running or queued. -/
theorem Accounted.allHandled_iff (h : Accounted sinks toJson st out)
    (hphase : st.phase = .selecting) :
    AllHandled sinks toJson out ↔ st.decoding = [] ∧ st.spotQueue = [] := by
  constructor
  · intro hall
    have hnone : ∀ id ∈ st.openIds, effectsOf id out ≠ [] := by
      intro id hid
      obtain ⟨window, hmem⟩ := (h.received id).mpr (h.lt id hid)
      obtain ⟨result, -, heq⟩ := hall id window hmem
      rw [heq]
      exact handling_ne_nil id result
    constructor
    · refine List.eq_nil_iff_forall_not_mem.mpr (fun id hid => ?_)
      exact hnone id (by simp [State.openIds, hid]) (h.decoding id hid)
    · refine List.eq_nil_iff_forall_not_mem.mpr (fun p hp => ?_)
      exact hnone p.1 (by simp [State.openIds, List.mem_map_of_mem hp]) (h.queued p.1 p.2 hp).2
  · rintro ⟨hdec, hqueue⟩ id window hmem
    have hlt := (h.received id).mp ⟨window, hmem⟩
    exact h.handled id hlt (by simp [State.openIds, hdec, hqueue, hphase])

theorem step_of_leaves (sinks : Sinks) (toJson : WsprSpot → Except Text Text) {e : Event}
    (h : leaves st e = true) :
    st.phase = .selecting ∧ step sinks toJson st e = ({ st with phase := .returned }, [.returned]) := by
  cases e with
  | arrive window => contradiction
  | close => contradiction
  | complete id result => contradiction
  | advance =>
    obtain ⟨⟨hphase, hwin⟩, hclosed⟩ : (st.phase = .selecting ∧ st.winQueue = []) ∧
        st.winClosed = true := by simpa [leaves] using h
    refine ⟨hphase, ?_⟩
    simp [step, advance, poll, hphase, hwin, hclosed]

/-- A step that does not leave keeps the task running. -/
theorem step_of_stays (sinks : Sinks) (toJson : WsprSpot → Except Text Text) {e : Event}
    (h : leaves st e = false) (hrun : st.phase ≠ .returned) :
    (step sinks toJson st e).1.phase ≠ .returned ∧ .returned ∉ (step sinks toJson st e).2 := by
  cases e with
  | arrive window => by_cases hc : st.winClosed = true <;> simp [step, hc, hrun]
  | close => simp [step, hrun]
  | complete id result => by_cases hid : id ∈ st.decoding <;> simp [step, hid, hrun]
  | advance =>
    match hphase : st.phase with
    | .returned => exact absurd hphase hrun
    | .writing id [] spots windowStart => simp [step, advance, hphase]
    | .writing id (spot::rest) spots windowStart => simp [step, advance, hphase]
    | .selecting =>
      simp only [step, advance, poll, hphase]
      cases hwin : st.winQueue with
      | cons window rest => simp
      | nil =>
        have hopen : st.winClosed = false := by simpa [leaves, hphase, hwin] using h
        match st.spotQueue with
        | [] => simp [hopen, hphase]
        | (id,.ok (spots,windowStart))::rest => simp [hopen, takeResult]
        | (id,.error e)::rest => simp [hopen, takeResult]

theorem step_of_returned (sinks : Sinks) (toJson : WsprSpot → Except Text Text)
    (hrun : st.phase = .returned) (e : Event) :
    (step sinks toJson st e).1.phase = .returned ∧ (step sinks toJson st e).2 = [] := by
  cases e with
  | arrive window => simp [step, hrun]
  | close => simp [step, hrun]
  | complete id result => by_cases hid : id ∈ st.decoding <;> simp [step, hrun, hid]
  | advance => simp [step, advance, hrun]

theorem allHandled_returned :
    AllHandled sinks toJson (out ++ [.returned]) ↔ AllHandled sinks toJson out := by
  simp [AllHandled, Handled]

/-- Every run: either the task is still there with everything accounted for, or it has
returned, and what it left undone was decided on the step on which it left. -/
theorem run_cases (sinks : Sinks) (toJson : WsprSpot → Except Text Text) (es : List Event) :
    let st := (machine sinks toJson).after .initial es
    let out := (machine sinks toJson).outputs .initial es
    let settled := (machine sinks toJson).EveryStep Settled .initial es
    (st.phase ≠ .returned ∧ .returned ∉ out ∧ Accounted sinks toJson st out ∧ settled) ∨
    (st.phase = .returned ∧ .returned ∈ out ∧ AtMostOnce sinks toJson out ∧
      (AllHandled sinks toJson out ↔ settled)) := by
  intro st out settled
  induction es using List.reverseRecOn with
  | nil => exact .inl ⟨by simp [st, State.initial], by simp [out], accounted_initial, trivial⟩
  | append_singleton es e ih =>
    simp only [st, out, settled, EventMachine.everyStep_concat, EventMachine.after_append,
      EventMachine.outputs_append, EventMachine.after_cons, EventMachine.after_nil,
      EventMachine.outputs_cons, EventMachine.outputs_nil, List.append_nil, machine_step] at ih ⊢
    generalize (machine sinks toJson).after .initial es = s at ih ⊢
    generalize (machine sinks toJson).outputs .initial es = o at ih ⊢
    obtain ⟨hrun, hout, hacc, hset⟩ | ⟨hret, hout, honce, hiff⟩ := ih
    · cases hleave : leaves s e with
      | false =>
        obtain ⟨hrun', hout'⟩ := step_of_stays sinks toJson hleave hrun
        refine .inl ⟨hrun', by simp [hout, hout'], hacc.step hrun e hleave, hset, ?_⟩
        intro hl
        rw [hleave] at hl
        contradiction
      | true =>
        obtain ⟨hphase, hstep⟩ := step_of_leaves sinks toJson hleave
        rw [hstep]
        refine .inr ⟨rfl, by simp, ?_, ?_⟩
        · intro id
          simpa using hacc.atMostOnce id
        · rw [allHandled_returned, hacc.allHandled_iff hphase]
          exact ⟨fun hall => ⟨hset, fun _ => hall⟩, fun h => h.2 hleave⟩
    · obtain ⟨hret', hnil⟩ := step_of_returned sinks toJson hret e
      have hstay : leaves s e = false := by cases e <;> simp [leaves, hret]
      rw [hnil, List.append_nil]
      refine .inr ⟨hret', hout, honce, hiff.trans ⟨fun h => ⟨h, ?_⟩, fun h => h.1⟩⟩
      intro hl
      rw [hstay] at hl
      contradiction

/-- Without an output file no write cuts a line off. -/
theorem everyStep_writesLine (hfile : sinks.outFile = false) (st : State) (es : List Event) :
    (machine sinks toJson).EveryStep (WritesLine sinks toJson) st es := by
  induction es generalizing st with
  | nil => trivial
  | cons e es ih =>
    refine ⟨?_, ih _⟩
    unfold WritesLine
    split
    · simp [hfile]
    · trivial

/-- A run delivers every result once, the results of all received windows by the time the task
returns and each spot as a whole line, exactly when the task does not leave while a decode is
running or a result is queued and no write cuts a line off. -/
theorem deliversOnce_iff (sinks : Sinks) (toJson : WsprSpot → Except Text Text)
    (hjson : Compact toJson) (es : List Event) :
    DeliversOnce sinks toJson ((machine sinks toJson).outputs .initial es) ↔
      (machine sinks toJson).EveryStep Settled .initial es ∧
      (machine sinks toJson).EveryStep (WritesLine sinks toJson) .initial es := by
  have hlines : (sinks.outFile = true →
      (fileText ((machine sinks toJson).outputs .initial es)).splitOn '\n' =
        loggedSpots ((machine sinks toJson).outputs .initial es) ++ [[]]) ↔
      (machine sinks toJson).EveryStep (WritesLine sinks toJson) .initial es := by
    cases hfile : sinks.outFile with
    | false => exact iff_of_true (fun h => absurd h Bool.false_ne_true) (everyStep_writesLine hfile _ _)
    | true => exact (forall_prop_of_true rfl).trans (splitOn_fileText_iff hfile hjson .initial es)
  rw [← hlines]
  obtain ⟨-, hout, hacc, hset⟩ | ⟨-, hout, honce, hiff⟩ := run_cases sinks toJson es
  · constructor
    · intro h
      exact ⟨hset, h.wholeLines⟩
    · rintro ⟨-, hwhole⟩
      exact ⟨hacc.atMostOnce, hwhole, fun hret => absurd hret hout⟩
  · rw [← hiff]
    constructor
    · intro h
      exact ⟨h.complete hout, h.wholeLines⟩
    · rintro ⟨hall, hwhole⟩
      exact ⟨honce, hwhole, fun _ => hall⟩

end

/-- A spot, and what `serde_json` makes of it. -/
def oneSpot : WsprSpot where
  timeUtc := "0102".toList
  snrDb := -26
  dtSec := ⟨0x3F000000⟩
  freqHz := ⟨0x4154786BC0000000⟩
  message := "WA5DXP EL49 37".toList
  callsign := "WA5DXP".toList
  grid := "EL49".toList
  powerDbm := 37
  drift := 0
  syncQuality := ⟨0x3E800000⟩
  npass := 1
  osdPass := 1
  nhardmin := 0
  decodeCycles := 28
  candidates := 5
  nfano := 13

def oneSpotJson : Text :=
  "\x7b\"time_utc\":\"0102\",\"snr_db\":-26,\"dt_sec\":0.5,\"freq_hz\":5366191.0,".toList ++
  "\"message\":\"WA5DXP EL49 37\",\"callsign\":\"WA5DXP\",\"grid\":\"EL49\",".toList ++
  "\"power_dbm\":37,\"drift\":0,\"sync_quality\":0.25,\"npass\":1,\"osd_pass\":1,".toList ++
  "\"nhardmin\":0,\"decode_cycles\":28,\"candidates\":5,\"nfano\":13\x7d".toList

theorem compact_oneSpotJson : Compact (fun _ => .ok oneSpotJson) := by
  intro spot
  refine ⟨oneSpotJson, rfl, ?_⟩
  refine List.not_mem_append (List.not_mem_append (List.not_mem_append ?_ ?_) ?_) ?_ <;>
  · refine Text.not_mem_literal rfl ?_
    decide

def oneWindow : AudioWindow := AudioWindow.new 0 ⟨0x4154786BC0000000⟩ 1 111

/-- Two windows decode at the same time, the second one finishes first, and the channel is
closed after both results were taken. -/
theorem deliversOnce_iff_overtaking :
    let sinks : Sinks := { outFile := true, chTable := some "wspr_spots" }
    DeliversOnce sinks (fun _ => .ok oneSpotJson)
      ((machine sinks (fun _ => .ok oneSpotJson)).outputs .initial
        [.arrive oneWindow, .advance, .arrive oneWindow, .advance, .complete 1 (.ok ([oneSpot], 0)),
          .complete 0 (.error "wsprd failed".toList), .advance, .advance, .advance, .advance,
          .close, .advance]) :=
  (deliversOnce_iff _ _ compact_oneSpotJson _).mpr (by decide +kernel)

/-- The last sender of windows is dropped while a result is queued: the closed channel is
polled first, the task returns, and the decoded spot is neither logged nor written. -/
theorem deliversOnce_fails :
    let sinks : Sinks := { outFile := true, chTable := none }
    let M := machine sinks (fun _ => .ok oneSpotJson)
    let es : List Event :=
      [.arrive oneWindow, .advance, .complete 0 (.ok ([oneSpot], 0)), .close, .advance]
    M.outputs .initial es =
      [.received 0 oneWindow, .decoded 0 (.ok ([oneSpot], 0)), .returned] ∧
    ¬ DeliversOnce sinks (fun _ => .ok oneSpotJson) (M.outputs .initial es) := by
  refine ⟨rfl, ?_⟩
  intro h
  obtain ⟨result, -, heq⟩ := h.complete (by decide +kernel) 0 oneWindow (by decide +kernel)
  exact handling_ne_nil 0 result heq.symm

end Wsprrs.DecodeTask
