import Wsprrs.DecodeTask.Delivery

/-! The decodes run concurrently, but their results are handled one after the other: what the
task has logged, written and inserted is at every moment a beginning of what handling the results
in the order in which they came in would cause, and what is missing is still to come. -/
namespace Wsprrs.DecodeTask

/-- The effects in order, each with the number of its window. -/
def effects (out : List Action) : List (ℕ × Effect) :=
  out.filterMap (fun a =>
    match a with
    | .effect id e => some (id, e)
    | _ => none)

/-- The results that came in, in order. -/
def completed (out : List Action) : List (ℕ × DecodeResult) :=
  out.filterMap (fun a =>
    match a with
    | .decoded id result => some (id, result)
    | _ => none)

/-- The results handled one after the other. -/
def serial (sinks : Sinks) (toJson : WsprSpot → Except Text Text) (results : List (ℕ × DecodeResult)) :
    List (ℕ × Effect) :=
  results.flatMap (fun p => (handling sinks toJson p.1 p.2).map (Prod.mk p.1))

/-- What is still to be done for the result that is being written. -/
def Phase.rest (sinks : Sinks) (toJson : WsprSpot → Except Text Text) : Phase → List (ℕ × Effect)
  | .writing id rest spots windowStart =>
    (spotsEffects sinks toJson id rest ++ insertBatch sinks id spots windowStart).map (Prod.mk id)
  | _ => []

/-- What is still to be done for the results that came in. -/
def State.pending (sinks : Sinks) (toJson : WsprSpot → Except Text Text) (st : State) :
    List (ℕ × Effect) :=
  st.phase.rest sinks toJson ++ serial sinks toJson st.spotQueue

@[simp] theorem effects_append (out out' : List Action) :
    effects (out ++ out') = effects out ++ effects out' := List.filterMap_append
@[simp] theorem effects_nil : effects [] = [] := rfl
@[simp] theorem effects_received (id : ℕ) (window : AudioWindow) : effects [.received id window] = [] := rfl
@[simp] theorem effects_decoded (id : ℕ) (result : DecodeResult) : effects [.decoded id result] = [] := rfl
@[simp] theorem effects_returned : effects [.returned] = [] := rfl
@[simp] theorem effects_map (id : ℕ) (es : List Effect) :
    effects (es.map (Action.effect id)) = es.map (Prod.mk id) := by
  simp [effects, List.filterMap_map]

@[simp] theorem completed_append (out out' : List Action) :
    completed (out ++ out') = completed out ++ completed out' := List.filterMap_append
@[simp] theorem completed_nil : completed [] = [] := rfl
@[simp] theorem completed_received (id : ℕ) (window : AudioWindow) :
    completed [.received id window] = [] := rfl
@[simp] theorem completed_decoded (id : ℕ) (result : DecodeResult) :
    completed [.decoded id result] = [(id, result)] := rfl
@[simp] theorem completed_returned : completed [.returned] = [] := rfl
@[simp] theorem completed_map (id : ℕ) (es : List Effect) :
    completed (es.map (Action.effect id)) = [] := by
  simp [completed, List.filterMap_map]

section
variable {sinks : Sinks} {toJson : WsprSpot → Except Text Text} {st : State} {out : List Action}

@[simp] theorem serial_nil : serial sinks toJson [] = [] := rfl
@[simp] theorem serial_append (rs rs' : List (ℕ × DecodeResult)) :
    serial sinks toJson (rs ++ rs') = serial sinks toJson rs ++ serial sinks toJson rs' :=
  List.flatMap_append
theorem serial_cons (id : ℕ) (result : DecodeResult) (rs : List (ℕ × DecodeResult)) :
    serial sinks toJson ((id, result)::rs) =
      (handling sinks toJson id result).map (Prod.mk id) ++ serial sinks toJson rs := rfl

/-- The effects so far and those still to come are those of the results that came in; each came
from one decode, which is over, of a window received before. -/
structure InOrder (sinks : Sinks) (toJson : WsprSpot → Except Text Text) (st : State)
    (out : List Action) : Prop where
  effects : effects out ++ st.pending sinks toJson = serial sinks toJson (completed out)
  nodup : ((completed out).map Prod.fst ++ st.decoding).Nodup
  lt : ∀ id ∈ (completed out).map Prod.fst ++ st.decoding, id < st.nextId
  received : ∀ id, (∃ window, .received id window ∈ out) ↔ id < st.nextId

theorem inOrder_initial : InOrder sinks toJson .initial [] := by
  constructor <;> simp [State.initial, State.pending, Phase.rest]

namespace InOrder

/-- A step that only does what was still to be done. -/
theorem cause (h : InOrder sinks toJson st out) {st' : State} {id : ℕ} (es : List Effect)
    (hdec : st'.decoding = st.decoding) (hnext : st'.nextId = st.nextId)
    (hpending : st.pending sinks toJson = es.map (Prod.mk id) ++ st'.pending sinks toJson) :
    InOrder sinks toJson st' (out ++ es.map (Action.effect id)) := by
  refine ⟨?_, ?_, ?_, ?_⟩
  · rw [effects_append, effects_map, completed_append, completed_map, List.append_nil,
      List.append_assoc, ← hpending, h.effects]
  · rw [hdec, completed_append, completed_map, List.append_nil]
    exact h.nodup
  · rw [hdec, hnext, completed_append, completed_map, List.append_nil]
    exact h.lt
  · intro i
    rw [hnext]
    simpa using h.received i

/-- A step that does nothing for any result. -/
theorem quiet (h : InOrder sinks toJson st out) (st' : State) (hdec : st'.decoding = st.decoding)
    (hnext : st'.nextId = st.nextId) (hpending : st'.pending sinks toJson = st.pending sinks toJson) :
    InOrder sinks toJson st' out := by
  have hnothing : st.pending sinks toJson =
      ([] : List Effect).map (Prod.mk 0) ++ st'.pending sinks toJson := by simp [hpending]
  simpa using h.cause [] hdec hnext hnothing

theorem receive (h : InOrder sinks toJson st out) (window : AudioWindow) (rest : List AudioWindow) :
    InOrder sinks toJson
      { st with winQueue := rest, decoding := st.decoding ++ [st.nextId], nextId := st.nextId + 1 }
      (out ++ [.received st.nextId window]) := by
  have hnew : st.nextId ∉ (completed out).map Prod.fst ++ st.decoding :=
    fun hmem => absurd (h.lt _ hmem) (Nat.lt_irrefl _)
  refine ⟨?_, ?_, ?_, ?_⟩
  · simpa [State.pending] using h.effects
  · rw [completed_append, completed_received, List.append_nil, ← List.append_assoc,
      List.nodup_append]
    refine ⟨h.nodup, List.nodup_singleton _, ?_⟩
    rintro id hid i hi rfl
    rw [List.mem_singleton.mp hi] at hid
    exact hnew hid
  · intro id hid
    rw [completed_append, completed_received, List.append_nil, ← List.append_assoc,
      List.mem_append, List.mem_singleton] at hid
    obtain hid | rfl := hid
    · exact (h.lt id hid).trans (Nat.lt_succ_self _)
    · exact Nat.lt_succ_self _
  · intro id
    simp only [List.mem_append, List.mem_singleton, Action.received.injEq, exists_or, h.received id]
    constructor
    · rintro (hlt | ⟨w, rfl, -⟩) <;> omega
    · intro hlt
      obtain hlt | rfl := Nat.lt_succ_iff_lt_or_eq.mp hlt
      · exact .inl hlt
      · exact .inr ⟨window, rfl, rfl⟩

theorem complete (h : InOrder sinks toJson st out) {id : ℕ} (hid : id ∈ st.decoding)
    (result : DecodeResult) :
    InOrder sinks toJson
      { st with decoding := st.decoding.erase id, spotQueue := st.spotQueue ++ [(id,result)] }
      (out ++ [.decoded id result]) := by
  have hperm : (((completed out).map Prod.fst ++ [id]) ++ st.decoding.erase id).Perm
      ((completed out).map Prod.fst ++ st.decoding) := by
    rw [List.append_assoc]
    exact (List.perm_cons_erase hid).symm.append_left _
  refine ⟨?_, ?_, ?_, ?_⟩
  · rw [effects_append, effects_decoded, List.append_nil, completed_append, completed_decoded,
      serial_append, ← h.effects, State.pending, State.pending, serial_append, List.append_assoc,
      List.append_assoc]
  · rw [completed_append, completed_decoded, List.map_append]
    exact hperm.nodup_iff.mpr h.nodup
  · intro i hi
    rw [completed_append, completed_decoded, List.map_append] at hi
    exact h.lt i (hperm.mem_iff.mp hi)
  · intro i
    simpa using h.received i

/-- A decode that ends after the task has returned. -/
theorem abandon (h : InOrder sinks toJson st out) (id : ℕ) :
    InOrder sinks toJson { st with decoding := st.decoding.erase id } out := by
  refine ⟨h.effects, ?_, ?_, h.received⟩
  · exact h.nodup.sublist ((List.erase_sublist).append_left _)
  · intro i hi
    exact h.lt i (((List.erase_sublist).append_left _).subset hi)

theorem poll (h : InOrder sinks toJson st out) (hphase : st.phase = .selecting) :
    InOrder sinks toJson (poll st).1 (out ++ (poll st).2) := by
  unfold DecodeTask.poll
  cases hwin : st.winQueue with
  | cons window rest => exact h.receive window rest
  | nil =>
    by_cases hclosed : st.winClosed = true
    · simp only [hclosed, if_true]
      have hquiet := h.quiet { st with winClosed := true, phase := .returned } rfl rfl
        (by simp [State.pending, Phase.rest, hphase])
      refine ⟨?_, ?_, ?_, ?_⟩
      · simpa [State.pending] using hquiet.effects
      · simpa using hquiet.nodup
      · simpa using hquiet.lt
      · intro id
        simpa using hquiet.received id
    · simp only [hclosed, Bool.false_eq_true, if_false]
      cases hq : st.spotQueue with
      | nil => simpa using h
      | cons p rest =>
        obtain ⟨id, result⟩ := p
        cases result with
        | ok p =>
          refine h.cause _ rfl rfl ?_
          simp only [State.pending, Phase.rest, hphase, hq, serial_cons, handling, takeResult,
            List.map_append, List.nil_append, List.append_assoc]
        | error e =>
          refine h.cause [.logged "wsprd decode failed" e] rfl rfl ?_
          simp only [State.pending, Phase.rest, hphase, hq, serial_cons, handling, takeResult,
            List.nil_append]

theorem advance (h : InOrder sinks toJson st out) :
    InOrder sinks toJson (advance sinks toJson st).1 (out ++ (advance sinks toJson st).2) := by
  unfold DecodeTask.advance
  cases hphase : st.phase with
  | selecting => exact h.poll hphase
  | returned => simpa using h
  | writing id rest spots windowStart =>
    cases rest with
    | nil => exact h.cause _ rfl rfl (by simp [State.pending, Phase.rest, hphase, spotsEffects])
    | cons spot rest =>
      exact h.cause _ rfl rfl (by simp [State.pending, Phase.rest, hphase, spotsEffects, spotEffects])

theorem step (h : InOrder sinks toJson st out) (e : Event) :
    InOrder sinks toJson (step sinks toJson st e).1 (out ++ (step sinks toJson st e).2) := by
  cases e with
  | arrive window =>
    simp only [DecodeTask.step]
    split_ifs
    · simpa using h
    · simpa using h.quiet { st with winQueue := st.winQueue ++ [window] } rfl rfl rfl
  | close => simpa [DecodeTask.step] using h.quiet { st with winClosed := true } rfl rfl rfl
  | complete id result =>
    by_cases hid : id ∈ st.decoding
    · by_cases hret : st.phase = .returned
      · simpa [DecodeTask.step, hid, hret] using h.abandon id
      · simpa [DecodeTask.step, hid, hret] using h.complete hid result
    · simpa [DecodeTask.step, hid] using h
  | advance => exact h.advance

end InOrder

theorem inOrder_run (sinks : Sinks) (toJson : WsprSpot → Except Text Text) (es : List Event) :
    InOrder sinks toJson ((machine sinks toJson).after .initial es)
      ((machine sinks toJson).outputs .initial es) := by
  induction es using List.reverseRecOn with
  | nil => exact inOrder_initial
  | append_singleton es e ih => simpa using ih.step e

/-- In every run, however the decodes overlap: the effects so far, followed by those still to
come, are those of handling the results one by one in the order in which the decodes ended, so the
spots of two windows never mix; no window has two results, and each result is of a window that
was received. -/
theorem effects_serial (sinks : Sinks) (toJson : WsprSpot → Except Text Text) (es : List Event) :
    let st := (machine sinks toJson).after .initial es
    let out := (machine sinks toJson).outputs .initial es
    effects out ++ st.pending sinks toJson = serial sinks toJson (completed out) ∧
    ((completed out).map Prod.fst).Nodup ∧
    ∀ id result, (id, result) ∈ completed out → ∃ window, .received id window ∈ out := by
  intro st out
  have h := inOrder_run sinks toJson es
  refine ⟨h.effects, (List.nodup_append.mp h.nodup).1, ?_⟩
  intro id result hmem
  exact (h.received id).mpr (h.lt id (List.mem_append_left _ (List.mem_map_of_mem hmem)))

end
end Wsprrs.DecodeTask
