import Wsprrs.Program.EndToEnd
import Wsprrs.System.Progress

/-! The work directories, and how the program comes to rest with its files: a directory belongs to
a decode whose result is still awaited, unless it could not be removed; every decode can end, and
what it ends with can be sent. -/
namespace Wsprrs.DecodeTask

/-- A window received is being decoded, or its result has come in. -/
theorem Accounted.awaited {sinks : Sinks} {toJson : WsprSpot → Except Text Text} {st : State}
    {out : List Action} (h : Accounted sinks toJson st out) {id : ℕ} {window : AudioWindow}
    (hreceived : .received id window ∈ out) :
    id ∈ st.decoding ∨ ∃ result, .decoded id result ∈ out := by
  have hlt := (h.received id).mp ⟨window, hreceived⟩
  by_cases hopen : id ∈ st.openIds
  · simp only [State.openIds, List.mem_append, List.mem_map] at hopen
    obtain (hdec | ⟨⟨i, result⟩, hq, rfl⟩) | hwriting := hopen
    · exact .inl hdec
    · exact .inr ⟨result, (h.queued i result hq).1⟩
    · right
      cases hphase : st.phase with
      | writing i rest spots windowStart =>
        rw [hphase] at hwriting
        rw [List.mem_singleton.mp hwriting]
        exact ⟨_, (h.writing i rest spots windowStart hphase).1⟩
      | _ => simp [hphase] at hwriting
  · obtain ⟨result, hdecoded, -⟩ := h.handled id hlt hopen
    exact .inr ⟨result, hdecoded⟩

end Wsprrs.DecodeTask

namespace Wsprrs.Program
open EventMachine Workspace

/-- The directory is as it was on `disk`, and that of no decode. -/
def Unused {δ : Type*} (disk : Disk δ) (st : State δ) (d : δ) : Prop :=
  st.2.disk.dir d = disk.dir d ∧ ∀ id, (st.2.phase id).workDir ≠ some d

/-- The directory is that of exactly one decode, whose result the decode task has not got yet. -/
def InUse {δ : Type*} (st : State δ) (d : δ) : Prop :=
  ∃ id ∈ st.1.pipeline.output.decoding, (st.2.phase id).workDir = some d ∧
    ∀ j, (st.2.phase j).workDir = some d → j = id

section
variable {δ : Type*} [DecidableEq δ] (cfg : Config) (sinks : DecodeTask.Sinks)
  (toJson : WsprSpot → Except Text Text) (disk : Disk δ) (wisdom : Option (List UInt8))
  (es : List (Event δ))

/-- A decode whose window was received is over, or its result is still awaited. -/
theorem awaited_or_done {id : ℕ} {window : AudioWindow}
    (h : ((machine cfg sinks toJson δ).after (.initial disk wisdom) es).1.pipeline.spawned[id]? =
      some window) :
    id ∈ ((machine cfg sinks toJson δ).after (.initial disk wisdom) es).1.pipeline.output.decoding ∨
      ∃ result, ((machine cfg sinks toJson δ).after (.initial disk wisdom) es).2.phase id =
        .done result := by
  have haccount := System.accounted_decodes cfg sinks toJson
    (systemEvents cfg sinks toJson disk wisdom es)
  rw [← system_after, ← decodeTask_outputs] at haccount
  refine (haccount.awaited ((received_iff cfg sinks toJson disk wisdom es).mpr h)).imp_right ?_
  rintro ⟨r, hdecoded⟩
  obtain ⟨w, result, -, hdone, -⟩ := done_of_decoded cfg sinks toJson disk wisdom es hdecoded
  exact ⟨result, hdone⟩

/-- Only such a decode has begun. -/
theorem spawned_of_begun {id : ℕ}
    (h : ((machine cfg sinks toJson δ).after (.initial disk wisdom) es).2.phase id ≠ .idle) :
    ∃ window, ((machine cfg sinks toJson δ).after (.initial disk wisdom)
      es).1.pipeline.spawned[id]? = some window := by
  rw [files_after] at h
  obtain ⟨window, hwindow⟩ := windowOf_run disk wisdom _ id h
  exact ⟨window, spawned_of_windowOf cfg sinks toJson disk wisdom es hwindow⟩

/-- The result of a decode that has a work directory is still awaited. -/
theorem decoding_of_workDir {id : ℕ} {d : δ}
    (h : (((machine cfg sinks toJson δ).after (.initial disk wisdom) es).2.phase id).workDir = some d) :
    id ∈ ((machine cfg sinks toJson δ).after (.initial disk wisdom) es).1.pipeline.output.decoding := by
  have hbegun : ((machine cfg sinks toJson δ).after (.initial disk wisdom) es).2.phase id ≠ .idle := by
    intro hidle
    simp [hidle, Phase.workDir] at h
  obtain ⟨window, hwindow⟩ := spawned_of_begun cfg sinks toJson disk wisdom es hbegun
  obtain hdec | ⟨result, hdone⟩ := awaited_or_done cfg sinks toJson disk wisdom es hwindow
  · exact hdec
  · simp [hdone, Phase.workDir] at h

/-- The directory was that of a decode that ended without being able to remove it. -/
def Lost (d : δ) : Prop :=
  disk.dir d = none ∧ LeftBehind disk wisdom (fileEvents cfg sinks toJson disk wisdom es) d

theorem clean_after :
    Clean disk (LeftBehind disk wisdom (fileEvents cfg sinks toJson disk wisdom es))
      ((machine cfg sinks toJson δ).after (.initial disk wisdom) es).2 := by
  rw [files_after]
  exact clean_run disk wisdom _

/-- In every run of the program, every directory below `temp_dir` is as it was at the start, or it
was not there then and is the work directory of exactly one decode, whose result the decode task
is still waiting for, or of one that could not remove it. -/
theorem workDirs_awaited (d : δ) :
    Unused disk ((machine cfg sinks toJson δ).after (.initial disk wisdom) es) d ∨
      disk.dir d = none ∧
        InUse ((machine cfg sinks toJson δ).after (.initial disk wisdom) es) d ∨
      Lost cfg sinks toJson disk wisdom es d := by
  have hclean := clean_after cfg sinks toJson disk wisdom es
  generalize hst : (machine cfg sinks toJson δ).after (.initial disk wisdom) es = st at hclean ⊢
  by_cases howned : ∃ id, (st.2.phase id).workDir = some d
  · obtain ⟨id, hid⟩ := howned
    refine .inr (.inl ⟨hclean.fresh id d hid, id, ?_, hid, ?_⟩)
    · subst hst
      exact decoding_of_workDir cfg sinks toJson disk wisdom es hid
    · intro j hj
      exact st.2.separate.disjoint j id d hj hid
  · rw [not_exists] at howned
    obtain hsame | hlost := hclean.kept d howned
    · exact .inl ⟨hsame, howned⟩
    · exact .inr (.inr hlost)

end

/-- A step that the program and its decodes take on their own. -/
def Event.Internal {δ : Type*} : Event δ → Prop
  | .system e => e.Internal
  | .wisdom _ => False
  | _ => True

section
variable {δ : Type*} [DecidableEq δ] (cfg : Config) (sinks : DecodeTask.Sinks)
  (toJson : WsprSpot → Except Text Text)

/-- What a decode does in its directory, the loops do not notice. -/
theorem after_tasks (st : State δ) (id : ℕ) {ts : List (TaskEvent δ)} (h : ∀ w, .spawn w ∉ ts) :
    (machine cfg sinks toJson δ).after st (ts.map (Event.task id)) =
      (st.1, (Workspace.machine ℕ δ).after st.2 (ts.map (Workspace.Event.task id))) := by
  induction ts generalizing st with
  | nil => rfl
  | cons t ts ih =>
    have hts : ∀ w, .spawn w ∉ ts := fun w hw => h w (List.mem_cons_of_mem _ hw)
    have hstep : ((machine cfg sinks toJson δ).step st (.task id t)).1 =
        (st.1, ((Workspace.machine ℕ δ).step st.2 (.task id t)).1) := by
      cases t with
      | spawn w => exact absurd List.mem_cons_self (h w)
      | _ => rfl
    rw [List.map_cons, after_cons, hstep, ih _ hts]
    rfl

/-- After `spawn` a decode has begun. -/
theorem spawn_step (st : State δ) {id : ℕ} {window : AudioWindow}
    (h : st.1.pipeline.spawned[id]? = some window) :
    ((machine cfg sinks toJson δ).step st (.spawn id)).1.1 = st.1 ∧
      ((machine cfg sinks toJson δ).step st (.spawn id)).1.2.phase id ≠ .idle := by
  have hfocus : filesFocus st (.spawn id) = some (.task id (.spawn window)) := by
    simp [filesFocus, h]
  refine ⟨rfl, ?_⟩
  rw [files_step, hfocus, Option.toList_some, after_cons, after_nil]
  simp only [machine_step, Workspace.step, Function.update_self]
  cases st.2.phase id <;> simp [taskStep]

theorem complete_ne {st : System.State} {id : ℕ} {outcome : Pipeline.Outcome} {window : AudioWindow}
    (hwindow : st.pipeline.spawned[id]? = some window) (hid : id ∈ st.pipeline.output.decoding) :
    (System.step cfg sinks toJson st (.complete id outcome)).1 ≠ st := by
  intro hsame
  have hpipe := System.pipeline_of_quiet cfg sinks toJson hsame
  simp only [Pipeline.step, hwindow] at hpipe
  exact DecodeTask.not_decoding_of_complete sinks toJson _ (congrArg Pipeline.State.output hpipe) hid

theorem decoding_of_complete {st : System.State} {id : ℕ} {outcome : Pipeline.Outcome}
    (h : (System.step cfg sinks toJson st (.complete id outcome)).1 ≠ st) :
    (∃ window, st.pipeline.spawned[id]? = some window) ∧ id ∈ st.pipeline.output.decoding := by
  cases hwindow : st.pipeline.spawned[id]? with
  | none => exact absurd (by simp [System.step, System.pipelineStep, Pipeline.step, hwindow]) h
  | some window =>
    refine ⟨⟨window, rfl⟩, ?_⟩
    by_contra hid
    refine h ?_
    simp [System.step, System.pipelineStep, Pipeline.step, hwindow, Pipeline.outputStep,
      DecodeTask.step, hid, Pipeline.receivedBy]

variable (disk : Disk δ) (wisdom : Option (List UInt8)) (es : List (Event δ))

/-- A decode that is still running can be brought to its end and joined. -/
theorem exists_join {id : ℕ} {window : AudioWindow}
    (hwindow : ((machine cfg sinks toJson δ).after (.initial disk wisdom) es).1.pipeline.spawned[id]? =
      some window) :
    ∃ more, (∀ e ∈ more, e.Internal) ∧ ∃ outcome,
      ((machine cfg sinks toJson δ).after (.initial disk wisdom) (es ++ more)).1 =
        (System.step cfg sinks toJson
          ((machine cfg sinks toJson δ).after (.initial disk wisdom) es).1 (.complete id outcome)).1 := by
  obtain ⟨hkept, hbegun⟩ := spawn_step cfg sinks toJson _ hwindow
  obtain ⟨ts, hts, result, hdone⟩ := exists_done _ hbegun
  have hafter : (machine cfg sinks toJson δ).after (.initial disk wisdom)
      (es ++ .spawn id :: ts.map (Event.task id)) =
        (((machine cfg sinks toJson δ).after (.initial disk wisdom) es).1,
          (Workspace.machine ℕ δ).after
            ((machine cfg sinks toJson δ).step
              ((machine cfg sinks toJson δ).after (.initial disk wisdom) es) (.spawn id)).1.2
            (ts.map (Workspace.Event.task id))) := by
    rw [after_append, after_cons, after_tasks cfg sinks toJson _ id hts, hkept]
  -- the result that the decode ends with is one that some outcome gives
  have hphase : ((machine cfg sinks toJson δ).after (.initial disk wisdom)
      (es ++ .spawn id :: ts.map (Event.task id))).2.phase id = .done result := by
    rw [hafter]
    exact hdone
  have hown := hphase
  rw [files_after] at hown
  obtain ⟨w, hw, outcome, hresult, -⟩ := ownResult_run disk wisdom _ id hown
  have hsame := spawned_of_windowOf cfg sinks toJson disk wisdom _ hw
  rw [hafter, hwindow] at hsame
  obtain rfl := Option.some.inj hsame
  have hends : ends ((machine cfg sinks toJson δ).after (.initial disk wisdom)
      (es ++ .spawn id :: ts.map (Event.task id))) id outcome = true := by
    simp only [ends, hphase]
    rw [hafter, hwindow]
    exact decide_eq_true hresult.symm
  refine ⟨.spawn id :: ts.map (Event.task id) ++ [.join id outcome], ?_, outcome, ?_⟩
  · intro e he
    simp only [List.cons_append, List.mem_cons, List.mem_append, List.mem_map, List.not_mem_nil,
      or_false] at he
    obtain rfl | ⟨t, -, rfl⟩ | rfl := he <;> trivial
  · have hfocus : systemFocus ((machine cfg sinks toJson δ).after (.initial disk wisdom)
        (es ++ .spawn id :: ts.map (Event.task id))) (.join id outcome) =
          some (.complete id outcome) := if_pos hends
    rw [← List.append_assoc, after_append, after_cons, after_nil, system_step, hfocus, hafter]
    rfl

/-- As long as some step of the loops has an effect, the program can do something about it. -/
theorem exists_less {e : System.Event} (he : e.Internal)
    (hne : (System.step cfg sinks toJson
      ((machine cfg sinks toJson δ).after (.initial disk wisdom) es).1 e).1 ≠
        ((machine cfg sinks toJson δ).after (.initial disk wisdom) es).1) :
    ∃ more, (∀ e ∈ more, e.Internal) ∧
      ((machine cfg sinks toJson δ).after (.initial disk wisdom) (es ++ more)).1.work <
        ((machine cfg sinks toJson δ).after (.initial disk wisdom) es).1.work := by
  have hless := (System.step_work cfg sinks toJson _ he).resolve_left hne
  have hdirect (hfocus : systemFocus ((machine cfg sinks toJson δ).after (.initial disk wisdom) es)
      (.system e) = some e) : ∃ more : List (Event δ), (∀ e ∈ more, e.Internal) ∧
      ((machine cfg sinks toJson δ).after (.initial disk wisdom) (es ++ more)).1.work <
        ((machine cfg sinks toJson δ).after (.initial disk wisdom) es).1.work := by
    refine ⟨[.system e], ?_, ?_⟩
    · intro e' he'
      rw [List.mem_singleton.mp he']
      exact he
    · rw [after_append, after_cons, after_nil, system_step, hfocus]
      exact hless
  cases e with
  | complete id outcome =>
    -- another outcome than that of the step may come out, but the decode is joined
    obtain ⟨⟨window, hwindow⟩, hid⟩ := decoding_of_complete cfg sinks toJson hne
    obtain ⟨more, hmore, outcome', hafter⟩ := exists_join cfg sinks toJson disk wisdom es hwindow
    refine ⟨more, hmore, ?_⟩
    rw [hafter]
    have hinternal : (System.Event.complete id outcome').Internal := trivial
    exact (System.step_work cfg sinks toJson _ hinternal).resolve_left
      (complete_ne cfg sinks toJson hwindow hid)
  | _ => exact hdirect rfl

theorem exists_quiet :
    ∃ more, (∀ e ∈ more, e.Internal) ∧ (System.machine cfg sinks toJson).Quiescent
      System.Event.Internal
        ((machine cfg sinks toJson δ).after (.initial disk wisdom) (es ++ more)).1 := by
  have hwf : WellFounded (fun es es' : List (Event δ) =>
      ((machine cfg sinks toJson δ).after (.initial disk wisdom) es).1.work <
        ((machine cfg sinks toJson δ).after (.initial disk wisdom) es').1.work) :=
    InvImage.wf _ wellFounded_lt
  induction es using hwf.induction with
  | _ es ih =>
    by_cases hquiet : (System.machine cfg sinks toJson).Quiescent System.Event.Internal
        ((machine cfg sinks toJson δ).after (.initial disk wisdom) es).1
    · exact ⟨[], by simp, by simpa using hquiet⟩
    · obtain ⟨e, he, hne⟩ := by simpa only [Quiescent, not_forall, exists_prop] using hquiet
      obtain ⟨first, hfirst, hless⟩ := exists_less cfg sinks toJson disk wisdom es he hne
      obtain ⟨more, hmore, hquiet⟩ := ih (es ++ first) hless
      refine ⟨first ++ more, ?_, by rwa [← List.append_assoc]⟩
      intro e he
      obtain he | he := List.mem_append.mp he
      · exact hfirst e he
      · exact hmore e he

/-- Everything is done, and nothing is left of it but the outputs and what could not be removed. -/
structure Finished : Prop where
  delivered : System.Delivered cfg sinks toJson (systemEvents cfg sinks toJson disk wisdom es)
  disk : ∀ d, ((machine cfg sinks toJson δ).after (.initial disk wisdom) es).2.disk.dir d = disk.dir d ∨
    Lost cfg sinks toJson disk wisdom es d

theorem finished_of_quiet (hquiet : (System.machine cfg sinks toJson).Quiescent System.Event.Internal
      ((machine cfg sinks toJson δ).after (.initial disk wisdom) es).1) :
    Finished cfg sinks toJson disk wisdom es := by
  rw [system_after] at hquiet
  have hdelivered := System.delivered_of_quiescent cfg sinks toJson _ hquiet
  refine ⟨hdelivered, ?_⟩
  have hnone := hdelivered.drained.decoding
  rw [← system_after] at hnone
  intro d
  refine (clean_after cfg sinks toJson disk wisdom es).kept d ?_
  intro id hid
  have hdec := decoding_of_workDir cfg sinks toJson disk wisdom es hid
  rw [hnone] at hdec
  contradiction

/-- When the loops are at rest, no decode has anything to do either. -/
theorem quiescent_of_quiet
    (hquiet : (System.machine cfg sinks toJson).Quiescent System.Event.Internal
      ((machine cfg sinks toJson δ).after (.initial disk wisdom) es).1) :
    (machine cfg sinks toJson δ).Quiescent Event.Internal
      ((machine cfg sinks toJson δ).after (.initial disk wisdom) es) := by
  have hnone : ((machine cfg sinks toJson δ).after (.initial disk wisdom)
      es).1.pipeline.output.decoding = [] := by
    have hfinished := finished_of_quiet cfg sinks toJson disk wisdom es hquiet
    rw [system_after]
    exact hfinished.delivered.drained.decoding
  have hover (id : ℕ) : ((machine cfg sinks toJson δ).after (.initial disk wisdom) es).2.phase id =
      .idle ∧ ((machine cfg sinks toJson δ).after (.initial disk wisdom)
        es).1.pipeline.spawned[id]? = none ∨
      ∃ result, ((machine cfg sinks toJson δ).after (.initial disk wisdom) es).2.phase id =
        .done result := by
    cases hwindow : ((machine cfg sinks toJson δ).after (.initial disk wisdom)
        es).1.pipeline.spawned[id]? with
    | some window =>
      refine .inr ((awaited_or_done cfg sinks toJson disk wisdom es hwindow).resolve_left ?_)
      simp [hnone]
    | none =>
      refine .inl ⟨?_, rfl⟩
      by_contra hrun
      obtain ⟨window, hw⟩ := spawned_of_begun cfg sinks toJson disk wisdom es hrun
      rw [hw] at hwindow
      contradiction
  generalize (machine cfg sinks toJson δ).after (.initial disk wisdom) es = st at hquiet hover ⊢
  have htask (id : ℕ) (t : TaskEvent δ) (ht : ∀ w, t = .spawn w → st.2.phase id ≠ .idle) :
      (Workspace.step st.2 (.task id t)).1 = st.2 := by
    have hstay : taskStep st.2.wisdom st.2.disk (st.2.phase id) t =
        (st.2.disk, st.2.phase id, []) := by
      obtain ⟨hidle, -⟩ | ⟨result, hdone⟩ := hover id
      · cases t with
        | spawn w => exact absurd hidle (ht w rfl)
        | _ => rw [hidle]; rfl
      · rw [hdone, taskStep_done]
    refine Workspace.State.ext ?_ rfl ?_
    · simp only [Workspace.step, hstay]
    · simp only [Workspace.step, hstay, Function.update_eq_self]
  intro e he
  refine Prod.ext ?_ ?_
  · rw [system_step]
    cases hfocus : systemFocus st e with
    | none => rfl
    | some d =>
      refine hquiet d ?_
      cases e with
      | system e => cases e <;> cases hfocus <;> exact he
      | join id outcome =>
        simp only [systemFocus, Option.ite_none_right_eq_some] at hfocus
        obtain ⟨-, heq⟩ := hfocus
        cases heq
        trivial
      | _ => contradiction
  · rw [files_step]
    cases hfocus : filesFocus st e with
    | none => rfl
    | some d =>
      cases e with
      | spawn id =>
        obtain ⟨window, hwindow, rfl⟩ := Option.map_eq_some_iff.mp hfocus
        refine htask id _ ?_
        rintro w -
        obtain ⟨-, hnospawn⟩ | ⟨result, hdone⟩ := hover id
        · rw [hnospawn] at hwindow
          contradiction
        · rw [hdone]
          simp
      | task id t => cases t <;> cases hfocus <;> exact htask id _ (by simp)
      | wisdom content => exact he.elim
      | _ => contradiction

theorem after_of_quiescent {st : State δ} {more : List (Event δ)}
    (h : (machine cfg sinks toJson δ).Quiescent Event.Internal st) (hmore : ∀ e ∈ more, e.Internal) :
    (machine cfg sinks toJson δ).after st more = st := by
  induction more with
  | nil => rfl
  | cons e more ih =>
    rw [after_cons, h e (hmore e List.mem_cons_self)]
    exact ih (fun e' he' => hmore e' (List.mem_cons_of_mem _ he'))

/-- Wherever the program comes to rest after a run, with its decodes and without new datagrams and
ticks, every datagram that was not dropped was handled, every window sealed was received, decoded
and handled, and all directories are as they were at the start but those that could not be removed.
And it can come to rest after every run, whatever the decodes are doing in their directories. -/
theorem comes_to_rest_clean :
    (∀ es, (machine cfg sinks toJson δ).Quiescent Event.Internal
      ((machine cfg sinks toJson δ).after (.initial disk wisdom) es) →
        Finished cfg sinks toJson disk wisdom es) ∧
    ∀ es, ∃ more, (∀ e ∈ more, e.Internal) ∧ (machine cfg sinks toJson δ).Quiescent Event.Internal
      ((machine cfg sinks toJson δ).after (.initial disk wisdom) (es ++ more)) := by
  constructor
  · intro es hquiet
    refine finished_of_quiet cfg sinks toJson disk wisdom es ?_
    intro e he
    by_contra hne
    obtain ⟨more, hmore, hless⟩ := exists_less cfg sinks toJson disk wisdom es he hne
    rw [after_append, after_of_quiescent cfg sinks toJson hquiet hmore] at hless
    exact lt_irrefl _ hless
  · intro es
    obtain ⟨more, hmore, hquiet⟩ := exists_quiet cfg sinks toJson disk wisdom es
    exact ⟨more, hmore, quiescent_of_quiet cfg sinks toJson disk wisdom (es ++ more) hquiet⟩

end
end Wsprrs.Program
