import Wsprrs.DecodeTask.Serial
import Wsprrs.Pipeline.Progress
import Wsprrs.Pipeline.Stamp
import Wsprrs.System.Backlog

/-! The program never gets stuck: without new datagrams and ticks it comes to rest, and at rest
everything that was received, sealed and decoded has reached the outputs. -/
namespace Wsprrs.System
open Shutdown

/-- A step that the program takes on its own: no datagram arrives and no tick. -/
def Event.Internal : Event → Prop
  | .packet _ _ => True
  | .send => True
  | .complete _ _ => True
  | .advance => True
  | _ => False

/-- The packets that are waiting, then what is left to do for those before. -/
def State.work (st : State) : ℕ ×ₗ (ℕ ×ₗ ℕ) := toLex (st.packets.items.length, st.pipeline.work)

section
variable (cfg : Config) (sinks : DecodeTask.Sinks) (toJson : WsprSpot → Except Text Text)
  (st : State)

theorem pipelineStep_work {e : Pipeline.Event} (he : e.isInternal = true) :
    (pipelineStep cfg sinks toJson st e).1 = st ∨
      (pipelineStep cfg sinks toJson st e).1.work < st.work := by
  obtain hsame | hless := Pipeline.step_work cfg sinks toJson st.pipeline he
  · left
    simp only [pipelineStep, hsame]
  · right
    rw [State.work, State.work, Prod.Lex.toLex_lt_toLex]
    exact .inr ⟨rfl, hless⟩

/-- A step that has an effect leaves less to do. -/
theorem step_work {e : Event} (he : e.Internal) :
    (step cfg sinks toJson st e).1 = st ∨ (step cfg sinks toJson st e).1.work < st.work := by
  cases e with
  | packet now lag =>
    simp only [step, packetEvent]
    cases hitems : st.packets.items with
    | nil => exact .inl rfl
    | cons pkt rest =>
      simp only
      split_ifs
      · right
        rw [State.work, State.work, Prod.Lex.toLex_lt_toLex]
        left
        simp [pipelineStep, LossyQueue.take, hitems]
      · exact .inl rfl
  | send => exact pipelineStep_work cfg sinks toJson st rfl
  | complete id outcome => exact pipelineStep_work cfg sinks toJson st rfl
  | advance => exact pipelineStep_work cfg sinks toJson st rfl
  | _ => exact he.elim

theorem outputFocus_ne_close {st : Pipeline.State} {e : Pipeline.Event} (he : e ≠ .leave) :
    Pipeline.outputFocus st e ≠ some .close := by
  cases e with
  | leave => exact absurd rfl he
  | capture e => simp [Pipeline.outputFocus]
  | advance => simp [Pipeline.outputFocus]
  | send =>
    simp only [Pipeline.outputFocus]
    split
    · simp
    · split_ifs <;> simp
  | complete id outcome =>
    simp only [Pipeline.outputFocus]
    split <;> simp

theorem pipelineFocus_ne_leave (e : Event) : pipelineFocus st e ≠ some .leave := by
  cases e with
  | packet now lag => cases h : packetEvent st now lag <;> simp [pipelineFocus, h]
  | _ => simp [pipelineFocus]

/-- The window channel stays open. -/
theorem winClosed_run (es : List Event) :
    ((machine cfg sinks toJson).after .initial es).pipeline.output.winClosed = false := by
  induction es using List.reverseRecOn with
  | nil => rfl
  | append_singleton es e ih =>
    rw [EventMachine.after_append, EventMachine.after_cons, EventMachine.after_nil]
    generalize (machine cfg sinks toJson).after .initial es = st at ih ⊢
    have hview : ((machine cfg sinks toJson).step st e).1.pipeline =
        (Pipeline.machine cfg sinks toJson).after st.pipeline (pipelineFocus st e).toList :=
      (pipelineComponent cfg sinks toJson).view_step st e
    rw [hview]
    cases hfocus : pipelineFocus st e with
    | none => exact ih
    | some d =>
      have hleave : d ≠ .leave := by
        rintro rfl
        exact pipelineFocus_ne_leave st e hfocus
      have houtput : ((Pipeline.machine cfg sinks toJson).step st.pipeline d).1.output =
          (DecodeTask.machine sinks toJson).after st.pipeline.output
            (Pipeline.outputFocus st.pipeline d).toList :=
        (Pipeline.outputComponent cfg sinks toJson).view_step st.pipeline d
      rw [Option.toList_some, EventMachine.after_cons, EventMachine.after_nil, houtput]
      cases hd : Pipeline.outputFocus st.pipeline d with
      | none => exact ih
      | some d' =>
        have hclose : d' ≠ .close := by
          rintro rfl
          exact outputFocus_ne_close hleave hd
        have hiff := DecodeTask.step_winClosed sinks toJson st.pipeline.output d'
        rw [Option.toList_some, EventMachine.after_cons, EventMachine.after_nil,
          DecodeTask.machine_step]
        simpa [ih, hclose] using hiff

/-- In a run of the program the decode task is always there. -/
theorem accounted_decodes (es : List Event) :
    DecodeTask.Accounted sinks toJson ((machine cfg sinks toJson).after .initial es).pipeline.output
      (decoded cfg sinks toJson es) := by
  have hflow := Pipeline.flow_run cfg sinks toJson (tasks cfg sinks toJson es)
  rw [decoded_eq, output_after]
  obtain ⟨-, -, haccount, -⟩ | ⟨hret, -⟩ :=
    DecodeTask.run_cases sinks toJson (decodes cfg sinks toJson es)
  · exact haccount
  · have hopen := winClosed_run cfg sinks toJson es
    rw [← pipeline_after] at hflow
    rw [← output_after] at hret
    rw [hflow.returned hret] at hopen
    contradiction

/-- Everything is done: each datagram that was not dropped was handled, each window sealed was
received under its place among the sealed ones, decoded and handled, and the effects of all results
are those of handling them one by one. -/
structure Delivered (es : List Event) : Prop where
  packets : ((machine cfg sinks toJson).after .initial es).packets.items = []
  drained : Pipeline.Drained ((machine cfg sinks toJson).after .initial es).pipeline
  datagrams : (datagrams es).length = (handled cfg sinks toJson es).length +
    ((machine cfg sinks toJson).after .initial es).packets.dropped
  received : ∀ id window, .received id window ∈ decoded cfg sinks toJson es ↔
    (Pipeline.sealedBy (captured cfg sinks toJson es))[id]? = some window
  handled : DecodeTask.AllHandled sinks toJson (decoded cfg sinks toJson es)
  effects : DecodeTask.effects (decoded cfg sinks toJson es) =
    DecodeTask.serial sinks toJson (DecodeTask.completed (decoded cfg sinks toJson es))

variable {st}

theorem pipeline_of_quiet {d : Pipeline.Event}
    (h : (pipelineStep cfg sinks toJson st d).1 = st) :
    (Pipeline.step cfg sinks toJson st.pipeline d).1 = st.pipeline := congrArg State.pipeline h

/-- At rest everything is done. -/
theorem delivered_of_quiescent (es : List Event)
    (h : (machine cfg sinks toJson).Quiescent Event.Internal
      ((machine cfg sinks toJson).after .initial es)) : Delivered cfg sinks toJson es := by
  have hflow := Pipeline.flow_run cfg sinks toJson (tasks cfg sinks toJson es)
  have haccount := accounted_decodes cfg sinks toJson es
  have hopen := winClosed_run cfg sinks toJson es
  rw [← pipeline_after, ← pipeline_outputs] at hflow
  have hdrained : Pipeline.Drained ((machine cfg sinks toJson).after .initial es).pipeline := by
    refine Pipeline.drained_of_quiet cfg sinks toJson hflow ?_ hopen
      (pipeline_of_quiet cfg sinks toJson (h .send trivial))
      (pipeline_of_quiet cfg sinks toJson (h .advance trivial))
      (fun id => pipeline_of_quiet cfg sinks toJson (h (.complete id .noFile) trivial))
    intro id hid
    exact haccount.lt id (List.mem_append_left _ (List.mem_append_left _ hid))
  have hpackets : ((machine cfg sinks toJson).after .initial es).packets.items = [] := by
    have hpacket := h (.packet 0 0) trivial
    generalize (machine cfg sinks toJson).after .initial es = st at hpacket hdrained hopen ⊢
    cases hitems : st.packets.items with
    | nil => rfl
    | cons pkt rest =>
      have hlen := congrArg (fun s => s.packets.items.length) hpacket
      simp [step, packetEvent, hitems, Pipeline.captures, hdrained.sealing, hopen, pipelineStep,
        LossyQueue.take] at hlen
  refine ⟨hpackets, hdrained, ?_, ?_, ?_, ?_⟩
  · have hlength := datagrams_length cfg sinks toJson es
    simpa [hpackets] using hlength
  · intro id window
    have hconserved : Pipeline.sealedBy (captured cfg sinks toJson es) =
        ((machine cfg sinks toJson).after .initial es).pipeline.spawned := by
      rw [captured, hflow.conserved, hdrained.winQueue, hdrained.sealing, List.append_nil,
        List.append_nil]
    rw [hconserved, ← hflow.received, decoded, Pipeline.mem_output]
  · rw [haccount.allHandled_iff hdrained.phase]
    exact ⟨hdrained.decoding, hdrained.spotQueue⟩
  · have horder := (DecodeTask.inOrder_run sinks toJson (decodes cfg sinks toJson es)).effects
    rw [← decoded_eq, ← output_after, DecodeTask.State.pending, hdrained.phase,
      hdrained.spotQueue] at horder
    simpa [DecodeTask.Phase.rest] using horder

end

section
variable (cfg : Config) (sinks : DecodeTask.Sinks) (toJson : WsprSpot → Except Text Text)

/-- Without new datagrams and ticks the program cannot go on for ever, in whatever order its tasks
take their steps and the decodes end and however many spots they find; wherever it comes to rest
after a run, everything received before is done; and it can come to rest after every run. -/
theorem comes_to_rest :
    WellFounded ((machine cfg sinks toJson).Effective Event.Internal) ∧
    (∀ es, (machine cfg sinks toJson).Quiescent Event.Internal
        ((machine cfg sinks toJson).after .initial es) → Delivered cfg sinks toJson es) ∧
    ∀ es, ∃ more, (∀ e ∈ more, e.Internal) ∧ Delivered cfg sinks toJson (es ++ more) := by
  have hwf : WellFounded ((machine cfg sinks toJson).Effective Event.Internal) :=
    EventMachine.wellFounded_effective _ State.work
      (fun st _ he => step_work cfg sinks toJson st he)
  refine ⟨hwf, delivered_of_quiescent cfg sinks toJson, ?_⟩
  intro es
  obtain ⟨more, hmore, hquiet⟩ :=
    EventMachine.exists_quiescent _ hwf ((machine cfg sinks toJson).after .initial es)
  rw [← EventMachine.after_append] at hquiet
  exact ⟨more, hmore, delivered_of_quiescent cfg sinks toJson _ hquiet⟩

end
end Wsprrs.System
