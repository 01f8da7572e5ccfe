import Wsprrs.BufferTask.Provenance
import Wsprrs.Pipeline.Stamp
import Wsprrs.System.Backlog

/-! From the socket to the decoder: every sample that is given to a decode and is not zero was
carried by a datagram received before, of the one SSRC that the window belongs to. -/
namespace Wsprrs.System
open Rtp Status BufferTask

section
variable (cfg : Config) (sinks : DecodeTask.Sinks) (toJson : WsprSpot → Except Text Text)

end

section
variable (cfg : Config) (sinks : DecodeTask.Sinks) (toJson : WsprSpot → Except Text Text)

/-- A decode ends for the tasks when it ends for the program. -/
theorem complete_mem {es : List Event} {id : ℕ} {outcome : Pipeline.Outcome}
    (h : .complete id outcome ∈ tasks cfg sinks toJson es) : .complete id outcome ∈ es := by
  obtain ⟨st, e, he, hfocus⟩ := (pipelineComponent cfg sinks toJson).mem_trace h
  simp only [pipelineComponent] at hfocus
  cases e with
  | complete i o =>
    cases hfocus
    exact he
  | packet now lag =>
    obtain ⟨p, -, hp⟩ := Option.map_eq_some_iff.mp hfocus
    contradiction
  | _ => simp [pipelineFocus] at hfocus

theorem decoded_append (es es' : List Event) :
    decoded cfg sinks toJson es <+: decoded cfg sinks toJson (es ++ es') := by
  simp only [decoded, EventMachine.outputs_append, List.filterMap_append]
  exact List.prefix_append _ _

/-- The windows received are the spawned decodes. -/
theorem received_iff (es : List Event) {id : ℕ} {w : AudioWindow} :
    .received id w ∈ decoded cfg sinks toJson es ↔
      ((machine cfg sinks toJson).after .initial es).pipeline.spawned[id]? = some w := by
  have hflow := Pipeline.flow_run cfg sinks toJson (tasks cfg sinks toJson es)
  rw [pipeline_after, ← hflow.received, decoded, pipeline_outputs, Pipeline.mem_output]

/-- A decode keeps its window. -/
theorem spawned_append (es es' : List Event) {id : ℕ} {w : AudioWindow}
    (h : ((machine cfg sinks toJson).after .initial es).pipeline.spawned[id]? = some w) :
    ((machine cfg sinks toJson).after .initial (es ++ es')).pipeline.spawned[id]? = some w := by
  rw [← received_iff] at h ⊢
  exact (decoded_append cfg sinks toJson es es').subset h

end
end Wsprrs.System
