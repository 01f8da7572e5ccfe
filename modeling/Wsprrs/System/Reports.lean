import Wsprrs.BufferTask.Reports
import Wsprrs.System.Provenance

/-! From the status socket to the decoder: what the program knows about an SSRC is what stood in the
status datagrams that name it last, and so do the frequency and the rate of a window. -/
namespace Wsprrs.System
open Rtp Status BufferTask TagLengthValue

/-- All fields of the status datagrams whose last SSRC is `s`, in order. -/
def filedUnder (s : UInt32) (es : List Event) : List (UInt8 × List UInt8) :=
  es.flatMap (fun e =>
    match e with
    | .statusDatagram _ bytes =>
      if packetSsrc (bytes.take MAX_UDP) = some s then packetFields (bytes.take MAX_UDP) else []
    | _ => [])

theorem filedUnder_append (s : UInt32) (es es' : List Event) :
    filedUnder s (es ++ es') = filedUnder s es ++ filedUnder s es' := List.flatMap_append

section
variable (cfg : Config) (sinks : DecodeTask.Sinks) (toJson : WsprSpot → Except Text Text)

theorem statusBuf_step (st : State) (e : Event) :
    (step cfg sinks toJson st e).1.statusBuf.length = st.statusBuf.length := by
  obtain ⟨bytes, -, -, -, hstep⟩ | ⟨pkt, rest, d, -, -, -, -, -, -, hstep⟩ |
    ⟨d, buf, hbuf, -, -, -, -, hstep⟩ | ⟨-, -, -, logs, -, hstep⟩ :=
    step_cases cfg sinks toJson st e <;> rw [hstep]
  · rfl
  · exact hbuf

theorem statusBuf_run (es : List Event) :
    ((machine cfg sinks toJson).after .initial es).statusBuf.length = MAX_UDP := by
  induction es using List.reverseRecOn with
  | nil => exact List.length_replicate
  | append_singleton es e ih =>
    rw [EventMachine.after_append]
    exact (statusBuf_step cfg sinks toJson _ e).trans ih

theorem captures_concat (es : List Event) (e : Event) :
    captures cfg sinks toJson (es ++ [e]) = captures cfg sinks toJson es ++
      ((pipelineFocus ((machine cfg sinks toJson).after .initial es) e).bind
        (Pipeline.captureFocus ((machine cfg sinks toJson).after .initial es).pipeline)).toList := by
  have htasks : tasks cfg sinks toJson (es ++ [e]) = tasks cfg sinks toJson es ++
      (pipelineFocus ((machine cfg sinks toJson).after .initial es) e).toList :=
    (pipelineComponent cfg sinks toJson).trace_concat .initial es e
  rw [captures, htasks, pipeline_after]
  cases pipelineFocus ((machine cfg sinks toJson).after .initial es) e with
  | none => simp [captures]
  | some d => exact (Pipeline.captureComponent cfg sinks toJson).trace_concat .initial _ d

/-- A status datagram means to the status task what it says, whatever its buffer held before. -/
theorem fieldsFor_focus {st : State} (h : st.statusBuf.length = MAX_UDP) (s : UInt32) (e : Event) :
    ((pipelineFocus st e).bind (Pipeline.captureFocus st.pipeline)).toList.flatMap (fieldsFor s) =
      filedUnder s [e] := by
  have hquiet (d : BufferTask.Event) (hd : fieldsFor s d = []) :
      ((some (Pipeline.Event.capture d)).bind (Pipeline.captureFocus st.pipeline)).toList.flatMap
        (fieldsFor s) = [] := by
    simp only [Option.bind_some, Pipeline.captureFocus]
    split_ifs <;> simp [hd]
  cases e with
  | statusDatagram now bytes =>
    have hbytes : (recvFrom st.statusBuf bytes).1.take (recvFrom st.statusBuf bytes).2 =
        bytes.take MAX_UDP := by rw [recvFrom_take, h]
    simp [pipelineFocus, Pipeline.captureFocus, Pipeline.captures, hbytes, fieldsFor, filedUnder]
  | packet now lag =>
    simp only [pipelineFocus]
    cases hp : packetEvent st now lag with
    | none => rfl
    | some p =>
      have hd : fieldsFor s p.2 = [] := by
        simp only [packetEvent] at hp
        split at hp
        · contradiction
        · split_ifs at hp
          cases hp
          rfl
      exact hquiet p.2 hd
  | tick now order => exact hquiet _ rfl
  | _ => rfl

theorem captures_filed (es : List Event) (s : UInt32) :
    (captures cfg sinks toJson es).flatMap (fieldsFor s) = filedUnder s es := by
  induction es using List.reverseRecOn with
  | nil => rfl
  | append_singleton es e ih =>
    rw [captures_concat, List.flatMap_append, filedUnder_append, ih,
      fieldsFor_focus (statusBuf_run cfg sinks toJson es)]

theorem capture_after (es : List Event) :
    ((machine cfg sinks toJson).after .initial es).pipeline.capture =
      (BufferTask.machine cfg).after .initial (captures cfg sinks toJson es) := by
  rw [pipeline_after]
  exact (Pipeline.captureComponent cfg sinks toJson).view_after .initial _

/-- In every run of the whole program and for every SSRC, the entry of the channel map is what one
datagram that carries all the fields of the status datagrams so far whose last SSRC is this one,
in order, would make of a default entry; there is none if there were no such datagrams. -/
theorem channelMap_filed (es : List Event) (s : UInt32) :
    ((machine cfg sinks toJson).after .initial es).pipeline.capture.channelMap s =
      entryOf (filedUnder s es) := by
  rw [capture_after, channelMap_run, captures_filed]

end
end Wsprrs.System
