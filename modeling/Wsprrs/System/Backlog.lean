import Wsprrs.Pipeline.Flow
import Wsprrs.System.Model

/-! What becomes of the datagrams: each one received is handled by the buffer task, waits in the
packet channel or was dropped and counted, and those handled are handled in order. -/
namespace Wsprrs.System
open Shutdown

section
variable (cfg : Config) (sinks : DecodeTask.Sinks) (toJson : WsprSpot → Except Text Text)

theorem filterMap_pipeline_map (as : List Pipeline.Action) :
    (as.map Action.pipeline).filterMap Action.pipeline? = as := by
  simp [List.filterMap_map, Function.comp_def, Action.pipeline?]

theorem filterMap_queue_pipeline (as : List Pipeline.Action) :
    (as.map Action.pipeline).filterMap Action.queue? = [] := by
  simp [List.filterMap_map, Function.comp_def, Action.queue?]

theorem filterMap_queue_map (as : List (LossyQueue.Action ReceivedPacket)) :
    (as.map Action.queue).filterMap Action.queue? = as := by
  simp [List.filterMap_map, Function.comp_def, Action.queue?]

theorem filterMap_pipeline_queue (as : List (LossyQueue.Action ReceivedPacket)) :
    (as.map Action.queue).filterMap Action.pipeline? = [] := by
  simp [List.filterMap_map, Function.comp_def, Action.pipeline?]

theorem warnings_append (out out' : List Action) :
    warnings (out ++ out') = warnings out ++ warnings out' := List.filterMap_append

theorem warnings_pipeline (as : List Pipeline.Action) : warnings (as.map Action.pipeline) = [] := by
  simp [warnings, List.filterMap_map]

theorem report_eq (a : LossyQueue.Action ReceivedPacket) :
    (report a).filterMap Action.queue? = [a] ∧ (report a).filterMap Action.pipeline? = [] ∧
      warnings (report a) = (LossyQueue.drops [a]).filter isPowerOfTwo := by
  cases a with
  | dropped n =>
    have hdrops : LossyQueue.drops [LossyQueue.Action.dropped (α := ReceivedPacket) n] = [n] := rfl
    rw [hdrops]
    cases hpow : isPowerOfTwo n with
    | true => simp [report, hpow, warnings, Action.queue?, Action.pipeline?]
    | false => simp [report, hpow, warnings, Action.queue?, Action.pipeline?]
  | accepted x => exact ⟨rfl, rfl, rfl⟩
  | taken x => exact ⟨rfl, rfl, rfl⟩

/-- Reporting adds log lines to what happens to the channel. -/
theorem flatMap_report (as : List (LossyQueue.Action ReceivedPacket)) :
    (as.flatMap report).filterMap Action.queue? = as ∧
      (as.flatMap report).filterMap Action.pipeline? = [] ∧
      warnings (as.flatMap report) = (LossyQueue.drops as).filter isPowerOfTwo := by
  induction as with
  | nil => exact ⟨rfl, rfl, rfl⟩
  | cons a as ih =>
    obtain ⟨hqueue, hpipe, hwarn⟩ := ih
    obtain ⟨hqueue', hpipe', hwarn'⟩ := report_eq a
    have hdrops : LossyQueue.drops (a::as) = LossyQueue.drops [a] ++ LossyQueue.drops as :=
      LossyQueue.drops_append [a] as
    rw [List.flatMap_cons, List.filterMap_append, List.filterMap_append, warnings_append, hdrops,
      List.filter_append, hqueue, hpipe, hwarn, hqueue', hpipe', hwarn']
    exact ⟨rfl, rfl, rfl⟩

/-- All that one step does: the receive loop, the buffer task taking a packet, another step of
the tasks behind the channel, or a log line. -/
theorem step_cases (st : State) (e : Event) :
    (∃ bytes, e = .datagram bytes ∧ pipelineFocus st e = none ∧
      queueFocus st e = some (.offer (received st.dataBuf bytes)) ∧
      step cfg sinks toJson st e =
        let q := LossyQueue.offer PACKET_CHAN_CAP st.packets (received st.dataBuf bytes)
        ({ st with dataBuf := (recvFrom st.dataBuf bytes).1, packets := q.1 }, q.2.flatMap report)) ∨
    (∃ pkt rest d, st.packets.items = pkt::rest ∧ (∃ now lag, d = ⟨now, .rtp pkt.bytes lag⟩) ∧
      Pipeline.captures st.pipeline d = true ∧ datagrams [e] = [] ∧
      pipelineFocus st e = some (.capture d) ∧ queueFocus st e = some .take ∧
      step cfg sinks toJson st e =
        let r := pipelineStep cfg sinks toJson { st with packets := (LossyQueue.take st.packets).1 }
          (.capture d)
        (r.1, (LossyQueue.take st.packets).2.map Action.queue ++ r.2)) ∨
    (∃ d statusBuf, statusBuf.length = st.statusBuf.length ∧ pipelineFocus st e = some d ∧
      queueFocus st e = none ∧ datagrams [e] = [] ∧ parsedBy [d] = [] ∧
      step cfg sinks toJson st e = pipelineStep cfg sinks toJson { st with statusBuf := statusBuf } d) ∨
    (pipelineFocus st e = none ∧ queueFocus st e = none ∧ datagrams [e] = [] ∧
      ∃ logs, (∀ a ∈ logs, ∃ message error, a = .failed message error) ∧
        step cfg sinks toJson st e = (st, logs)) := by
  cases e with
  | datagram bytes => exact .inl ⟨bytes, rfl, rfl, rfl, rfl⟩
  | recvError error =>
    exact .inr (.inr (.inr ⟨rfl, rfl, rfl, [.failed "recv_from error" error], by simp, rfl⟩))
  | statusDatagram now bytes =>
    exact .inr (.inr (.inl ⟨_, _, recvFrom_length st.statusBuf bytes, rfl, rfl, rfl, rfl, rfl⟩))
  | statusError error =>
    exact .inr (.inr (.inr ⟨rfl, rfl, rfl, [.failed "status recv_from error" error], by simp, rfl⟩))
  | packet now lag =>
    cases hitems : st.packets.items with
    | nil =>
      have hnone : packetEvent st now lag = none := by simp only [packetEvent, hitems]
      exact .inr (.inr (.inr ⟨by simp [pipelineFocus, hnone], by simp [queueFocus, hnone], rfl, [],
        by simp, by simp [step, hnone]⟩))
    | cons pkt rest =>
      by_cases hcan : Pipeline.captures st.pipeline ⟨now, .rtp pkt.bytes lag⟩ = true
      · have hsome : packetEvent st now lag = some (pkt, ⟨now, .rtp pkt.bytes lag⟩) := by
          simp only [packetEvent, hitems, if_pos hcan]
        exact .inr (.inl ⟨pkt, rest, _, rfl, ⟨now, lag, rfl⟩, hcan, rfl,
          by simp [pipelineFocus, hsome], by simp [queueFocus, hsome], by simp only [step, hsome]⟩)
      · have hnone : packetEvent st now lag = none := by simp only [packetEvent, hitems, if_neg hcan]
        exact .inr (.inr (.inr ⟨by simp [pipelineFocus, hnone], by simp [queueFocus, hnone], rfl, [],
          by simp, by simp [step, hnone]⟩))
  | tick now order => exact .inr (.inr (.inl ⟨_, st.statusBuf, rfl, rfl, rfl, rfl, rfl, rfl⟩))
  | send => exact .inr (.inr (.inl ⟨_, st.statusBuf, rfl, rfl, rfl, rfl, rfl, rfl⟩))
  | complete id outcome => exact .inr (.inr (.inl ⟨_, st.statusBuf, rfl, rfl, rfl, rfl, rfl, rfl⟩))
  | advance => exact .inr (.inr (.inl ⟨_, st.statusBuf, rfl, rfl, rfl, rfl, rfl, rfl⟩))

theorem logs_quiet {logs : List Action} (h : ∀ a ∈ logs, ∃ message error, a = .failed message error) :
    logs.filterMap Action.pipeline? = [] ∧ logs.filterMap Action.queue? = [] ∧ warnings logs = [] := by
  refine ⟨?_, ?_, ?_⟩ <;>
  · first | rw [List.filterMap_eq_nil_iff] | rw [warnings, List.filterMap_eq_nil_iff]
    intro a ha
    obtain ⟨message, error, rfl⟩ := h a ha
    rfl

/-- The tasks behind the packet channel run as they do on their own. -/
def pipelineComponent :
    EventMachine.Component (machine cfg sinks toJson) (Pipeline.machine cfg sinks toJson) where
  view := State.pipeline
  focus := pipelineFocus
  pick := Action.pipeline?
  view_step := by
    intro st e
    obtain ⟨bytes, -, hfocus, -, hstep⟩ | ⟨pkt, rest, d, -, -, -, -, hfocus, -, hstep⟩ |
      ⟨d, buf, -, hfocus, -, -, -, hstep⟩ | ⟨hfocus, -, -, logs, -, hstep⟩ :=
      step_cases cfg sinks toJson st e <;> rw [machine_step, hstep, hfocus] <;> rfl
  pick_step := by
    intro st e
    obtain ⟨bytes, -, hfocus, -, hstep⟩ | ⟨pkt, rest, d, -, -, -, -, hfocus, -, hstep⟩ |
      ⟨d, buf, -, hfocus, -, -, -, hstep⟩ | ⟨hfocus, -, -, logs, hlogs, hstep⟩ :=
      step_cases cfg sinks toJson st e <;> rw [machine_step, hstep, hfocus]
    · exact (flatMap_report _).2.1
    · simp only [List.filterMap_append, filterMap_pipeline_queue, pipelineStep, filterMap_pipeline_map,
        Option.toList_some]
      simp
    · simp only [pipelineStep, filterMap_pipeline_map]
      simp
    · exact (logs_quiet hlogs).1

/-- So does the packet channel. -/
def queueComponent :
    EventMachine.Component (machine cfg sinks toJson) packetChannel where
  view := State.packets
  focus := queueFocus
  pick := Action.queue?
  view_step := by
    intro st e
    obtain ⟨bytes, -, -, hfocus, hstep⟩ | ⟨pkt, rest, d, -, -, -, -, -, hfocus, hstep⟩ |
      ⟨d, buf, -, -, hfocus, -, -, hstep⟩ | ⟨-, hfocus, -, logs, -, hstep⟩ :=
      step_cases cfg sinks toJson st e <;> rw [machine_step, hstep, hfocus] <;> rfl
  pick_step := by
    intro st e
    obtain ⟨bytes, -, -, hfocus, hstep⟩ | ⟨pkt, rest, d, -, -, -, -, -, hfocus, hstep⟩ |
      ⟨d, buf, -, -, hfocus, -, -, hstep⟩ | ⟨-, hfocus, -, logs, hlogs, hstep⟩ :=
      step_cases cfg sinks toJson st e <;> rw [machine_step, hstep, hfocus]
    · rw [(flatMap_report _).1]
      simp [LossyQueue.step]
    · simp only [List.filterMap_append, filterMap_queue_map, pipelineStep, filterMap_queue_pipeline,
        Option.toList_some, List.append_nil]
      simp [LossyQueue.step]
    · simp only [pipelineStep, filterMap_queue_pipeline]
      rfl
    · exact (logs_quiet hlogs).2.1

/-- The packets handled so far are those taken off the channel, those offered to it are the
datagrams, and the log has a line for every drop whose number is a power of two. -/
structure Traced (es : List Event) (st : State) (queued : List (LossyQueue.Event ReceivedPacket))
    (tasks : List Pipeline.Event) (out : List Action) : Prop where
  buffer : st.dataBuf.length = MAX_UDP
  offered : (LossyQueue.offered queued).map ReceivedPacket.bytes = datagrams es
  taken : (LossyQueue.taken (out.filterMap Action.queue?)).map ReceivedPacket.bytes = parsedBy tasks
  logged : warnings out = (LossyQueue.drops (out.filterMap Action.queue?)).filter isPowerOfTwo

theorem traced_step {es : List Event} {st : State} {queued : List (LossyQueue.Event ReceivedPacket)}
    {tasks : List Pipeline.Event} {out : List Action} (h : Traced es st queued tasks out) (e : Event) :
    Traced (es ++ [e]) (step cfg sinks toJson st e).1 (queued ++ (queueFocus st e).toList)
      (tasks ++ (pipelineFocus st e).toList) (out ++ (step cfg sinks toJson st e).2) := by
  obtain ⟨bytes, rfl, hpipe, hqueue, hstep⟩ |
    ⟨pkt, rest, d, hitems, ⟨now, lag, rfl⟩, -, he, hpipe, hqueue, hstep⟩ |
    ⟨d, buf, -, hpipe, hqueue, he, hd, hstep⟩ | ⟨hpipe, hqueue, he, logs, hlogs, hstep⟩ :=
    step_cases cfg sinks toJson st e <;> rw [hstep, hpipe, hqueue]
  · have hq := flatMap_report (LossyQueue.offer PACKET_CHAN_CAP st.packets (received st.dataBuf bytes)).2
    refine ⟨?_, ?_, ?_, ?_⟩
    · simp only [recvFrom_length]
      exact h.buffer
    · have hnew : LossyQueue.offered [LossyQueue.Event.offer (received st.dataBuf bytes)] =
          [received st.dataBuf bytes] := rfl
      rw [Option.toList_some, LossyQueue.offered_append, hnew, List.map_append, h.offered,
        datagrams_append, List.map_singleton, received_bytes, h.buffer]
      rfl
    · simp only [List.filterMap_append, hq.1, LossyQueue.taken_append, LossyQueue.taken_offer,
        List.append_nil, Option.toList_none]
      exact h.taken
    · simp only [List.filterMap_append, hq.1, hq.2.2, warnings_append, LossyQueue.drops_append,
        List.filter_append, h.logged]
  · have htake : LossyQueue.take st.packets = ({ st.packets with items := rest }, [.taken pkt]) := by
      simp only [LossyQueue.take, hitems]
    refine ⟨h.buffer, ?_, ?_, ?_⟩
    · rw [Option.toList_some, LossyQueue.offered_append, datagrams_append, he, List.append_nil,
        ← h.offered]
      exact congrArg _ (List.append_nil _)
    · have hnew : LossyQueue.taken [LossyQueue.Action.taken pkt] = [pkt] := rfl
      rw [htake, pipelineStep, List.filterMap_append, List.filterMap_append, filterMap_queue_map,
        filterMap_queue_pipeline, List.append_nil, LossyQueue.taken_append, hnew, List.map_append,
        h.taken, Option.toList_some, parsedBy_append]
      rfl
    · have hquiet : warnings ([LossyQueue.Action.taken pkt].map Action.queue) = [] := rfl
      simp only [htake, pipelineStep, List.filterMap_append, filterMap_queue_map,
        filterMap_queue_pipeline, warnings_append, warnings_pipeline, hquiet, LossyQueue.drops_append,
        List.filter_append, List.append_nil, h.logged]
      exact (List.append_nil _).symm
  · refine ⟨h.buffer, ?_, ?_, ?_⟩
    · rw [Option.toList_none, List.append_nil, datagrams_append, he, List.append_nil]
      exact h.offered
    · simp only [pipelineStep, List.filterMap_append, filterMap_queue_pipeline, List.append_nil,
        Option.toList_some, parsedBy_append, hd]
      exact h.taken
    · simp only [pipelineStep, List.filterMap_append, filterMap_queue_pipeline, List.append_nil,
        warnings_append, warnings_pipeline]
      exact h.logged
  · obtain ⟨-, hqueued, hwarned⟩ := logs_quiet hlogs
    refine ⟨h.buffer, ?_, ?_, ?_⟩
    · rw [Option.toList_none, List.append_nil, datagrams_append, he, List.append_nil]
      exact h.offered
    · rw [List.filterMap_append, hqueued, Option.toList_none, List.append_nil, List.append_nil]
      exact h.taken
    · rw [List.filterMap_append, hqueued, warnings_append, hwarned, List.append_nil, List.append_nil]
      exact h.logged

/-- What the tasks behind the packet channel are given in a run of the program. -/
def tasks (es : List Event) : List Pipeline.Event :=
  (pipelineComponent cfg sinks toJson).trace .initial es

/-- The packets that the buffer task has been given, in order. -/
def handled (es : List Event) : List (List UInt8) := parsedBy (tasks cfg sinks toJson es)

/-- What the buffer task has done in a run of the program. -/
def captured (es : List Event) : List BufferTask.Action :=
  (((machine cfg sinks toJson).outputs .initial es).filterMap Action.pipeline?).filterMap
    Pipeline.Action.captured?

/-- What the decode task has done. -/
def decoded (es : List Event) : List DecodeTask.Action :=
  (((machine cfg sinks toJson).outputs .initial es).filterMap Action.pipeline?).filterMap
    Pipeline.Action.output?

/-- The events of the buffer task in a run of the program. -/
def captures (es : List Event) : List BufferTask.Event :=
  (Pipeline.captureComponent cfg sinks toJson).trace .initial (tasks cfg sinks toJson es)

/-- Those of the decode task. -/
def decodes (es : List Event) : List DecodeTask.Event :=
  (Pipeline.outputComponent cfg sinks toJson).trace .initial (tasks cfg sinks toJson es)

theorem pipeline_outputs (es : List Event) :
    ((machine cfg sinks toJson).outputs .initial es).filterMap Action.pipeline? =
      (Pipeline.machine cfg sinks toJson).outputs .initial (tasks cfg sinks toJson es) :=
  (pipelineComponent cfg sinks toJson).pick_outputs .initial es

theorem pipeline_after (es : List Event) :
    ((machine cfg sinks toJson).after .initial es).pipeline =
      (Pipeline.machine cfg sinks toJson).after .initial (tasks cfg sinks toJson es) :=
  (pipelineComponent cfg sinks toJson).view_after .initial es

theorem decoded_eq (es : List Event) :
    decoded cfg sinks toJson es =
      (DecodeTask.machine sinks toJson).outputs .initial (decodes cfg sinks toJson es) := by
  rw [decoded, pipeline_outputs]
  exact (Pipeline.outputComponent cfg sinks toJson).pick_outputs .initial _

theorem output_after (es : List Event) :
    ((machine cfg sinks toJson).after .initial es).pipeline.output =
      (DecodeTask.machine sinks toJson).after .initial (decodes cfg sinks toJson es) := by
  rw [pipeline_after]
  exact (Pipeline.outputComponent cfg sinks toJson).view_after .initial _

theorem traced_run (es : List Event) :
    Traced es ((machine cfg sinks toJson).after .initial es)
      ((queueComponent cfg sinks toJson).trace .initial es) (tasks cfg sinks toJson es)
      ((machine cfg sinks toJson).outputs .initial es) := by
  induction es using List.reverseRecOn with
  | nil => exact ⟨List.length_replicate, rfl, rfl, rfl⟩
  | append_singleton es e ih =>
    have hnext := traced_step cfg sinks toJson ih e
    rw [tasks, EventMachine.Component.trace_concat, EventMachine.Component.trace_concat,
      EventMachine.after_append, EventMachine.outputs_append, EventMachine.after_cons,
      EventMachine.after_nil, EventMachine.outputs_cons, EventMachine.outputs_nil, List.append_nil]
    exact hnext

theorem queue_run (es : List Event) :
    LossyQueue.Account PACKET_CHAN_CAP ((queueComponent cfg sinks toJson).trace .initial es)
      ((machine cfg sinks toJson).after .initial es).packets
      (((machine cfg sinks toJson).outputs .initial es).filterMap Action.queue?) := by
  have hview : ((machine cfg sinks toJson).after .initial es).packets = packetChannel.after .empty _ :=
    (queueComponent cfg sinks toJson).view_after .initial es
  have hpick : ((machine cfg sinks toJson).outputs .initial es).filterMap Action.queue? =
      packetChannel.outputs .empty _ := (queueComponent cfg sinks toJson).pick_outputs .initial es
  rw [hview, hpick]
  exact LossyQueue.account_run PACKET_CHAN_CAP _

/-- Every datagram was handled, is waiting or was dropped. -/
theorem datagrams_length (es : List Event) :
    let packets := ((machine cfg sinks toJson).after .initial es).packets
    (datagrams es).length =
      (handled cfg sinks toJson es).length + packets.items.length + packets.dropped := by
  intro packets
  have htraced := traced_run cfg sinks toJson es
  have hqueue := queue_run cfg sinks toJson es
  have hcount := hqueue.counted
  rw [hqueue.queued, List.length_append] at hcount
  rw [handled, ← htraced.taken, ← htraced.offered, List.length_map, List.length_map]
  exact hcount

/-- The step that loses a datagram is one that receives it while the channel is full. -/
theorem dropped_step (st : State) (e : Event) :
    (step cfg sinks toJson st e).1.packets.dropped = 0 ↔ st.packets.dropped = 0 ∧
      ∀ bytes, e = .datagram bytes → st.packets.items.length < PACKET_CHAN_CAP := by
  have hview : (step cfg sinks toJson st e).1.packets =
      packetChannel.after st.packets (queueFocus st e).toList :=
    (queueComponent cfg sinks toJson).view_step st e
  rw [hview]
  cases hfocus : queueFocus st e with
  | none =>
    have he : ∀ bytes, e ≠ .datagram bytes := by
      rintro bytes rfl
      contradiction
    simp [he]
  | some d =>
    rw [Option.toList_some, EventMachine.after_cons, EventMachine.after_nil, packetChannel_step,
      LossyQueue.dropped_step]
    cases e with
    | datagram bytes =>
      obtain rfl := Option.some.inj hfocus
      simp [LossyQueue.Room]
    | packet now lag =>
      obtain ⟨p, -, rfl⟩ := Option.map_eq_some_iff.mp hfocus
      simp [LossyQueue.Room]
    | _ => contradiction

end

section
variable (cfg : Config) (sinks : DecodeTask.Sinks) (toJson : WsprSpot → Except Text Text)

/-- In every run of the whole program: the tasks behind the packet channel are in a run of their
own; the packets given to the buffer task and those still waiting are the datagrams received, in
order, without those that were dropped, which are counted; never more than 1024 are waiting; and
the drops in the log are those whose number is a power of two. -/
theorem datagrams_accounted (es : List Event) :
    let st := (machine cfg sinks toJson).after .initial es
    let out := (machine cfg sinks toJson).outputs .initial es
    let tasks := tasks cfg sinks toJson es
    st.pipeline = (Pipeline.machine cfg sinks toJson).after .initial tasks ∧
    out.filterMap Action.pipeline? = (Pipeline.machine cfg sinks toJson).outputs .initial tasks ∧
    (parsedBy tasks ++ st.packets.items.map ReceivedPacket.bytes).Sublist (datagrams es) ∧
    (datagrams es).length =
      (parsedBy tasks).length + st.packets.items.length + st.packets.dropped ∧
    st.packets.items.length ≤ PACKET_CHAN_CAP ∧
    warnings out = (List.range (Nat.size st.packets.dropped)).map (2^·) := by
  intro st out tasks
  have htraced := traced_run cfg sinks toJson es
  have hqueue := queue_run cfg sinks toJson es
  refine ⟨(pipelineComponent cfg sinks toJson).view_after .initial es,
    (pipelineComponent cfg sinks toJson).pick_outputs .initial es, ?_,
    datagrams_length cfg sinks toJson es, hqueue.bounded, ?_⟩
  · rw [← htraced.taken, ← List.map_append, ← hqueue.queued, ← htraced.offered]
    exact hqueue.sublist.map _
  · rw [htraced.logged, hqueue.numbered, filter_isPowerOfTwo]

/-- No datagram is dropped in a run exactly if each one arrives while the buffer task is less
than 1024 datagrams behind. -/
theorem lossless_iff (es : List Event) :
    ((machine cfg sinks toJson).after .initial es).packets.dropped = 0 ↔
    ∀ past bytes rest, es = past ++ .datagram bytes :: rest →
      (datagrams past).length < (handled cfg sinks toJson past).length + PACKET_CHAN_CAP := by
  have hthroughout : ((machine cfg sinks toJson).after .initial es).packets.dropped = 0 ↔
      (machine cfg sinks toJson).Throughout .initial es (fun past _ e => ∀ bytes, e = .datagram bytes →
        (datagrams past).length < (handled cfg sinks toJson past).length + PACKET_CHAN_CAP) := by
    induction es using List.reverseRecOn with
    | nil => exact iff_of_true rfl EventMachine.throughout_nil
    | append_singleton es e ih =>
      rw [EventMachine.throughout_concat, ← ih, EventMachine.after_append, EventMachine.after_cons,
        EventMachine.after_nil, machine_step, dropped_step]
      refine and_congr_right ?_
      intro hnone
      have hlength := datagrams_length cfg sinks toJson es
      simp only [hnone] at hlength
      refine forall₂_congr ?_
      intro bytes _
      omega
  rw [hthroughout]
  constructor
  · rintro h past bytes rest rfl
    exact h past _ rest rfl bytes rfl
  · rintro h past e rest rfl bytes rfl
    exact h past bytes rest rfl

end
end Wsprrs.System
