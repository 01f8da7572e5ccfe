import Wsprrs.BufferTask.Channel

/-! Tuning: the status task rewrites frequency and sample rate at any time, while a window
copies them once. What keeps the two together. -/
namespace Wsprrs.BufferTask
open Rtp Status

/-- A list of status fields names no frequency or sample rate other than those of `w`. -/
def Agrees (fields : List (UInt8 × List UInt8)) (w : AudioWindow) : Prop :=
  (collect fields).centerFreqHz.getD w.centerFreqHz = w.centerFreqHz ∧
  (collect fields).sampleRateHz.getD w.sampleRateHz = w.sampleRateHz

instance (fields : List (UInt8 × List UInt8)) (w : AudioWindow) : Decidable (Agrees fields w) :=
  inferInstanceAs (Decidable (_ ∧ _))

/-- No status datagram retunes an SSRC while it has an open window. -/
def KeepsTuning (st : State) (e : Event) : Prop :=
  match e.input with
  | .status buf => ∀ w ∈ (packetSsrc buf).bind st.windows.lookup, Agrees (packetFields buf) w
  | _ => True

instance (st : State) : (e : Event) → Decidable (KeepsTuning st e)
  | ⟨_, .status buf⟩ => inferInstanceAs (Decidable
      (∀ w ∈ (packetSsrc buf).bind st.windows.lookup, Agrees (packetFields buf) w))
  | ⟨_, .rtp _ _⟩ => isTrue trivial
  | ⟨_, .tick _⟩ => isTrue trivial

/-- A packet goes into a window that was opened with the tuning the map holds now, and the
window keeps that tuning. -/
def Action.Tuned (st : State) (a : Action) : Prop :=
  match a.act with
  | .ingested w call =>
    (st.channelMap a.ssrc).map (fun info => (info.centerFreqHz, info.sampleRateHz)) =
      some (w.centerFreqHz, w.sampleRateHz) ∧
    ((w.ingest call).1.centerFreqHz, (w.ingest call).1.sampleRateHz) =
      (w.centerFreqHz, w.sampleRateHz)
  | _ => True

instance (st : State) : (a : Action) → Decidable (a.Tuned st)
  | ⟨_, .ingested _ _⟩ => inferInstanceAs (Decidable (_ ∧ _))
  | ⟨_, .opened _⟩ => isTrue trivial
  | ⟨_, .sent _⟩ => isTrue trivial
  | ⟨_, .dropped _⟩ => isTrue trivial

namespace Channel

/-- The window of a channel has the tuning of its record. -/
def InTune (c : Channel) : Prop :=
  ∀ w, c.window = some w → ∃ info, c.info = some info ∧
    info.centerFreqHz = w.centerFreqHz ∧ info.sampleRateHz = w.sampleRateHz

theorem inTune_feed {info : ChannelInfo} {w : AudioWindow} (hfreq : info.centerFreqHz = w.centerFreqHz)
    (hrate : info.sampleRateHz = w.sampleRateHz) (call : IngestCall) :
    InTune ⟨some info, (feed w call).1⟩ := by
  obtain ⟨-, hf, hr, -⟩ := AudioWindow.ingest_frame w call
  intro v hv
  rw [feed_window hv]
  exact ⟨info, rfl, hfreq.trans hf.symm, hrate.trans hr.symm⟩

/-- A delivered packet meets a window in tune: the old one by the invariant, a new one
because it has just been made from the record. -/
theorem InTune.delivery {captureSeconds : UInt32} {c : Channel} (h : c.InTune) {e : ChannelEvent}
    {w : AudioWindow} {call : IngestCall} (hdel : c.delivery captureSeconds e = some (w, call)) :
    ∃ info, c.info = some info ∧ info.centerFreqHz = w.centerFreqHz ∧
      info.sampleRateHz = w.sampleRateHz := by
  obtain ⟨rtp, lag, info, -, hinfo, -, hwin | ⟨hwin, hopen⟩, -⟩ := delivery_cases hdel
  · exact h w hwin
  · rw [openWindow_eq_new hopen]
    exact ⟨info, hinfo, rfl, rfl⟩

theorem InTune.step {captureSeconds : UInt32} {c : Channel} (h : c.InTune) {e : ChannelEvent}
    (hkeep : ∀ fields w, e.input = .status fields → c.window = some w → Agrees fields w) :
    (step captureSeconds c e).1.InTune := by
  obtain ⟨fields, hinput, hstep⟩ | ⟨-, -, hstep⟩ | ⟨w, -, hwin, hexp, hstep⟩ |
    ⟨w, call, hdel, hstep⟩ := step_cases captureSeconds c e <;> rw [hstep]
  · intro w hw
    obtain ⟨info, hinfo, hfreq, hrate⟩ := h w hw
    obtain ⟨hf, hr⟩ := hkeep fields w hinput hw
    refine ⟨_, rfl, ?_, ?_⟩
    · rw [hinfo, Option.getD_some, StatusUpdate.apply, hfreq]
      exact hf
    · rw [hinfo, Option.getD_some, StatusUpdate.apply, hrate]
      exact hr
  · exact h
  · intro v hv
    contradiction
  · obtain ⟨info, hinfo, hfreq, hrate⟩ := h.delivery hdel
    rw [hinfo]
    exact inTune_feed hfreq hrate call

end Channel

/-- If no status datagram retunes an SSRC while its window is open, every packet goes into a
window of the tuning that the map holds for it. -/
theorem ingested_tuned (cfg : Config) (es : List Event)
    (hkeep : (machine cfg).Throughout .initial es (fun _ st e => KeepsTuning st e)) :
    (machine cfg).Throughout .initial es (fun _ st e => ∀ a ∈ (step cfg st e).2, a.Tuned st) := by
  refine hkeep.of_invariant (I := fun _ st _ => ∀ s, (st.channel s).InTune) ?_ ?_ ?_
  · intro s w hw
    simp [State.channel, State.initial] at hw
  · intro past st out e h he s
    rw [machine_step]
    cases hd : focus cfg s e with
    | none =>
      rw [channel_step_none hd]
      exact h s
    | some d =>
      rw [channel_step hd]
      refine (h s).step ?_
      intro fields w hinput hw
      obtain ⟨buf, hbuf, hssrc, rfl⟩ := focus_status hd hinput
      have hlookup : st.windows.lookup s = some w := hw
      simp only [KeepsTuning, hbuf, hssrc, Option.bind_some] at he
      exact he w hlookup
  · rintro past st out e h - ⟨s, act⟩ ha
    cases act with
    | ingested w call =>
      obtain ⟨d, -, hdel⟩ := ingested_mem_step.mp ha
      obtain ⟨info, hinfo, hfreq, hrate⟩ := (h s).delivery hdel
      obtain ⟨-, hf, hr, -⟩ := AudioWindow.ingest_frame w call
      have hmap : st.channelMap s = some info := hinfo
      refine ⟨?_, ?_⟩
      · rw [hmap, Option.map_some, hfreq, hrate]
      · rw [hf, hr]
    | _ => trivial

def retuneStatus : List UInt8 := [0, 18,1,9, 33,8,0x40,0x69,0,0,0,0,0,0]

/-- The same frequency sent again, and a new one between two windows. -/
theorem ingested_tuned_between :
    let es : List Event := [⟨0, .status readyStatus⟩, ⟨0, .rtp (onePacket 0 0) 0⟩,
      ⟨500000000, .status readyStatus⟩, ⟨1000000000, .rtp (onePacket 1 1) 0⟩,
      ⟨111000000000, .tick .id⟩, ⟨112000000000, .status retuneStatus⟩,
      ⟨120000000000, .rtp (onePacket 2 120) 0⟩]
    (machine shortCapture).Throughout .initial es
      (fun _ st e => ∀ a ∈ (step shortCapture st e).2, a.Tuned st) := by
  intro es
  have hkeep : (machine shortCapture).EveryStep KeepsTuning .initial es := by decide +kernel
  exact ingested_tuned shortCapture es (EventMachine.everyStep_iff_throughout.mp hkeep)

/-- A channel retuned one second into its window: the second sample is written into the
window of the old frequency. -/
theorem ingested_after_retune :
    let es : List Event := [⟨0, .status readyStatus⟩, ⟨0, .rtp (onePacket 0 0) 0⟩,
      ⟨1000000000, .status retuneStatus⟩, ⟨1000000000, .rtp (onePacket 1 1) 0⟩]
    let st := (machine shortCapture).after .initial es
    ¬ (machine shortCapture).Throughout .initial es
      (fun _ st e => ∀ a ∈ (step shortCapture st e).2, a.Tuned st) ∧
    (st.windows.lookup 9).map (fun w => (w.centerFreqHz.bits, w.samplesWritten)) =
      some (0x4059000000000000, 2) ∧
    (st.channelMap 9).map (fun info => info.centerFreqHz.bits) = some 0x4069000000000000 := by
  intro es st
  refine ⟨?_, by decide +kernel, by decide +kernel⟩
  rw [← EventMachine.everyStep_iff_throughout]
  decide +kernel

end Wsprrs.BufferTask
