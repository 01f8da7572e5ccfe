import Wsprrs.BufferTask.Provenance
import Wsprrs.Status.Frame

/-! What the status stream has brought for one SSRC, and what the task makes of it: the entry of
the channel map, and the frequency and rate of a window that is sent. -/
namespace Wsprrs

namespace Status
open TagLengthValue

/-- What a list of fields makes of a channel that was not known. -/
def entryOf (fields : List (UInt8 × List UInt8)) : Option ChannelInfo :=
  if fields = [] then none else some ((collect fields).apply {})

@[simp] theorem entryOf_nil : entryOf [] = none := rfl

/-- Fields in two datagrams do what they do in one. -/
theorem apply_collect_append (fs gs : List (UInt8 × List UInt8)) (info : ChannelInfo) :
    (collect (fs ++ gs)).apply info = (collect gs).apply ((collect fs).apply info) := by
  have hgetD {α : Type} (tag : UInt8) (decode : List UInt8 → α) (old : α) :
      ((lastValue tag (fs ++ gs)).map decode).getD old =
        ((lastValue tag gs).map decode).getD (((lastValue tag fs).map decode).getD old) := by
    rw [lastValue_append]
    cases lastValue tag gs <;> rfl
  simp only [collect_eq, StatusUpdate.apply, hgetD]

theorem entryOf_append {fs gs : List (UInt8 × List UInt8)} (h : gs ≠ []) :
    entryOf (fs ++ gs) = some ((collect gs).apply ((entryOf fs).getD {})) := by
  have hne : fs ++ gs ≠ [] := by simp [h]
  rw [entryOf, if_neg hne, apply_collect_append]
  by_cases hfs : fs = []
  · rw [hfs]
    rfl
  · rw [entryOf, if_neg hfs, Option.getD_some]

/-- A datagram that has an SSRC has a field. -/
theorem packetFields_ne_nil {buf : List UInt8} {s : UInt32} (h : packetSsrc buf = some s) :
    packetFields buf ≠ [] := by
  intro hnil
  rw [packetSsrc, hnil] at h
  contradiction

end Status

namespace BufferTask
open Rtp Status TagLengthValue

/-- The fields of a status datagram whose last SSRC is `s`. -/
def fieldsFor (s : UInt32) (e : Event) : List (UInt8 × List UInt8) :=
  match e.input with
  | .status buf => if packetSsrc buf = some s then packetFields buf else []
  | _ => []

theorem channelMap_step (cfg : Config) (st : State) (e : Event) (s : UInt32) :
    (step cfg st e).1.channelMap s =
      if fieldsFor s e = [] then st.channelMap s
      else some ((collect (fieldsFor s e)).apply ((st.channelMap s).getD {})) := by
  obtain ⟨now, input⟩ := e
  cases input with
  | rtp buf lag =>
    rw [step_rtp]
    rfl
  | tick order => rfl
  | status buf =>
    by_cases hs : packetSsrc buf = some s
    · simp [step_status, fieldsFor, processStatusPacket_snd, hs, packetFields_ne_nil hs]
    · simp [step_status, fieldsFor, processStatusPacket_snd, hs]

/-- After every run the entry of an SSRC is what one datagram with all the fields that were ever
filed under it would make. -/
theorem channelMap_run (cfg : Config) (es : List Event) (s : UInt32) :
    ((machine cfg).after .initial es).channelMap s = entryOf (es.flatMap (fieldsFor s)) := by
  induction es using List.reverseRecOn with
  | nil => rfl
  | append_singleton es e ih =>
    simp only [EventMachine.after_append, EventMachine.after_cons, EventMachine.after_nil, machine_step,
      List.flatMap_append, List.flatMap_singleton, channelMap_step, ih]
    by_cases he : fieldsFor s e = []
    · rw [if_pos he, he, List.append_nil]
    · rw [if_neg he, entryOf_append he]

theorem opened_mem_step {captureSeconds : UInt32} {c : Channel} {e : ChannelEvent} {w : AudioWindow}
    (h : .opened w ∈ (Channel.step captureSeconds c e).2) :
    ∃ rtp lag info, e.input = .packet rtp lag ∧ c.info = some info ∧ info.isAudioReady = true ∧
      openWindow captureSeconds e.now info = some w := by
  obtain ⟨fields, -, hstep⟩ | ⟨-, -, hstep⟩ | ⟨v, -, -, -, hstep⟩ | ⟨v, call, hdel, hstep⟩ :=
    Channel.step_cases captureSeconds c e <;> rw [hstep] at h
  · contradiction
  · contradiction
  · simp at h
  · obtain ⟨rtp, lag, info, hinput, hinfo, hready, hwin, -⟩ := Channel.delivery_cases hdel
    have hfeed : .opened w ∉ (Channel.feed v call).2 := by
      cases hres : (v.ingest call).2 with
      | ok u => simp [Channel.feed_ok hres]
      | error err => simp [Channel.feed_error hres]
    obtain ⟨hnone, rfl⟩ : c.window = none ∧ w = v := by simpa [hfeed] using h
    obtain hwin | ⟨-, hopen⟩ := hwin
    · rw [hnone] at hwin
      contradiction
    · exact ⟨rtp, lag, info, hinput, hinfo, hready, hopen⟩

/-- A sent window was opened before. -/
theorem Accounted.sent_opened {captureSeconds : UInt32} {log : List WindowAct}
    {window : Option AudioWindow} {closed : List Episode} {current : Option Episode}
    (h : Accounted captureSeconds log window closed current) {w : AudioWindow} (hw : .sent w ∈ log) :
    ∃ v, .opened v ∈ log ∧ w.windowStart = v.windowStart ∧ w.centerFreqHz = v.centerFreqHz ∧
      w.sampleRateHz = v.sampleRateHz := by
  rw [h.log_eq] at hw ⊢
  obtain hw | hw := List.mem_append.mp hw
  · obtain ⟨ep, hep, hlog⟩ := List.mem_flatMap.mp hw
    have hcontents : w = ep.contents captureSeconds := by
      simpa [Episode.sentLog, Episode.openLog, mem_feedLog_sent] using hlog
    refine ⟨ep.created captureSeconds, ?_, ?_⟩
    · refine List.mem_append_left _ (List.mem_flatMap.mpr ⟨ep, hep, ?_⟩)
      exact List.mem_append_left _ List.mem_cons_self
    · rw [hcontents]
      exact AudioWindow.ingestAll_frame _ ep.calls
  · obtain ⟨ep, -, hlog⟩ := List.mem_flatMap.mp hw
    exact absurd hlog (by simp [Episode.openLog, mem_feedLog_sent])

/-- The packet that opened a sent window, and the entry that its SSRC had then. -/
theorem sentTo_entry (cfg : Config) (es : List Event) {s : UInt32} {w : AudioWindow}
    (h : w ∈ sentTo s ((machine cfg).outputs .initial es)) :
    ∃ past e rest buf lag rtp info, es = past ++ e::rest ∧ e.input = .rtp buf lag ∧
      parseRtpPacket buf = .ok rtp ∧ rtp.header.ssrc = s ∧ passesFilter cfg s = true ∧
      ((machine cfg).after .initial past).channelMap s = some info ∧ info.isAudioReady = true ∧
      w.windowStart = evenMinuteBoundary e.now ∧ e.now < w.windowStart + openSpan cfg.captureSeconds ∧
      w.centerFreqHz = info.centerFreqHz ∧ w.sampleRateHz = info.sampleRateHz := by
  obtain ⟨closed, current, haccount⟩ := accounted_run cfg.captureSeconds (es.filterMap (focus cfg s))
  obtain ⟨v, hv, hstart, hfreq, hrate⟩ := haccount.sent_opened (sent_mem_outputs h)
  obtain ⟨past, e, rest, d, hes, hd, hstep⟩ := exists_channel_step hv
  obtain ⟨rtp, lag, info, hinput, hinfo, hready, hopen⟩ := opened_mem_step hstep
  obtain ⟨buf, hbuf, hparse, hssrc, hpass⟩ := focus_packet hd hinput
  obtain ⟨hboundary, hspan⟩ := openWindow_time hopen
  rw [focus_now hd] at hboundary hspan
  have hnew := openWindow_eq_new hopen
  refine ⟨past, e, rest, buf, lag, rtp, info, hes, hbuf, hparse, hssrc, hpass, hinfo, hready,
    hstart.trans hboundary, by rw [hstart]; exact hspan, ?_, ?_⟩
  · rw [hfreq, hnew]
    rfl
  · rw [hrate, hnew]
    rfl

end BufferTask
end Wsprrs
