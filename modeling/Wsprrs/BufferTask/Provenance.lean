import Wsprrs.Buffer.Representation
import Wsprrs.BufferTask.Conservation
import Wsprrs.BufferTask.Cycle

/-! Where the samples of a sent window come from: every one that is not zero was copied out of
a packet of the window's own SSRC, to the place that the packet's timestamp gives it. -/
namespace Wsprrs
namespace AudioWindow

/-- Position `i` of the window is the place of sample `j` of the call, which is `x`. -/
def CopiedFrom (w : AudioWindow) (call : IngestCall) (i : ℕ) (x : Int16) : Prop :=
  ∃ base j, w.rtpBase = some base ∧ i = w.startOffset + advance base call.rtpTimestamp + j ∧
    (decodeChunks (decodeSampleOf call.encoding) call.payload)[j]? = some x

/-- Nothing is in the window but silence and samples of the calls. -/
def Genuine (w : AudioWindow) (calls : List IngestCall) : Prop :=
  ∀ i x, w.samples[i]? = some x → x ≠ 0 → ∃ call ∈ calls, w.CopiedFrom call i x

variable {w v : AudioWindow} {calls : List IngestCall} {call : IngestCall} {wall : ℕ}

/-- An anchor that is set stays where it is. -/
theorem anchored_eq {base : UInt32} (h : w.rtpBase = some base) (wall : ℕ) (call : IngestCall) :
    (w.anchored wall call).rtpBase = some base ∧ (w.anchored wall call).startOffset = w.startOffset := by
  rw [anchored, locate_later (w := w.noteSeq call.rtpSeq) h]
  exact ⟨h, rfl⟩

/-- The offset of a call, measured from the anchor. -/
theorem placement_eq {offset : ℕ} (h : w.placement wall call = some offset) :
    ∃ base, (w.anchored wall call).rtpBase = some base ∧
      offset = (w.anchored wall call).startOffset + advance base call.rtpTimestamp := by
  rw [placement] at h
  cases hbase : w.rtpBase with
  | none =>
    rw [locate_first (w := w.noteSeq call.rtpSeq) hbase] at h
    rw [anchored, locate_first (w := w.noteSeq call.rtpSeq) hbase]
    refine ⟨call.rtpTimestamp, rfl, ?_⟩
    have hzero : advance call.rtpTimestamp call.rtpTimestamp = 0 := by simp [advance]
    rw [hzero]
    exact (Option.some.inj h).symm
  | some base =>
    rw [locate_later (w := w.noteSeq call.rtpSeq) hbase] at h
    obtain ⟨hanchor, hstart⟩ := anchored_eq hbase wall call
    refine ⟨base, hanchor, ?_⟩
    rw [hstart]
    split_ifs at h
    exact (Option.some.inj h).symm

theorem CopiedFrom.anchored {i : ℕ} {x : Int16} {old : IngestCall} (h : w.CopiedFrom old i x) :
    (w.anchored wall call).CopiedFrom old i x := by
  obtain ⟨base, j, hbase, hi, hx⟩ := h
  obtain ⟨hanchor, hstart⟩ := anchored_eq hbase wall call
  exact ⟨base, j, hanchor, by rw [hstart]; exact hi, hx⟩

/-- One call adds its own samples and nothing else. -/
theorem Genuine.ingest (h : w.Genuine calls) (call : IngestCall) :
    (w.ingest call).1.Genuine (calls ++ [call]) := by
  have hold : (w.anchored (w.wallOf call) call).Genuine (calls ++ [call]) := by
    intro i x hx hne
    rw [anchored_samples] at hx
    obtain ⟨old, hmem, hcopied⟩ := h i x hx hne
    exact ⟨old, List.mem_append_left _ hmem, hcopied.anchored⟩
  unfold AudioWindow.ingest
  obtain ⟨-, hres⟩ | ⟨offset, -, -, hres⟩ | ⟨offset, hplace, hfit, hres⟩ :=
    ingestAt_cases w (w.wallOf call) call <;> rw [hres]
  · exact hold
  · exact hold
  · intro i x hx hne
    have hlen : i < (w.anchored (w.wallOf call) call).samples.length := by
      simpa [AudioWindow.store] using (List.getElem?_eq_some_iff.mp hx).1
    rw [AudioWindow.store, getElem?_overlay _ _ _ _ hlen] at hx
    split_ifs at hx with hin
    · obtain ⟨base, hbase, hoffset⟩ := placement_eq hplace
      refine ⟨call, by simp, base, i-offset, hbase, ?_, hx⟩
      simp only [AudioWindow.store]
      omega
    · exact hold i x hx hne

theorem Genuine.ingestAll (h : w.Genuine calls) (more : List IngestCall) :
    (w.ingestAll more).1.Genuine (calls ++ more) := by
  induction more generalizing w calls with
  | nil => simpa [AudioWindow.ingestAll] using h
  | cons call more ih => simpa [AudioWindow.ingestAll] using ih (h.ingest call)

end AudioWindow

namespace BufferTask
open Rtp Status

theorem mem_feedLog_sent {w v : AudioWindow} {calls : List IngestCall} :
    .sent v ∉ feedLog w calls := by
  induction calls generalizing w with
  | nil => simp [feedLog]
  | cons call calls ih => simpa [feedLog] using ih

/-- A packet that an SSRC sees was parsed from its datagram and passed the filter. -/
theorem focus_packet {cfg : Config} {s : UInt32} {e : Event} {d : ChannelEvent} {rtp : RtpPacket}
    {lag : ℕ} (h : focus cfg s e = some d) (hd : d.input = .packet rtp lag) :
    ∃ buf, e.input = .rtp buf lag ∧ parseRtpPacket buf = .ok rtp ∧ rtp.header.ssrc = s ∧
      passesFilter cfg s = true := by
  obtain ⟨now, input⟩ := e
  cases input with
  | status buf =>
    simp only [focus] at h
    split_ifs at h
    rw [← Option.some.inj h] at hd
    contradiction
  | tick order =>
    rw [← Option.some.inj h] at hd
    contradiction
  | rtp buf delay =>
    simp only [focus] at h
    split at h
    · contradiction
    · next packet hparse =>
      split_ifs at h with hpass
      rw [← Option.some.inj h] at hd
      cases hd
      exact ⟨buf, rfl, hparse, hpass.1, hpass.2⟩

/-- A delivered packet was parsed from its datagram, passed the filter, and belongs to a channel
that is ready. -/
theorem Delivers.packet {cfg : Config} {st : State} {e : Event} {s : UInt32} {w : AudioWindow}
    {call : IngestCall} (h : Delivers cfg st e s w call) :
    ∃ buf lag rtp info, e.input = .rtp buf lag ∧ parseRtpPacket buf = .ok rtp ∧
      rtp.header.ssrc = s ∧ passesFilter cfg s = true ∧ st.channelMap s = some info ∧
      info.isAudioReady = true ∧ call = ingestCall info rtp (e.now + lag) := by
  obtain ⟨d, hfocus, hdel⟩ := h
  obtain ⟨rtp, lag, info, hinput, hinfo, hready, -, hcall⟩ := Channel.delivery_cases hdel
  obtain ⟨buf, hbuf, hparse, hssrc, hpass⟩ := focus_packet hfocus hinput
  exact ⟨buf, lag, rtp, info, hbuf, hparse, hssrc, hpass, hinfo, hready, by rw [hcall, focus_now hfocus]⟩

/-- What an SSRC's machine emits, it emits at one of the events of the run. -/
theorem exists_channel_step {cfg : Config} {s : UInt32} {es : List Event} {act : WindowAct}
    (h : act ∈ (Channel.machine cfg.captureSeconds).outputs .initial (es.filterMap (focus cfg s))) :
    ∃ past e rest d, es = past ++ e::rest ∧ focus cfg s e = some d ∧
      act ∈ (Channel.step cfg.captureSeconds (((machine cfg).after .initial past).channel s) d).2 := by
  obtain ⟨before, d, after, hsplit, hact⟩ := EventMachine.mem_outputs h
  have htrace := (projection cfg s).trace_component .initial es
  rw [show es.filterMap (projection cfg s).focus = before ++ d::after from hsplit] at htrace
  obtain ⟨past, e, rest, hes, hpast, hd⟩ := (projection cfg s).component.exists_step htrace
  refine ⟨past, e, rest, d, hes, hd, ?_⟩
  have hview : ((machine cfg).after .initial past).channel s =
      (Channel.machine cfg.captureSeconds).after .initial before := by
    rw [← hpast]
    exact (projection cfg s).component.view_after .initial past
  rw [hview]
  exact hact

/-- The log of an SSRC's machine has an entry for every window sent. -/
theorem sent_mem_outputs {cfg : Config} {es : List Event} {s : UInt32} {w : AudioWindow}
    (h : w ∈ sentTo s ((machine cfg).outputs .initial es)) :
    .sent w ∈ (Channel.machine cfg.captureSeconds).outputs .initial (es.filterMap (focus cfg s)) := by
  rw [sentTo_outputs] at h
  obtain ⟨act, hact, hsent⟩ := List.mem_filterMap.mp h
  cases act with
  | sent v =>
    obtain rfl : v = w := Option.some.inj hsent
    exact hact
  | _ => contradiction

end BufferTask
end Wsprrs
