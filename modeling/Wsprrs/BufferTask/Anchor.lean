import Wsprrs.Buffer.WallClock
import Wsprrs.BufferTask.Coverage
import Wsprrs.BufferTask.LateStart

/-! Where the samples of a window lie in time: its anchor is the packet that opened it, placed by the
clock to the sample. -/
namespace Wsprrs.BufferTask
open Rtp Status

/-- The window counts from this RTP timestamp, which lies where the clock reading `t` says. -/
def AnchoredAt (w : AudioWindow) (t : ℤ) (base : UInt32) : Prop :=
  w.rtpBase = some base ∧
  w.startOffset = min (wallSamples (elapsed t w.windowStart) w.sampleRateHz) (w.capacitySamples - 1)

/-- It is anchored by a packet of the past, the one that opened it. -/
def AnchoredIn (past : List ChannelEvent) (w : AudioWindow) : Prop :=
  ∃ e ∈ past, ∃ rtp lag, e.input = .packet rtp lag ∧ w.windowStart = evenMinuteBoundary e.now ∧
    AnchoredAt w (e.now + lag) rtp.header.timestamp

section
variable {captureSeconds : UInt32} {past : List ChannelEvent} {c : Channel} {e : ChannelEvent}
  {w v : AudioWindow} {t : ℤ} {base : UInt32}

theorem AnchoredIn.concat (h : AnchoredIn past w) (e : ChannelEvent) : AnchoredIn (past ++ [e]) w := by
  obtain ⟨e', he', h⟩ := h
  exact ⟨e', List.mem_append_left _ he', h⟩

/-- The anchor is set once. -/
theorem AnchoredAt.ingest (h : AnchoredAt w t base) (call : IngestCall) :
    AnchoredAt (w.ingest call).1 t base := by
  obtain ⟨hbase, hstart⟩ := h
  obtain ⟨hws, -, hrate, hcap⟩ := AudioWindow.ingest_frame w call
  refine ⟨(AudioWindow.ingest_anchor hbase call).1, ?_⟩
  rw [hws, hrate, hcap, ← hstart]
  have hkept := (AudioWindow.anchored_eq hbase (w.wallOf call) call).2
  unfold AudioWindow.ingest
  obtain ⟨-, h⟩ | ⟨offset, -, -, h⟩ | ⟨offset, -, -, h⟩ :=
    AudioWindow.ingestAt_cases w (w.wallOf call) call <;> rw [h]
  · exact hkept
  · exact hkept
  · exact hkept

end

end Wsprrs.BufferTask
