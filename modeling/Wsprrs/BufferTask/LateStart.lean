import Wsprrs.Buffer.Representation
import Wsprrs.BufferTask.Cycle

/-! The late-start guard against the first packet: when a window that the guard lets open
has room for the packet that opened it. -/
namespace Wsprrs.BufferTask
open Rtp Status

/-- The wall-clock position of a time in a window, in exact arithmetic. -/
def exactWall (now : ℤ) (w : AudioWindow) : ℕ :=
  elapsed now w.windowStart*w.sampleRateHz.toNat/1000000000

/-- Ingesting a packet at an exact position succeeds, and its samples are stored there. -/
def StoredAt (w : AudioWindow) (wall : ℕ) (call : IngestCall) : Prop :=
  (w.ingestAt wall call).2 = .ok () ∧
  ∀ i, i < call.nSamples → (w.ingestAt wall call).1.samples[wall + i]? =
    (decodeChunks (decodeSampleOf call.encoding) call.payload)[i]?

section
variable {cfg : Config} {now : ℤ} {info : ChannelInfo} {w : AudioWindow}

theorem openWindow_capacity (h : openWindow cfg.captureSeconds now info = some w) :
    w.capacitySamples = info.sampleRateHz.toNat*cfg.captureSeconds.toNat := by
  rw [openWindow_eq_new h]
  rfl

theorem exactWall_openWindow (h : openWindow cfg.captureSeconds now info = some w) :
    exactWall now w =
      elapsed now (evenMinuteBoundary now)*info.sampleRateHz.toNat/1000000000 := by
  rw [openWindow_eq_new h]
  rfl

/-- The guard keeps the wall-clock position inside the buffer. -/
theorem exactWall_lt (h : openWindow cfg.captureSeconds now info = some w)
    (hrate : 0 < info.sampleRateHz) : exactWall now w < w.capacitySamples := by
  have hpos : 0 < info.sampleRateHz.toNat := UInt32.lt_iff_toNat_lt.mp hrate
  have hsecs := cfg.captureSeconds_toNat
  obtain ⟨hstart, hlt⟩ := openWindow_time h
  have helapsed : elapsed now (evenMinuteBoundary now) < 1000000000*cfg.captureSeconds.toNat := by
    rw [elapsed_eq, ← hstart]
    simp only [openSpan] at hlt
    omega
  rw [exactWall_openWindow h, openWindow_capacity h, Nat.div_lt_iff_lt_mul (by omega)]
  calc elapsed now (evenMinuteBoundary now)*info.sampleRateHz.toNat
      < 1000000000*cfg.captureSeconds.toNat*info.sampleRateHz.toNat :=
        Nat.mul_lt_mul_of_pos_right helapsed hpos
    _ = info.sampleRateHz.toNat*cfg.captureSeconds.toNat*1000000000 := by ring

/-- The first packet of an opened window goes to its wall-clock position. -/
theorem placement_openWindow (h : openWindow cfg.captureSeconds now info = some w)
    (hrate : 0 < info.sampleRateHz) (call : IngestCall) :
    w.placement (exactWall now w) call = some (exactWall now w) := by
  have hlt := exactWall_lt h hrate
  have hbase : (w.noteSeq call.rtpSeq).rtpBase = none := by
    rw [openWindow_eq_new h]
    rfl
  rw [AudioWindow.placement, AudioWindow.locate_first hbase]
  simp only [AudioWindow.noteSeq_capacitySamples, Option.some.injEq]
  omega

end

/-- The packet that opens a window is stored in it exactly when it ends no later than the
capture: its position plus its length is at most rate times capture seconds. -/
theorem openWindow_stores_iff (cfg : Config) (now : ℤ) (info : ChannelInfo) (w : AudioWindow)
    (hrate : 0 < info.sampleRateHz) (hopen : openWindow cfg.captureSeconds now info = some w)
    (call : IngestCall) :
    StoredAt w (exactWall now w) call ↔
      elapsed now (evenMinuteBoundary now)*info.sampleRateHz.toNat/1000000000 + call.nSamples ≤
        info.sampleRateHz.toNat*cfg.captureSeconds.toNat := by
  have hplace := placement_openWindow hopen hrate call
  rw [← exactWall_openWindow hopen, ← openWindow_capacity hopen]
  unfold StoredAt
  obtain ⟨hp, -⟩ | ⟨offset, hp, hover, hc⟩ | ⟨offset, hp, hfit, hc⟩ :=
    AudioWindow.ingestAt_cases w (exactWall now w) call <;> rw [hplace] at hp
  · contradiction
  · rw [hc, Option.some.inj hp]
    refine iff_of_false ?_ (by omega)
    rintro ⟨hok, -⟩
    contradiction
  · have heq := Option.some.inj hp
    subst heq
    rw [hc]
    refine iff_of_true ⟨rfl, ?_⟩ hfit
    have hrep : w.Represents := by
      rw [openWindow_eq_new hopen]
      exact AudioWindow.represents_new _ _ _ _
    have hanch := hrep.anchored (exactWall now w) call
    have hcap := AudioWindow.anchored_capacitySamples w (exactWall now w) call
    have hcount := call.length_decoded
    intro i hi
    simp only [AudioWindow.store]
    rw [getElem?_overlay _ _ _ _ (by rw [hanch.length, hcap]; omega), hcount, if_pos (by omega),
      Nat.add_sub_cancel_left]

/-- Two samples a second: a packet of one sample that arrives 110.6 seconds into the
cycle is stored in the last but one position. -/
theorem openWindow_stores_iff_last :
    StoredAt (AudioWindow.new 0 ⟨1⟩ 2 111) (exactWall 110600000000 (AudioWindow.new 0 ⟨1⟩ 2 111))
      ⟨[0,7], 0, 2, 0, 9, 2, 110600000000⟩ :=
  (openWindow_stores_iff shortCapture 110600000000 ⟨0, ⟨1⟩, 2, 1, 2⟩ _ (by decide)
    (by decide +kernel) ⟨[0,7], 0, 2, 0, 9, 2, 110600000000⟩).mpr (by decide +kernel)

/-- A status datagram that makes SSRC 9 ready at two samples per second. -/
def twoHertzStatus : List UInt8 :=
  [0, 18,1,9, 20,1,2, 33,8,0x40,0x59,0,0,0,0,0,0, 49,1,1, 107,1,2]

/-- With one sample more, one second in all, the guard still opens the window, the packet
overflows it, and the task seals and sends it without a single sample. -/
theorem openWindow_overflows :
    let now : ℤ := 110600000000
    let w := AudioWindow.new 0 ⟨0x4059000000000000⟩ 2 111
    let call : IngestCall := ⟨[0,7,0,8], 0, 2, 0, 9, 2, now⟩
    let packet : List UInt8 := [0x80,122,0,0, 0,0,0,0, 0,0,0,9, 0,7,0,8]
    openWindow 111 now ⟨0, ⟨0x4059000000000000⟩, 2, 1, 2⟩ = some w ∧
    (w.ingestAt (exactWall now w) call).2 = .error (.bufferOverflow 9) ∧
    ((machine shortCapture).outputs .initial [⟨now, .status twoHertzStatus⟩, ⟨now, .rtp packet 0⟩]) =
      [⟨9, .opened w⟩, ⟨9, .ingested w call⟩, ⟨9, .sent (w.ingest call).1⟩] ∧
    (w.ingest call).1.samplesWritten = 0 := by
  decide +kernel

end Wsprrs.BufferTask
