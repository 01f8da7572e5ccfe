import Wsprrs.Buffer.AudioWindow

/-! What one call of `ingest` can do: discard the packet, refuse it as an overflow, or
store its samples at one offset. -/
namespace Wsprrs

/-- How far a timestamp lies after the base, going forward around the 32-bit circle. -/
def advance (base t : UInt32) : ℕ := (t - base).toNat

theorem advance_lt (base t : UInt32) : advance base t < 2^32 := (t - base).toNat_lt

/-- Advancing does not depend on where the circle is cut. -/
theorem advance_add (base t c : UInt32) : advance (base+c) (t+c) = advance base t := by
  rw [advance, advance, UInt32.toNat_sub, UInt32.toNat_sub, UInt32.toNat_add, UInt32.toNat_add]
  have hb := base.toNat_lt
  have ht := t.toNat_lt
  have hc := c.toNat_lt
  omega

theorem advance_eq (base t : UInt32) :
    (advance base t : ℤ) = if t < base then (t.toNat : ℤ) - base.toNat + 2^32
      else (t.toNat : ℤ) - base.toNat := by
  have hb := base.toNat_lt
  have ht := t.toNat_lt
  rw [advance, UInt32.toNat_sub]
  split_ifs with h <;> rw [UInt32.lt_iff_toNat_lt] at h <;> omega

/-- The corrected displacement is the advance, except for a packet more than half the
circle ahead whose timestamp is the smaller number: that one counts as a step back. -/
theorem wrapDelta_eq (base t : UInt32) :
    wrapDelta base t = if 2^31 ≤ advance base t ∧ t < base then (advance base t : ℤ) - 2^32
      else (advance base t : ℤ) := by
  have hadv := advance_eq base t
  have hlt := advance_lt base t
  have hb := base.toNat_lt
  have ht := t.toNat_lt
  have hwrap : RTP_WRAP = 2^32 := rfl
  simp only [UInt32.lt_iff_toNat_lt] at hadv
  simp only [wrapDelta, hwrap, UInt32.lt_iff_toNat_lt]
  split_ifs at hadv ⊢ <;> omega

namespace AudioWindow

@[simp] theorem noteSeq_windowStart (w : AudioWindow) (s : UInt16) :
    (w.noteSeq s).windowStart = w.windowStart := rfl
@[simp] theorem noteSeq_centerFreqHz (w : AudioWindow) (s : UInt16) :
    (w.noteSeq s).centerFreqHz = w.centerFreqHz := rfl
@[simp] theorem noteSeq_sampleRateHz (w : AudioWindow) (s : UInt16) :
    (w.noteSeq s).sampleRateHz = w.sampleRateHz := rfl
@[simp] theorem noteSeq_samples (w : AudioWindow) (s : UInt16) :
    (w.noteSeq s).samples = w.samples := rfl
@[simp] theorem noteSeq_samplesWritten (w : AudioWindow) (s : UInt16) :
    (w.noteSeq s).samplesWritten = w.samplesWritten := rfl
@[simp] theorem noteSeq_capacitySamples (w : AudioWindow) (s : UInt16) :
    (w.noteSeq s).capacitySamples = w.capacitySamples := rfl
@[simp] theorem noteSeq_rtpBase (w : AudioWindow) (s : UInt16) :
    (w.noteSeq s).rtpBase = w.rtpBase := rfl
@[simp] theorem noteSeq_startOffset (w : AudioWindow) (s : UInt16) :
    (w.noteSeq s).startOffset = w.startOffset := rfl

theorem locate_first {w : AudioWindow} (h : w.rtpBase = none) (wall : ℕ) (t : UInt32) :
    w.locate wall t =
      ({ w with rtpBase := some t, startOffset := min wall (w.capacitySamples-1) },
        some (min wall (w.capacitySamples-1))) := by
  simp only [locate, h]

/-- A later packet goes `advance` samples after the anchor, unless it is more than half
the circle ahead and its timestamp is the smaller number. -/
theorem locate_later {w : AudioWindow} {base : UInt32} (h : w.rtpBase = some base) (wall : ℕ)
    (t : UInt32) :
    w.locate wall t = (w, if 2^31 ≤ advance base t ∧ t < base then none
      else some (w.startOffset + advance base t)) := by
  have hlt := advance_lt base t
  simp only [locate, h, wrapDelta_eq]
  by_cases hback : 2^31 ≤ advance base t ∧ t < base
  · rw [if_pos hback, if_pos hback, if_pos (by omega)]
  · rw [if_neg hback, if_neg hback, if_neg (by omega), if_neg (by omega)]
    congr 2

/-- Locating a packet changes only the anchor. -/
theorem locate_frame (w : AudioWindow) (wall : ℕ) (t : UInt32) :
    (w.locate wall t).1 =
      { w with rtpBase := (w.locate wall t).1.rtpBase,
               startOffset := (w.locate wall t).1.startOffset } := by
  cases h : w.rtpBase with
  | none => rw [locate_first h]
  | some base =>
    rw [locate_later h]

/-- The window after gap detection and anchoring. -/
def anchored (w : AudioWindow) (wall : ℕ) (call : IngestCall) : AudioWindow :=
  ((w.noteSeq call.rtpSeq).locate wall call.rtpTimestamp).1

/-- The offset that a call computes; nothing if the packet is discarded. -/
def placement (w : AudioWindow) (wall : ℕ) (call : IngestCall) : Option ℕ :=
  ((w.noteSeq call.rtpSeq).locate wall call.rtpTimestamp).2

theorem anchored_frame (w : AudioWindow) (wall : ℕ) (call : IngestCall) :
    w.anchored wall call =
      { w.noteSeq call.rtpSeq with
        rtpBase := (w.anchored wall call).rtpBase
        startOffset := (w.anchored wall call).startOffset } :=
  locate_frame (w.noteSeq call.rtpSeq) wall call.rtpTimestamp

@[simp] theorem anchored_samples (w : AudioWindow) (wall : ℕ) (call : IngestCall) :
    (w.anchored wall call).samples = w.samples := by
  rw [anchored_frame]
  rfl
@[simp] theorem anchored_samplesWritten (w : AudioWindow) (wall : ℕ) (call : IngestCall) :
    (w.anchored wall call).samplesWritten = w.samplesWritten := by
  rw [anchored_frame]
  rfl
@[simp] theorem anchored_capacitySamples (w : AudioWindow) (wall : ℕ) (call : IngestCall) :
    (w.anchored wall call).capacitySamples = w.capacitySamples := by
  rw [anchored_frame]
  rfl
@[simp] theorem anchored_lastSeq (w : AudioWindow) (wall : ℕ) (call : IngestCall) :
    (w.anchored wall call).lastSeq = some call.rtpSeq := by
  rw [anchored_frame]
  rfl

/-- Store the samples of a call at an offset. -/
def store (w : AudioWindow) (call : IngestCall) (offset : ℕ) : AudioWindow :=
  { w with
    samples := overlay w.samples offset (decodeChunks (decodeSampleOf call.encoding) call.payload)
    samplesWritten := max w.samplesWritten (offset + call.nSamples) }

/-- The three outcomes of a call. -/
theorem ingestAt_cases (w : AudioWindow) (wall : ℕ) (call : IngestCall) :
    (w.placement wall call = none ∧
      w.ingestAt wall call = (w.anchored wall call, .ok ())) ∨
    (∃ offset, w.placement wall call = some offset ∧
      w.capacitySamples < offset + call.nSamples ∧
      w.ingestAt wall call = (w.anchored wall call, .error (.bufferOverflow call.ssrc))) ∨
    (∃ offset, w.placement wall call = some offset ∧
      offset + call.nSamples ≤ w.capacitySamples ∧
      w.ingestAt wall call = ((w.anchored wall call).store call offset, .ok ())) := by
  have hcap := anchored_capacitySamples w wall call
  have hpair : (w.noteSeq call.rtpSeq).locate wall call.rtpTimestamp =
      (w.anchored wall call, w.placement wall call) := rfl
  cases hp : w.placement wall call with
  | none =>
    refine Or.inl ⟨rfl, ?_⟩
    simp only [ingestAt, hpair, hp]
  | some offset =>
    by_cases hfit : offset + call.nSamples ≤ w.capacitySamples
    · refine Or.inr (Or.inr ⟨offset, rfl, hfit, ?_⟩)
      simp only [ingestAt, hpair, hp, hcap, store]
      rw [if_neg (by omega)]
    · refine Or.inr (Or.inl ⟨offset, rfl, not_le.mp hfit, ?_⟩)
      simp only [ingestAt, hpair, hp, hcap]
      rw [if_pos (by omega)]

/-- What no call changes: start, tuning and capacity. -/
theorem ingest_frame (w : AudioWindow) (call : IngestCall) :
    (w.ingest call).1.windowStart = w.windowStart ∧
    (w.ingest call).1.centerFreqHz = w.centerFreqHz ∧
    (w.ingest call).1.sampleRateHz = w.sampleRateHz ∧
    (w.ingest call).1.capacitySamples = w.capacitySamples := by
  have hframe := anchored_frame w (w.wallOf call) call
  unfold ingest
  obtain ⟨-, h⟩ | ⟨offset, -, -, h⟩ | ⟨offset, -, -, h⟩ := ingestAt_cases w (w.wallOf call) call <;>
    rw [h, hframe] <;> exact ⟨rfl, rfl, rfl, rfl⟩

/-- The first call sets the anchor, whatever becomes of its samples. -/
theorem ingest_first {w : AudioWindow} (hbase : w.rtpBase = none) (call : IngestCall) :
    (w.ingest call).1.rtpBase = some call.rtpTimestamp ∧
    (w.ingest call).1.startOffset = min (w.wallOf call) (w.capacitySamples-1) := by
  have hloc := locate_first (w := w.noteSeq call.rtpSeq) hbase (w.wallOf call) call.rtpTimestamp
  unfold ingest
  obtain ⟨-, h⟩ | ⟨offset, -, -, h⟩ | ⟨offset, -, -, h⟩ := ingestAt_cases w (w.wallOf call) call <;>
    rw [h]
  · rw [anchored, hloc]
    exact ⟨rfl, rfl⟩
  · rw [anchored, hloc]
    exact ⟨rfl, rfl⟩
  · rw [store, anchored, hloc]
    exact ⟨rfl, rfl⟩

/-- Once set, the anchor stays. -/
theorem ingest_anchor {w : AudioWindow} {base : UInt32} (hbase : w.rtpBase = some base)
    (call : IngestCall) :
    (w.ingest call).1.rtpBase = some base ∧
    (w.ingest call).1.capacitySamples = w.capacitySamples := by
  have hanch : w.anchored (w.wallOf call) call = w.noteSeq call.rtpSeq := by
    rw [anchored, locate_later (w := w.noteSeq call.rtpSeq) hbase]
  unfold ingest
  obtain ⟨-, h⟩ | ⟨offset, -, -, h⟩ | ⟨offset, -, -, h⟩ := ingestAt_cases w (w.wallOf call) call <;>
    rw [h, hanch] <;> exact ⟨hbase, rfl⟩

/-- The only error is the overflow of the call's own SSRC. -/
theorem ingest_error {w : AudioWindow} {call : IngestCall} {e : WsprError}
    (h : (w.ingest call).2 = .error e) : e = .bufferOverflow call.ssrc := by
  unfold ingest at h
  obtain ⟨-, hc⟩ | ⟨offset, -, -, hc⟩ | ⟨offset, -, -, hc⟩ := ingestAt_cases w (w.wallOf call) call
  · rw [hc] at h
    contradiction
  · rw [hc] at h
    exact (Except.error.inj h).symm
  · rw [hc] at h
    contradiction

/-- The call is not discarded, and its samples would end after the buffer does. -/
def Overflows (w : AudioWindow) (call : IngestCall) : Prop :=
  ∃ offset, w.placement (w.wallOf call) call = some offset ∧
    w.capacitySamples < offset + call.nSamples

instance (w : AudioWindow) (call : IngestCall) : Decidable (w.Overflows call) :=
  match h : w.placement (w.wallOf call) call with
  | none => isFalse (by simp [Overflows, h])
  | some offset =>
    decidable_of_iff (w.capacitySamples < offset + call.nSamples) (by simp [Overflows, h])

/-- The call writes at least one sample into the buffer. -/
def Stores (w : AudioWindow) (call : IngestCall) : Prop :=
  ∃ offset, w.placement (w.wallOf call) call = some offset ∧
    offset + call.nSamples ≤ w.capacitySamples ∧ 0 < call.nSamples

/-- A call fails exactly when it overflows. -/
theorem ingest_ok_iff (w : AudioWindow) (call : IngestCall) :
    (w.ingest call).2 = .ok () ↔ ¬ w.Overflows call := by
  unfold ingest Overflows
  obtain ⟨hp, hc⟩ | ⟨offset, hp, hover, hc⟩ | ⟨offset, hp, hfit, hc⟩ :=
    ingestAt_cases w (w.wallOf call) call
  · simp [hp, hc]
  · simp [hp, hc, hover]
  · simp [hp, hc, hfit]

/-- A call after the first one, by its advance from the anchor. In the forward half of the
circle only the capacity matters; in the backward half the packet is discarded or refused,
depending on the order of the two timestamps as numbers. -/
theorem ingest_later {w : AudioWindow} {base : UInt32} (hbase : w.rtpBase = some base)
    (call : IngestCall)
    (hcap : 2^31 ≤ advance base call.rtpTimestamp →
      w.capacitySamples < advance base call.rtpTimestamp) :
    w.ingest call =
      if 2^31 ≤ advance base call.rtpTimestamp then
        (w.noteSeq call.rtpSeq, if call.rtpTimestamp < base then .ok ()
          else .error (.bufferOverflow call.ssrc))
      else if w.startOffset + advance base call.rtpTimestamp + call.nSamples ≤ w.capacitySamples then
        ((w.noteSeq call.rtpSeq).store call (w.startOffset + advance base call.rtpTimestamp), .ok ())
      else (w.noteSeq call.rtpSeq, .error (.bufferOverflow call.ssrc)) := by
  have hloc := locate_later (w := w.noteSeq call.rtpSeq) hbase (w.wallOf call) call.rtpTimestamp
  have hanch : w.anchored (w.wallOf call) call = w.noteSeq call.rtpSeq := by rw [anchored, hloc]
  have hplace : w.placement (w.wallOf call) call =
      if 2^31 ≤ advance base call.rtpTimestamp ∧ call.rtpTimestamp < base then none
      else some (w.startOffset + advance base call.rtpTimestamp) := by rw [placement, hloc]; rfl
  have hcases := ingestAt_cases w (w.wallOf call) call
  rw [hanch, hplace] at hcases
  unfold ingest
  by_cases hhalf : 2^31 ≤ advance base call.rtpTimestamp
  · rw [if_pos hhalf]
    by_cases hlt : call.rtpTimestamp < base
    · rw [if_pos ⟨hhalf, hlt⟩] at hcases
      obtain ⟨-, h⟩ | ⟨offset, h, -⟩ | ⟨offset, h, -⟩ := hcases
      · rw [h, if_pos hlt]
      · contradiction
      · contradiction
    · rw [if_neg (fun hc => hlt hc.2)] at hcases
      obtain ⟨h, -⟩ | ⟨offset, -, -, h⟩ | ⟨offset, ho, hfit, -⟩ := hcases
      · contradiction
      · rw [h, if_neg hlt]
      · cases ho
        have hover := hcap hhalf
        omega
  · rw [if_neg hhalf]
    rw [if_neg (fun hc => hhalf hc.1)] at hcases
    obtain ⟨h, -⟩ | ⟨offset, ho, hover, h⟩ | ⟨offset, ho, hfit, h⟩ := hcases
    · contradiction
    · cases ho
      rw [h, if_neg (by omega)]
    · cases ho
      rw [h, if_pos hfit]

/-- A sequence of calls on one window: the final window and the result of every call. -/
def ingestAll (w : AudioWindow) : List IngestCall → AudioWindow × List (Except WsprError Unit)
  | [] => (w, [])
  | call::calls =>
    let r := w.ingest call
    let rs := ingestAll r.1 calls
    (rs.1, r.2 :: rs.2)

end AudioWindow
end Wsprrs
