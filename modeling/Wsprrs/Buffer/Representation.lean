import Wsprrs.Buffer.Ingest
import Wsprrs.Foundation.Checked

/-! The representation invariant of a window, and `ingest` with every 64-bit addition and
every index checked: on a window that satisfies the invariant no check ever fails. -/
namespace Wsprrs

/-- `as i64`. -/
def asI64 (n : ℕ) : ℤ := (n : ℤ).bmod (2^64)

theorem asI64_eq {n : ℕ} (h : n < 2^63) : asI64 n = n := by
  unfold asI64
  rw [Int.bmod_def]
  omega

/-- The writing loop: the value number `i` of a block goes to index `offset + i`. -/
def writeChecked (xs : List Int16) (offset i : ℕ) : List Int16 → Checked (List Int16)
  | [] => .ok xs
  | v::vs => do
    let k ← Checked.add offset i
    let xs ← Checked.set xs k v
    writeChecked xs offset (i+1) vs

theorem writeChecked_eq (xs : List Int16) (offset i : ℕ) (vs : List Int16)
    (hfit : offset + i + vs.length ≤ xs.length) (hlen : xs.length < 2^64) :
    writeChecked xs offset i vs = .ok (overlay xs (offset + i) vs) := by
  induction vs generalizing xs i with
  | nil => rfl
  | cons v vs ih =>
    simp only [List.length_cons] at hfit
    simp only [writeChecked, Checked.add_ok (show offset + i < 2^64 by omega), Checked.ok_bind,
      Checked.set_ok (show offset + i < xs.length by omega), overlay]
    rw [ih _ _ (by rw [List.length_set]; omega) (by rwa [List.length_set])]
    rfl

theorem decodeChunks_length (decodeSample : UInt8 → UInt8 → Int16) :
    ∀ payload, (decodeChunks decodeSample payload).length = payload.length/2
  | [] => rfl
  | [_] => by simp [decodeChunks]
  | _::_::rest => by
    rw [decodeChunks, List.length_cons, decodeChunks_length decodeSample rest, List.length_cons,
      List.length_cons]
    omega

theorem IngestCall.length_decoded (call : IngestCall) :
    (decodeChunks (decodeSampleOf call.encoding) call.payload).length = call.nSamples :=
  decodeChunks_length _ _

namespace AudioWindow

/-- `wrapDelta` with its additions checked. -/
def wrapDeltaChecked (base rtpTimestamp : UInt32) : Checked ℤ := do
  let delta ← Checked.addInt rtpTimestamp.toNat (-base.toNat)
  if delta < -(RTP_WRAP/2) then Checked.addInt delta RTP_WRAP else return delta

/-- `locate` with its additions checked. -/
def locateChecked (w : AudioWindow) (wall : ℕ) (rtpTimestamp : UInt32) :
    Checked (AudioWindow × Option ℕ) :=
  match w.rtpBase with
  | none =>
    let wallOffset := min wall (w.capacitySamples-1)
    .ok ({ w with rtpBase := some rtpTimestamp, startOffset := wallOffset }, some wallOffset)
  | some base => do
    let delta ← wrapDeltaChecked base rtpTimestamp
    if delta < 0 then return (w, none)
    let abs ← Checked.addInt (asI64 w.startOffset) delta
    if abs < 0 then return (w, none)
    return (w, some abs.toNat)

/-- `ingest` with its additions and indices checked. -/
def ingestChecked (w : AudioWindow) (call : IngestCall) :
    Checked (AudioWindow × Except WsprError Unit) := do
  match ← (w.noteSeq call.rtpSeq).locateChecked (w.wallOf call) call.rtpTimestamp with
  | (w, none) => return (w, .ok ())
  | (w, some offset) =>
    let last ← Checked.add offset call.nSamples
    if last > w.capacitySamples then return (w, .error (.bufferOverflow call.ssrc))
    let samples ← writeChecked w.samples offset 0
      (decodeChunks (decodeSampleOf call.encoding) call.payload)
    return ({ w with samples, samplesWritten := max w.samplesWritten last }, .ok ())

/-- The representation invariant. Before the first call nothing is written. -/
structure Represents (w : AudioWindow) : Prop where
  length : w.samples.length = w.capacitySamples
  start : w.startOffset < w.capacitySamples ∨ w.startOffset = 0 ∧ w.capacitySamples = 0
  written_le : w.samplesWritten ≤ w.capacitySamples
  silent : ∀ i, i < w.capacitySamples → i < w.startOffset ∨ w.samplesWritten ≤ i →
    w.samples[i]? = some 0
  fresh : w.rtpBase = none → w.samplesWritten = 0

theorem represents_new (windowStart : ℤ) (freq : F64) (rate secs : UInt32) :
    (new windowStart freq rate secs).Represents := by
  refine ⟨by simp [new], ?_, by simp [new], ?_, fun _ => rfl⟩
  · have hzero := Nat.eq_zero_or_pos (rate.toNat*secs.toNat)
    simp only [new, true_and]
    exact hzero.symm
  · intro i hi _
    have hi' : i < rate.toNat*secs.toNat := hi
    simp only [new, List.getElem?_replicate, if_pos hi']

/-- Where anchoring puts the window: at the clamped wall offset, or where it was. -/
theorem anchored_startOffset (w : AudioWindow) (wall : ℕ) (call : IngestCall) :
    (w.rtpBase = none ∧ (w.anchored wall call).startOffset = min wall (w.capacitySamples-1)) ∨
    (w.rtpBase ≠ none ∧ (w.anchored wall call).startOffset = w.startOffset) := by
  cases hbase : w.rtpBase with
  | none =>
    have hloc := locate_first (w := w.noteSeq call.rtpSeq) hbase wall call.rtpTimestamp
    exact Or.inl ⟨rfl, by rw [anchored, hloc]; rfl⟩
  | some base =>
    have hloc := locate_later (w := w.noteSeq call.rtpSeq) hbase wall call.rtpTimestamp
    exact Or.inr ⟨by simp, by rw [anchored, hloc]; rfl⟩

theorem anchored_rtpBase (w : AudioWindow) (wall : ℕ) (call : IngestCall) :
    (w.anchored wall call).rtpBase ≠ none := by
  cases hbase : w.rtpBase with
  | none => simp [anchored, locate_first (w := w.noteSeq call.rtpSeq) hbase]
  | some base => simp [anchored, locate_later (w := w.noteSeq call.rtpSeq) hbase, hbase]

/-- No packet is placed before the anchor. -/
theorem startOffset_le_placement {w : AudioWindow} {wall offset : ℕ} {call : IngestCall}
    (h : w.placement wall call = some offset) : (w.anchored wall call).startOffset ≤ offset := by
  cases hbase : w.rtpBase with
  | none =>
    have hloc := locate_first (w := w.noteSeq call.rtpSeq) hbase wall call.rtpTimestamp
    rw [placement, hloc] at h
    rw [anchored, hloc, ← Option.some.inj h]
  | some base =>
    have hloc := locate_later (w := w.noteSeq call.rtpSeq) hbase wall call.rtpTimestamp
    rw [placement, hloc] at h
    rw [anchored, hloc]
    simp only at h ⊢
    split_ifs at h
    rw [← Option.some.inj h]
    exact Nat.le_add_right _ _

namespace Represents
variable {w : AudioWindow}

/-- Anchoring keeps the invariant: if it moves the start, nothing is written yet. -/
theorem anchored (h : w.Represents) (wall : ℕ) (call : IngestCall) :
    (w.anchored wall call).Represents := by
  have hstart := anchored_startOffset w wall call
  refine ⟨by simpa using h.length, ?_, by simpa using h.written_le, ?_,
    fun hnone => absurd hnone (anchored_rtpBase w wall call)⟩
  · have hold := h.start
    rw [anchored_capacitySamples]
    obtain ⟨-, hs⟩ | ⟨-, hs⟩ := hstart <;> rw [hs] <;> omega
  · intro i hi hout
    rw [anchored_capacitySamples] at hi
    rw [anchored_samplesWritten] at hout
    rw [anchored_samples]
    obtain ⟨hnone, -⟩ | ⟨-, hs⟩ := hstart
    · have hzero := h.fresh hnone
      exact h.silent i hi (Or.inr (by omega))
    · rw [hs] at hout
      exact h.silent i hi hout

/-- Storing a block between the start and the end of the buffer keeps the invariant. -/
theorem store (h : w.Represents) (hbase : w.rtpBase ≠ none) (call : IngestCall) {offset : ℕ}
    (hstart : w.startOffset ≤ offset) (hfit : offset + call.nSamples ≤ w.capacitySamples) :
    (w.store call offset).Represents := by
  have hcount := call.length_decoded
  refine ⟨?_, h.start, ?_, ?_, fun hnone => absurd hnone hbase⟩
  · simpa [AudioWindow.store] using h.length
  · have := h.written_le
    simp only [AudioWindow.store]
    omega
  · intro i hi hout
    simp only [AudioWindow.store] at hi hout ⊢
    rw [getElem?_overlay _ _ _ _ (by rw [h.length]; exact hi), hcount, if_neg (by omega)]
    exact h.silent i hi (by omega)

theorem ingest (h : w.Represents) (call : IngestCall) : (w.ingest call).1.Represents := by
  have hanch := h.anchored (w.wallOf call) call
  unfold AudioWindow.ingest
  obtain ⟨-, hc⟩ | ⟨offset, -, -, hc⟩ | ⟨offset, hp, hfit, hc⟩ :=
    ingestAt_cases w (w.wallOf call) call <;> rw [hc]
  · exact hanch
  · exact hanch
  · refine hanch.store (anchored_rtpBase w _ call) call (startOffset_le_placement hp) ?_
    rw [anchored_capacitySamples]
    exact hfit

theorem ingestAll (h : w.Represents) (calls : List IngestCall) :
    (w.ingestAll calls).1.Represents := by
  induction calls generalizing w with
  | nil => exact h
  | cons call calls ih => exact ih (h.ingest call)

end Represents

theorem wrapDelta_lt (base t : UInt32) : wrapDelta base t < 2^32 := by
  have hadv := advance_lt base t
  rw [wrapDelta_eq]
  split_ifs <;> omega

theorem wrapDeltaChecked_eq (base t : UInt32) : wrapDeltaChecked base t = .ok (wrapDelta base t) := by
  have hb := base.toNat_lt
  have ht := t.toNat_lt
  have hsub : Checked.addInt t.toNat (-base.toNat) = .ok ((t.toNat : ℤ) - base.toNat) :=
    Checked.addInt_ok (by omega)
  have hwrap : RTP_WRAP = 2^32 := rfl
  simp only [wrapDeltaChecked, wrapDelta, hsub, hwrap, Checked.ok_bind]
  split_ifs
  · exact Checked.addInt_ok (by omega)
  · rfl

/-- The checked computation of the offset succeeds on every buffer that can be allocated. -/
theorem locateChecked_eq {w : AudioWindow} (hstart : w.startOffset < 2^62) (wall : ℕ) (t : UInt32) :
    w.locateChecked wall t = .ok (w.locate wall t) := by
  unfold locateChecked locate
  cases w.rtpBase with
  | none => rfl
  | some base =>
    have hlt := wrapDelta_lt base t
    simp only [wrapDeltaChecked_eq, Checked.ok_bind]
    by_cases hneg : wrapDelta base t < 0
    · simp only [if_pos hneg]
      rfl
    · have habs : Checked.addInt (asI64 w.startOffset) (wrapDelta base t) =
          .ok ((w.startOffset : ℤ) + wrapDelta base t) := by
        rw [asI64_eq (by omega)]
        exact Checked.addInt_ok (by omega)
      simp only [if_neg hneg, habs, Checked.ok_bind]
      split_ifs <;> rfl

/-- No packet is placed more than the range of a timestamp after the buffer. -/
theorem placement_lt {w : AudioWindow} (h : w.Represents) {wall offset : ℕ} {call : IngestCall}
    (hp : w.placement wall call = some offset) : offset < w.capacitySamples + 2^32 := by
  have hstart := h.start
  cases hbase : w.rtpBase with
  | none =>
    rw [placement, locate_first (w := w.noteSeq call.rtpSeq) hbase] at hp
    have heq := Option.some.inj hp
    simp only [noteSeq_capacitySamples] at heq
    omega
  | some base =>
    have hadv := advance_lt base call.rtpTimestamp
    rw [placement, locate_later (w := w.noteSeq call.rtpSeq) hbase] at hp
    simp only [noteSeq_startOffset] at hp
    split_ifs at hp
    have heq := Option.some.inj hp
    omega

/-- On a window that satisfies the invariant every check of `ingest` succeeds. -/
theorem ingestChecked_eq {w : AudioWindow} (h : w.Represents) (hcap : w.capacitySamples < 2^62)
    (call : IngestCall) (hslice : call.payload.length < 2^63) :
    w.ingestChecked call = .ok (w.ingest call) := by
  have hstart : (w.noteSeq call.rtpSeq).startOffset < 2^62 := by
    have := h.start
    simp only [noteSeq_startOffset]
    omega
  have hlength := (h.anchored (w.wallOf call) call).length
  have hacap := anchored_capacitySamples w (w.wallOf call) call
  have hpair : (w.noteSeq call.rtpSeq).locate (w.wallOf call) call.rtpTimestamp =
      (w.anchored (w.wallOf call) call, w.placement (w.wallOf call) call) := rfl
  unfold ingestChecked AudioWindow.ingest ingestAt
  simp only [locateChecked_eq hstart, hpair, Checked.ok_bind]
  cases hp : w.placement (w.wallOf call) call with
  | none => rfl
  | some offset =>
    have hoff := placement_lt h hp
    have hn : call.nSamples < 2^62 := by
      unfold IngestCall.nSamples
      omega
    simp only [Checked.add_ok (show offset + call.nSamples < 2^64 by omega), Checked.ok_bind]
    split_ifs with hover
    · rfl
    · have hcount := call.length_decoded
      rw [writeChecked_eq _ _ _ _ (by omega) (by omega), Nat.add_zero]
      rfl

theorem ingestAll_capacitySamples (w : AudioWindow) (calls : List IngestCall) :
    (w.ingestAll calls).1.capacitySamples = w.capacitySamples := by
  induction calls generalizing w with
  | nil => rfl
  | cons call calls ih => exact (ih _).trans (ingest_frame w call).2.2.2

/-- A call leaves an anchor and its sequence number. -/
theorem ingest_called (w : AudioWindow) (call : IngestCall) :
    (w.ingest call).1.rtpBase ≠ none ∧ (w.ingest call).1.lastSeq ≠ none := by
  have hbase := anchored_rtpBase w (w.wallOf call) call
  unfold ingest
  obtain ⟨-, hc⟩ | ⟨offset, -, -, hc⟩ | ⟨offset, -, -, hc⟩ :=
    ingestAt_cases w (w.wallOf call) call <;> rw [hc] <;> exact ⟨hbase, by simp [store]⟩

theorem ingestAll_called (w : AudioWindow) (call : IngestCall) (calls : List IngestCall) :
    (w.ingestAll (call::calls)).1.rtpBase ≠ none ∧ (w.ingestAll (call::calls)).1.lastSeq ≠ none := by
  induction calls generalizing w call with
  | nil => exact w.ingest_called call
  | cons next calls ih => exact ih (w.ingest call).1 next

/-- What is written is never taken back, and a call that fails or is discarded writes nothing. -/
theorem ingest_written (w : AudioWindow) (call : IngestCall) :
    w.samplesWritten ≤ (w.ingest call).1.samplesWritten ∧
    ((w.ingest call).2 ≠ .ok () ∨ w.placement (w.wallOf call) call = none →
      (w.ingest call).1.samples = w.samples ∧
      (w.ingest call).1.samplesWritten = w.samplesWritten) := by
  have hsamples := anchored_samples w (w.wallOf call) call
  have hwritten := anchored_samplesWritten w (w.wallOf call) call
  unfold ingest
  obtain ⟨-, hc⟩ | ⟨offset, -, -, hc⟩ | ⟨offset, hp, -, hc⟩ :=
    ingestAt_cases w (w.wallOf call) call <;> rw [hc]
  · exact ⟨hwritten.ge, fun _ => ⟨hsamples, hwritten⟩⟩
  · exact ⟨hwritten.ge, fun _ => ⟨hsamples, hwritten⟩⟩
  · refine ⟨?_, ?_⟩
    · simp only [store, hwritten]
      exact le_max_left _ _
    · rintro (hfail | hnone)
      · contradiction
      · rw [hp] at hnone
        contradiction

/-- Whatever a window has been given, it satisfies the invariant, it has an anchor and a
sequence number exactly if it was given anything, and every further call passes all its
checks, never takes back what is written, and writes nothing if it fails or is discarded. -/
theorem ingestAll_represents (windowStart : ℤ) (freq : F64) (rate secs : UInt32) (fresh : AudioWindow)
    (hnew : newChecked windowStart freq rate secs = some fresh) (calls : List IngestCall) :
    let w := (fresh.ingestAll calls).1
    w.Represents ∧ w.capacitySamples = rate.toNat*secs.toNat ∧
    (w.rtpBase = none ↔ calls = []) ∧ (w.lastSeq = none ↔ calls = []) ∧
    ∀ call : IngestCall, call.payload.length < 2^63 →
      w.ingestChecked call = .ok (w.ingest call) ∧
      w.samplesWritten ≤ (w.ingest call).1.samplesWritten ∧
      ((w.ingest call).2 ≠ .ok () ∨ w.placement (w.wallOf call) call = none →
        (w.ingest call).1.samples = w.samples ∧
        (w.ingest call).1.samplesWritten = w.samplesWritten) := by
  intro w
  unfold newChecked at hnew
  split_ifs at hnew with halloc
  have hfresh := Option.some.inj hnew
  have hrep : w.Represents := by
    have h := (represents_new windowStart freq rate secs).ingestAll calls
    rwa [hfresh] at h
  have hcap : w.capacitySamples = rate.toNat*secs.toNat := by
    rw [ingestAll_capacitySamples, ← hfresh]
    rfl
  refine ⟨hrep, hcap, ?_, ?_, ?_⟩
  · cases calls with
    | nil => simp [w, ingestAll, ← hfresh, new]
    | cons call calls => simpa using (ingestAll_called fresh call calls).1
  · cases calls with
    | nil => simp [w, ingestAll, ← hfresh, new]
    | cons call calls => simpa using (ingestAll_called fresh call calls).2
  · intro call hslice
    exact ⟨ingestChecked_eq hrep (by omega) call hslice, ingest_written w call⟩

/-- A window of 111 samples, joined at second 100, after an odd payload that fits, an
overflow and a discarded packet. -/
theorem ingestAll_represents_mixed :
    let calls : List IngestCall := [⟨[0,7,9], 5, 1, 0, 9, 2, 100000000000⟩,
      ⟨[0,8], 90, 1, 1, 9, 2, 101000000000⟩, ⟨[], 4, 1, 3, 9, 1, 102000000000⟩]
    let w := ((new 0 ⟨0⟩ 1 111).ingestAll calls).1
    w.Represents ∧ w.capacitySamples = 111 ∧ w.lastSeq ≠ none := by
  intro calls w
  have hnew : newChecked 0 ⟨0⟩ 1 111 = some (new 0 ⟨0⟩ 1 111) := if_pos (by decide)
  obtain ⟨hrep, hcap, -, hseq, -⟩ := ingestAll_represents 0 ⟨0⟩ 1 111 _ hnew calls
  exact ⟨hrep, hcap, fun h => by simpa [calls] using hseq.mp h⟩

end AudioWindow
end Wsprrs
