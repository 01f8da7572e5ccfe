import Wsprrs.Buffer.Ingest

/-! Two runs of one window whose RTP clocks differ by a constant: what depends on the
epoch of the clock, and what does not. -/
namespace Wsprrs
namespace IngestCall

/-- The same packet from a sender whose RTP clock started `c` ticks earlier. -/
def shift (c : UInt32) (call : IngestCall) : IngestCall :=
  { call with rtpTimestamp := call.rtpTimestamp + c }

end IngestCall

namespace AudioWindow

/-- The window that a shifted run holds. -/
def rebase (c : UInt32) (w : AudioWindow) : AudioWindow :=
  { w with rtpBase := w.rtpBase.map (fun base => base + c) }

/-- Shifting leaves on the same side of the anchor every packet in the backward half. -/
def KeepsOrder (c base : UInt32) (call : IngestCall) : Prop :=
  2^31 ≤ advance base call.rtpTimestamp →
    (call.rtpTimestamp < base ↔ call.rtpTimestamp + c < base + c)

instance (c base : UInt32) (call : IngestCall) : Decidable (KeepsOrder c base call) := by
  unfold KeepsOrder
  infer_instance

/-- The window is rebased whatever the epoch; the result agrees exactly for the packets
that keep their order. -/
theorem ingest_shift {w : AudioWindow} {base : UInt32} (hbase : w.rtpBase = some base)
    (hcap : w.capacitySamples < 2^31) (c : UInt32) (call : IngestCall) :
    ((w.rebase c).ingest (call.shift c)).1 = (w.ingest call).1.rebase c ∧
    (((w.rebase c).ingest (call.shift c)).2 = (w.ingest call).2 ↔ KeepsOrder c base call) := by
  have hbase' : (w.rebase c).rtpBase = some (base + c) := by rw [rebase, hbase]; rfl
  have hadv : advance (base + c) (call.shift c).rtpTimestamp = advance base call.rtpTimestamp :=
    advance_add base call.rtpTimestamp c
  have hcap' : (w.rebase c).capacitySamples = w.capacitySamples := rfl
  have hnote : (w.rebase c).noteSeq (call.shift c).rtpSeq = (w.noteSeq call.rtpSeq).rebase c := rfl
  rw [ingest_later hbase call (by omega), ingest_later hbase' (call.shift c) (by rw [hadv, hcap']; omega),
    hadv, hnote]
  by_cases hhalf : 2^31 ≤ advance base call.rtpTimestamp
  · rw [if_pos hhalf, if_pos hhalf]
    refine ⟨rfl, ?_⟩
    have htime : (call.shift c).rtpTimestamp = call.rtpTimestamp + c := rfl
    have hssrc : (call.shift c).ssrc = call.ssrc := rfl
    rw [KeepsOrder, htime, hssrc]
    by_cases h1 : call.rtpTimestamp < base <;>
      by_cases h2 : call.rtpTimestamp + c < base + c <;> simp only [h1, h2, hhalf, if_true,
        if_false, forall_const, iff_true, iff_false, reduceCtorEq, not_true_eq_false]
  · have hkeep : KeepsOrder c base call := fun h => absurd h hhalf
    rw [if_neg hhalf, if_neg hhalf]
    have hfit : ((w.rebase c).startOffset + advance base call.rtpTimestamp + (call.shift c).nSamples ≤
        (w.rebase c).capacitySamples) ↔
        (w.startOffset + advance base call.rtpTimestamp + call.nSamples ≤ w.capacitySamples) := Iff.rfl
    by_cases hroom : w.startOffset + advance base call.rtpTimestamp + call.nSamples ≤ w.capacitySamples
    · rw [if_pos hroom, if_pos (hfit.mpr hroom)]
      exact ⟨rfl, iff_of_true rfl hkeep⟩
    · rw [if_neg hroom, if_neg (fun h => hroom (hfit.mp h))]
      exact ⟨rfl, iff_of_true rfl hkeep⟩

/-- After the anchor is set, a shifted run leaves the rebased window, and its results
agree exactly when every packet keeps its order. -/
theorem ingestAll_shift {w : AudioWindow} {base : UInt32} (hbase : w.rtpBase = some base)
    (hcap : w.capacitySamples < 2^31) (c : UInt32) (calls : List IngestCall) :
    ((w.rebase c).ingestAll (calls.map (IngestCall.shift c))).1 = (w.ingestAll calls).1.rebase c ∧
    (((w.rebase c).ingestAll (calls.map (IngestCall.shift c))).2 = (w.ingestAll calls).2 ↔
      ∀ call ∈ calls, KeepsOrder c base call) := by
  induction calls generalizing w with
  | nil => simp [ingestAll]
  | cons call calls ih =>
    obtain ⟨hwin, hres⟩ := ingest_shift hbase hcap c call
    obtain ⟨hkeep, hframe⟩ := ingest_anchor hbase call
    obtain ⟨ihwin, ihres⟩ := ih hkeep (by rw [hframe]; exact hcap)
    simp only [ingestAll, List.map_cons, hwin, ihwin, List.cons.injEq, hres, ihres,
      List.forall_mem_cons, true_and]

/-- The condition on a whole sequence: its later packets keep their order. -/
def EpochSafe (c : UInt32) : List IngestCall → Prop
  | [] => True
  | first::rest => ∀ call ∈ rest, KeepsOrder c first.rtpTimestamp call

instance (c : UInt32) (calls : List IngestCall) : Decidable (EpochSafe c calls) := by
  cases calls <;> unfold EpochSafe <;> infer_instance

/-- What a shift of the RTP epoch must not change: every result, and what the window holds. -/
def SameOutcome (r r' : AudioWindow × List (Except WsprError Unit)) : Prop :=
  r'.2 = r.2 ∧ r'.1.samples = r.1.samples ∧ r'.1.samplesWritten = r.1.samplesWritten ∧
    r'.1.startOffset = r.1.startOffset ∧ r'.1.gapCount = r.1.gapCount

/-- The first call anchors the shifted run at the shifted timestamp and at the same place. -/
theorem ingest_first_shift {w : AudioWindow} (hbase : w.rtpBase = none) (c : UInt32)
    (call : IngestCall) :
    (w.ingest (call.shift c)).1 = (w.ingest call).1.rebase c ∧
    (w.ingest (call.shift c)).2 = (w.ingest call).2 := by
  have hloc := locate_first (w := w.noteSeq call.rtpSeq) hbase (w.wallOf call) call.rtpTimestamp
  have hloc' := locate_first (w := w.noteSeq call.rtpSeq) hbase (w.wallOf call)
    (call.rtpTimestamp + c)
  have hshift : w.ingest (call.shift c) = w.ingestAt (w.wallOf call) (call.shift c) := rfl
  have hseq : (call.shift c).rtpSeq = call.rtpSeq := rfl
  have htime : (call.shift c).rtpTimestamp = call.rtpTimestamp + c := rfl
  have hn : (call.shift c).nSamples = call.nSamples := rfl
  rw [hshift, ingest]
  simp only [ingestAt, hseq, htime, hn, hloc, hloc']
  split_ifs <;> exact ⟨rfl, rfl⟩

/-- Shifting every timestamp of a sequence by `c` leaves all results and the contents of
the window unchanged exactly when no packet of the backward half changes sides of the
anchor. The window's contents never depend on the epoch; the results do. -/
theorem ingestAll_shift_iff (windowStart : ℤ) (freq : F64) (rate secs : UInt32)
    (calls : List IngestCall) (c : UInt32) (hcap : rate.toNat*secs.toNat < 2^31) :
    SameOutcome ((new windowStart freq rate secs).ingestAll calls)
      ((new windowStart freq rate secs).ingestAll (calls.map (IngestCall.shift c))) ↔
    EpochSafe c calls := by
  cases calls with
  | nil => simp [ingestAll, SameOutcome, EpochSafe]
  | cons first rest =>
    have hbase := (ingest_first (w := new windowStart freq rate secs) rfl first).1
    obtain ⟨hwin, hres⟩ := ingest_first_shift (w := new windowStart freq rate secs) rfl c first
    have hframe := (ingest_frame (new windowStart freq rate secs) first).2.2.2
    obtain ⟨ihwin, ihres⟩ := ingestAll_shift hbase (by rw [hframe]; exact hcap) c rest
    simp only [SameOutcome, EpochSafe, ingestAll, List.map_cons, hwin, hres, ihwin,
      List.cons.injEq, true_and]
    constructor
    · rintro ⟨h, -⟩
      exact ihres.mp h
    · intro h
      exact ⟨ihres.mpr h, rfl, rfl, rfl, rfl⟩

theorem ingestAll_shift_iff_oneHertz :
    SameOutcome ((new 0 ⟨0⟩ 1 111).ingestAll [⟨[0,7], 5, 1, 0, 9, 2, 0⟩, ⟨[0,8], 6, 1, 1, 9, 2, 0⟩])
      ((new 0 ⟨0⟩ 1 111).ingestAll
        ([⟨[0,7], 5, 1, 0, 9, 2, 0⟩, ⟨[0,8], 6, 1, 1, 9, 2, 0⟩].map (IngestCall.shift 4294967290))) :=
  (ingestAll_shift_iff 0 ⟨0⟩ 1 111 _ 4294967290 (by decide)).mpr (by decide)

/-- A packet one tick older than the anchor is discarded with `Ok`. Five ticks of epoch
shift put the wrap between the two, and the same packet is an overflow. -/
theorem ingestAll_epoch_dependent :
    ((new 0 ⟨0⟩ 1 111).ingestAll
      [⟨[0,7], 5, 1, 1, 9, 2, 0⟩, ⟨[0,8], 4, 1, 0, 9, 2, 0⟩]).2 = [.ok (), .ok ()] ∧
    ((new 0 ⟨0⟩ 1 111).ingestAll
      ([⟨[0,7], 5, 1, 1, 9, 2, 0⟩, ⟨[0,8], 4, 1, 0, 9, 2, 0⟩].map (IngestCall.shift 4294967291))).2 =
      [.ok (), .error (.bufferOverflow 9)] := by
  decide +kernel

theorem ingestAll_anchor {w : AudioWindow} {base : UInt32} (hbase : w.rtpBase = some base)
    (calls : List IngestCall) :
    (w.ingestAll calls).1.rtpBase = some base ∧
    (w.ingestAll calls).1.capacitySamples = w.capacitySamples := by
  induction calls generalizing w with
  | nil => exact ⟨hbase, rfl⟩
  | cons call calls ih =>
    obtain ⟨hkeep, hframe⟩ := ingest_anchor hbase call
    obtain ⟨hbase', hcap'⟩ := ih hkeep
    exact ⟨hbase', hcap'.trans hframe⟩

/-- Under every shift a packet older than the anchor leaves the samples as they are. It is discarded
with `Ok` unless the shift puts the wrap between the two. -/
theorem older_discarded (windowStart : ℤ) (freq : F64) (rate secs : UInt32)
    (hcap : rate.toNat*secs.toNat < 2^31) (first call : IngestCall) (before : List IngestCall)
    (hold : 2^31 ≤ advance first.rtpTimestamp call.rtpTimestamp) (c : UInt32) :
    let w := ((new windowStart freq rate secs).ingestAll ((first::before).map (IngestCall.shift c))).1
    let r := w.ingest (call.shift c)
    r.1.samples = w.samples ∧ r.1.samplesWritten = w.samplesWritten ∧
      (r.2 = .ok () ↔ call.rtpTimestamp + c < first.rtpTimestamp + c) := by
  intro w r
  obtain ⟨hfirst, -⟩ := ingest_first (w := new windowStart freq rate secs) rfl (first.shift c)
  have hframe := (ingest_frame (new windowStart freq rate secs) (first.shift c)).2.2.2
  obtain ⟨hbase, hcapacity⟩ : w.rtpBase = some (first.rtpTimestamp + c) ∧ w.capacitySamples = _ :=
    ingestAll_anchor hfirst (before.map (IngestCall.shift c))
  have hold' : 2^31 ≤ advance (first.rtpTimestamp + c) (call.shift c).rtpTimestamp :=
    (advance_add first.rtpTimestamp call.rtpTimestamp c).symm ▸ hold
  have hroom : w.capacitySamples < 2^31 := by
    rw [hcapacity, hframe]
    exact hcap
  have hr : r = (w.noteSeq call.rtpSeq, if call.rtpTimestamp + c < first.rtpTimestamp + c then .ok ()
      else .error (.bufferOverflow call.ssrc)) := by
    simp only [r]
    rw [ingest_later hbase (call.shift c) (fun h => hroom.trans_le h), if_pos hold']
    rfl
  rw [hr]
  refine ⟨noteSeq_samples w call.rtpSeq, noteSeq_samplesWritten w call.rtpSeq, ?_⟩
  split_ifs with h <;> simp [h]

/-- In a sequence that is safe for a shift, the older packets that are discarded with `Ok` are still
so after it, and no others are. -/
theorem older_ok_iff_of_epochSafe (windowStart : ℤ) (freq : F64) (rate secs : UInt32)
    (hcap : rate.toNat*secs.toNat < 2^31) {first call : IngestCall} {before after : List IngestCall}
    {c : UInt32} (hsafe : EpochSafe c (first::(before ++ call::after)))
    (hold : 2^31 ≤ advance first.rtpTimestamp call.rtpTimestamp) :
    (((new windowStart freq rate secs).ingestAll
      ((first::before).map (IngestCall.shift c))).1.ingest (call.shift c)).2 = .ok () ↔
    call.rtpTimestamp < first.rtpTimestamp := by
  obtain ⟨-, -, hok⟩ := older_discarded windowStart freq rate secs hcap first call before hold c
  have hkeep : KeepsOrder c first.rtpTimestamp call := hsafe call (by simp)
  exact hok.trans (hkeep hold).symm

/-- The wrap can be put between the anchor and any packet: only sequences without older packets
are safe for every shift. -/
theorem epochSafe_forall_iff (first : IngestCall) (rest : List IngestCall) :
    (∀ c, EpochSafe c (first::rest)) ↔
      ∀ call ∈ rest, advance first.rtpTimestamp call.rtpTimestamp < 2^31 := by
  constructor
  · intro hsafe call hmem
    by_contra hnot
    have hold : 2^31 ≤ advance first.rtpTimestamp call.rtpTimestamp := not_lt.mp hnot
    have hne : call.rtpTimestamp ≠ first.rtpTimestamp := by
      intro heq
      simp [advance, heq] at hold
    -- One shift puts the anchor at zero, the other one the packet.
    have hanchor := hsafe (0 - first.rtpTimestamp) call hmem hold
    have hpacket := hsafe (0 - call.rtpTimestamp) call hmem hold
    rw [← UInt32.toNat_inj.ne] at hne
    simp only [UInt32.lt_iff_toNat_lt, UInt32.toNat_add, UInt32.toNat_sub, UInt32.toNat_zero]
      at hanchor hpacket
    have := first.rtpTimestamp.toNat_lt
    have := call.rtpTimestamp.toNat_lt
    omega
  · intro hnone c call hmem hold
    exact absurd hold (not_le.mpr (hnone call hmem))

end AudioWindow
end Wsprrs
