import Wsprrs.Buffer.Ingest

/-! Packets cut from one source of samples, delivered in any order with any of them
missing or repeated: which samples the buffer then holds, and where. -/
namespace Wsprrs
open BigEndian Status

def i16ToBeBytes (x : Int16) : List UInt8 := bytes 2 x.toUInt16.toNat
def i16ToLeBytes (x : Int16) : List UInt8 := (i16ToBeBytes x).reverse

/-- A packet of `count` samples from index `start` of the source, and the circumstances of
its delivery. -/
structure SourcePacket where
  start : ℤ
  count : ℕ
  bigEndian : Bool
  rtpSeq : UInt16
  sampleRateHz : UInt32
  ssrc : UInt32
  now : ℤ

namespace SourcePacket

/-- The RTP timestamp of source index `k` when index zero has timestamp `origin`. -/
def stamp (origin : UInt32) (k : ℤ) : UInt32 := UInt32.ofNat (((origin.toNat : ℤ) + k) % 2^32).toNat

/-- The samples that a packet carries. -/
def block (source : ℤ → Int16) (p : SourcePacket) : List Int16 :=
  (List.range p.count).map (fun j : ℕ => source (p.start + j))

/-- The packet as `ingest` receives it. -/
def call (source : ℤ → Int16) (origin : UInt32) (p : SourcePacket) : IngestCall where
  payload := (p.block source).flatMap (if p.bigEndian then i16ToBeBytes else i16ToLeBytes)
  rtpTimestamp := stamp origin p.start
  sampleRateHz := p.sampleRateHz
  rtpSeq := p.rtpSeq
  ssrc := p.ssrc
  encoding := if p.bigEndian then ENC_S16BE else ENC_S16LE
  now := p.now

@[simp] theorem block_length (source : ℤ → Int16) (p : SourcePacket) :
    (p.block source).length = p.count := by simp [block]

theorem i16FromBeBytes_toBeBytes (x : Int16) {b0 b1 : UInt8} (h : i16ToBeBytes x = [b0,b1]) :
    i16FromBeBytes b0 b1 = x := by
  rw [i16FromBeBytes, ← h, i16ToBeBytes, value_bytes_of_lt (by simpa using x.toUInt16.toNat_lt),
    UInt16.ofNat_toNat]
  rfl

/-- Decoding with the order of the encoding gives the encoded samples back. -/
theorem decodeChunks_encode (bigEndian : Bool) (xs : List Int16) :
    decodeChunks (decodeSampleOf (if bigEndian then ENC_S16BE else ENC_S16LE))
      (xs.flatMap (if bigEndian then i16ToBeBytes else i16ToLeBytes)) = xs := by
  induction xs with
  | nil => rfl
  | cons x xs ih =>
    obtain ⟨b0, b1, hb⟩ := List.length_eq_two.mp (bytes_length 2 x.toUInt16.toNat)
    have hx := i16FromBeBytes_toBeBytes x hb
    cases bigEndian with
    | true =>
      simp only [if_true, List.flatMap_cons] at ih ⊢
      rw [show i16ToBeBytes x = [b0,b1] from hb]
      simp only [List.cons_append, List.nil_append, decodeChunks, ih]
      rw [show decodeSampleOf ENC_S16BE = i16FromBeBytes from rfl, hx]
    | false =>
      simp only [Bool.false_eq_true, if_false, List.flatMap_cons] at ih ⊢
      rw [show i16ToLeBytes x = [b1,b0] by rw [i16ToLeBytes, show i16ToBeBytes x = [b0,b1] from hb]; rfl]
      simp only [List.cons_append, List.nil_append, decodeChunks, ih]
      rw [show decodeSampleOf ENC_S16LE = i16FromLeBytes from rfl, i16FromLeBytes, hx]

theorem decodeChunks_call (source : ℤ → Int16) (origin : UInt32) (p : SourcePacket) :
    decodeChunks (decodeSampleOf (p.call source origin).encoding) (p.call source origin).payload =
      p.block source :=
  decodeChunks_encode p.bigEndian (p.block source)

theorem call_nSamples (source : ℤ → Int16) (origin : UInt32) (p : SourcePacket) :
    (p.call source origin).nSamples = p.count := by
  have h (xs : List Int16) :
      (xs.flatMap (if p.bigEndian then i16ToBeBytes else i16ToLeBytes)).length = 2*xs.length := by
    induction xs with
    | nil => rfl
    | cons x xs ih =>
      rw [List.flatMap_cons, List.length_append, ih, List.length_cons]
      split <;> simp [i16ToLeBytes, i16ToBeBytes] <;> ring
  rw [IngestCall.nSamples, call, h, block_length]
  omega

/-- Timestamps advance as source indices do, modulo 2^32. -/
theorem advance_stamp (origin : UInt32) (k k0 : ℤ) :
    (advance (stamp origin k0) (stamp origin k) : ℤ) = (k - k0) % 2^32 := by
  have hk := advance_eq (stamp origin k0) (stamp origin k)
  have hlt := advance_lt (stamp origin k0) (stamp origin k)
  have hval (j : ℤ) : ((stamp origin j).toNat : ℤ) = ((origin.toNat : ℤ) + j) % 2^32 := by
    rw [stamp, UInt32.toNat_ofNat']
    omega
  simp only [UInt32.lt_iff_toNat_lt] at hk
  have h0 := hval k0
  have h1 := hval k
  split_ifs at hk <;> omega

/-- The position after the last sample of a packet, in a buffer where index `k0` of the
source lies at `s`. -/
def endPos (k0 : ℤ) (s : ℕ) (p : SourcePacket) : ℤ := s + (p.start - k0) + p.count

/-- A packet not older than the first one, that fits the buffer as a whole. -/
def Admitted (k0 : ℤ) (s cap : ℕ) (p : SourcePacket) : Prop :=
  k0 ≤ p.start ∧ p.endPos k0 s ≤ cap

/-- Source index `k` lies in a packet. -/
def Contains (k : ℤ) (p : SourcePacket) : Prop := p.start ≤ k ∧ k < p.start + p.count

instance (k0 : ℤ) (s cap : ℕ) (p : SourcePacket) : Decidable (p.Admitted k0 s cap) := by
  unfold Admitted
  infer_instance

instance (k : ℤ) (p : SourcePacket) : Decidable (p.Contains k) := by
  unfold Contains
  infer_instance

end SourcePacket

open SourcePacket

/-- Source index `k` lies in a packet that was fed and admitted. -/
def Received (k0 : ℤ) (s cap : ℕ) (fed : List SourcePacket) (k : ℤ) : Prop :=
  ∃ p ∈ fed, p.Admitted k0 s cap ∧ p.Contains k

instance (k0 : ℤ) (s cap : ℕ) (fed : List SourcePacket) (k : ℤ) :
    Decidable (Received k0 s cap fed k) := by
  unfold Received
  infer_instance

/-- The buffer holds the received part of the source at its place, silence elsewhere, and
the high-water mark is the largest end position, or zero. -/
structure Placed (source : ℤ → Int16) (k0 : ℤ) (s cap : ℕ) (fed : List SourcePacket)
    (w : AudioWindow) : Prop where
  samples_length : w.samples.length = cap
  samples_eq : ∀ i < cap, w.samples[i]? =
    some (if Received k0 s cap fed (k0 + (i - s)) then source (k0 + (i - s)) else 0)
  written_ge : ∀ p ∈ fed, p.Admitted k0 s cap → p.endPos k0 s ≤ w.samplesWritten
  written_eq : (∃ p ∈ fed, p.Admitted k0 s cap ∧ p.endPos k0 s = w.samplesWritten) ∨
    ((∀ p ∈ fed, ¬ p.Admitted k0 s cap) ∧ w.samplesWritten = 0)

namespace Placed
variable {source : ℤ → Int16} {k0 : ℤ} {s cap : ℕ} {fed : List SourcePacket} {w w' : AudioWindow}
  {p : SourcePacket}

/-- The picture is one of the samples and the high-water mark alone. -/
theorem congr (h : Placed source k0 s cap fed w) (hsamples : w'.samples = w.samples)
    (hwritten : w'.samplesWritten = w.samplesWritten) : Placed source k0 s cap fed w' := by
  obtain ⟨h1, h2, h3, h4⟩ := h
  rw [← hsamples] at h1 h2
  rw [← hwritten] at h3 h4
  exact ⟨h1, h2, h3, h4⟩

/-- A packet that is not admitted leaves the picture as it was. -/
theorem skip (h : Placed source k0 s cap fed w) (hp : ¬ p.Admitted k0 s cap) :
    Placed source k0 s cap (p::fed) w := by
  have hrec (k : ℤ) : Received k0 s cap (p::fed) k ↔ Received k0 s cap fed k := by
    simp [Received, hp]
  refine ⟨h.samples_length, ?_, ?_, ?_⟩
  · intro i hi
    rw [h.samples_eq i hi]
    simp only [hrec]
  · intro q hq hadm
    obtain rfl | hq := List.mem_cons.mp hq
    · exact absurd hadm hp
    · exact h.written_ge q hq hadm
  · simpa [hp] using h.written_eq

/-- An admitted packet adds its samples at its place. -/
theorem store (h : Placed source k0 s cap fed w) (hp : p.Admitted k0 s cap) (origin : UInt32)
    {offset : ℕ} (hoffset : (offset : ℤ) = s + (p.start - k0)) :
    Placed source k0 s cap (p::fed) (w.store (p.call source origin) offset) := by
  obtain ⟨hstart, hend⟩ := hp
  simp only [endPos] at hend
  have hlen := h.samples_length
  have hsamples : (w.store (p.call source origin) offset).samples =
      overlay w.samples offset (p.block source) := by
    rw [AudioWindow.store, decodeChunks_call]
  have hwritten : (w.store (p.call source origin) offset).samplesWritten =
      max w.samplesWritten (offset + p.count) := by
    rw [AudioWindow.store, call_nSamples]
  refine ⟨by rw [hsamples, overlay_length, hlen], ?_, ?_, ?_⟩
  · intro i hi
    rw [hsamples, getElem?_overlay _ _ _ _ (by omega), block_length]
    by_cases hin : offset ≤ i ∧ i < offset + p.count
    · have hk : p.start + ((i - offset : ℕ) : ℤ) = k0 + (i - s) := by omega
      have hrec : Received k0 s cap (p::fed) (k0 + (i - s)) :=
        ⟨p, by simp, ⟨hstart, hend⟩, by constructor <;> omega⟩
      rw [if_pos hin, if_pos hrec, block, List.getElem?_map, List.getElem?_range (by omega),
        Option.map_some, hk]
    · have hnot : ¬ p.Contains (k0 + (i - s)) := by
        rintro ⟨h1, h2⟩
        omega
      have hrec : Received k0 s cap (p::fed) (k0 + (i - s)) ↔ Received k0 s cap fed (k0 + (i - s)) := by
        simp [Received, hnot]
      rw [if_neg hin, h.samples_eq i hi]
      simp only [hrec]
  · intro q hq hadm
    rw [hwritten]
    obtain rfl | hq := List.mem_cons.mp hq
    · simp only [endPos]
      omega
    · have := h.written_ge q hq hadm
      omega
  · left
    rw [hwritten]
    by_cases hmax : w.samplesWritten ≤ offset + p.count
    · refine ⟨p, by simp, ⟨hstart, hend⟩, ?_⟩
      simp only [endPos]
      omega
    · obtain ⟨q, hq, hadm, he⟩ | ⟨-, hzero⟩ := h.written_eq
      · exact ⟨q, by simp [hq], hadm, by omega⟩
      · omega

end Placed

namespace AudioWindow
variable {source : ℤ → Int16} {k0 : ℤ} {s cap : ℕ} {fed : List SourcePacket} {w : AudioWindow}

/-- The state between two calls: the anchor of the first packet and the picture so far. -/
structure Anchored (source : ℤ → Int16) (origin : UInt32) (k0 : ℤ) (s cap : ℕ)
    (fed : List SourcePacket) (w : AudioWindow) : Prop where
  rtpBase : w.rtpBase = some (stamp origin k0)
  startOffset : w.startOffset = s
  capacity : w.capacitySamples = cap
  placed : Placed source k0 s cap fed w

/-- One later packet, within half the circle of the first, keeps the picture. -/
theorem Anchored.ingest {origin : UInt32} (h : Anchored source origin k0 s cap fed w)
    (hcap : cap ≤ 2^31) (p : SourcePacket) (hnear : |p.start - k0| < 2^31) :
    Anchored source origin k0 s cap (p::fed) (w.ingest (p.call source origin)).1 := by
  have hadv := advance_stamp origin p.start k0
  obtain ⟨hlow, hhigh⟩ := abs_lt.mp hnear
  have htime : (p.call source origin).rtpTimestamp = stamp origin p.start := rfl
  have hwcap := h.capacity
  have hlater := ingest_later h.rtpBase (p.call source origin) (by rw [htime]; omega)
  obtain ⟨hbase, hcap'⟩ := ingest_anchor h.rtpBase (p.call source origin)
  have hskip (hp : ¬ p.Admitted k0 s cap) (hsame : (w.ingest (p.call source origin)).1 =
      w.noteSeq (p.call source origin).rtpSeq) :
      Anchored source origin k0 s cap (p::fed) (w.ingest (p.call source origin)).1 := by
    refine ⟨hbase, ?_, hcap'.trans hwcap, ?_⟩ <;> rw [hsame]
    · exact h.startOffset
    · exact (h.placed.skip hp).congr rfl rfl
  rw [h.startOffset, hwcap, call_nSamples, htime] at hlater
  by_cases hback : p.start < k0
  · -- older than the first packet: in the backward half, whatever the result is
    refine hskip (fun hadm => not_le.mpr hback hadm.1) ?_
    rw [hlater, if_pos (by omega)]
  · rw [if_neg (by omega)] at hlater
    by_cases hfit : s + advance (stamp origin k0) (stamp origin p.start) + p.count ≤ cap
    · rw [if_pos hfit] at hlater
      have hadm : p.Admitted k0 s cap := ⟨not_lt.mp hback, by simp only [endPos]; omega⟩
      have hnote : Placed source k0 s cap fed (w.noteSeq (p.call source origin).rtpSeq) :=
        h.placed.congr rfl rfl
      refine ⟨hbase, ?_, hcap'.trans hwcap, ?_⟩ <;> rw [hlater]
      · exact h.startOffset
      · exact hnote.store hadm origin (by omega)
    · rw [if_neg hfit] at hlater
      refine hskip (fun hadm => hfit ?_) (by rw [hlater])
      have := hadm.2
      simp only [endPos] at this
      omega

/-- The first packet of a fresh window sets the anchor. -/
theorem anchored_first (source : ℤ → Int16) (origin : UInt32) (windowStart : ℤ) (freq : F64)
    (rate secs : UInt32) (first : SourcePacket) :
    let w := new windowStart freq rate secs
    let s := min (w.wallOf (first.call source origin)) (rate.toNat*secs.toNat - 1)
    Anchored source origin first.start s (rate.toNat*secs.toNat) [first]
      (w.ingest (first.call source origin)).1 := by
  intro w s
  have hfresh : Placed source first.start s (rate.toNat*secs.toNat) [] w := by
    refine ⟨by simp [w, new], ?_, by simp, Or.inr ⟨by simp, rfl⟩⟩
    intro i hi
    simp [w, new, Received, hi]
  have hloc := locate_first (w := w.noteSeq (first.call source origin).rtpSeq) rfl
    (w.wallOf (first.call source origin)) (first.call source origin).rtpTimestamp
  have hover : s + first.count ≤ rate.toNat*secs.toNat ↔
      ¬ (min (w.wallOf (first.call source origin))
        ((w.noteSeq (first.call source origin).rtpSeq).capacitySamples - 1) + first.count >
          (w.noteSeq (first.call source origin).rtpSeq).capacitySamples) := not_lt.symm
  simp only [AudioWindow.ingest, ingestAt, hloc, call_nSamples]
  by_cases hfit : s + first.count ≤ rate.toNat*secs.toNat
  · have hadm : first.Admitted first.start s (rate.toNat*secs.toNat) := by
      refine ⟨le_rfl, ?_⟩
      simp only [endPos]
      omega
    have hnote : Placed source first.start s (rate.toNat*secs.toNat) []
        { w.noteSeq (first.call source origin).rtpSeq with
          rtpBase := some (first.call source origin).rtpTimestamp, startOffset := s } :=
      hfresh.congr rfl rfl
    have hstored := hnote.store hadm origin (by omega : (s : ℤ) = s + (first.start - first.start))
    rw [AudioWindow.store, call_nSamples] at hstored
    rw [if_neg (hover.mp hfit)]
    exact ⟨rfl, rfl, rfl, hstored⟩
  · have hadm : ¬ first.Admitted first.start s (rate.toNat*secs.toNat) := by
      rintro ⟨-, h⟩
      simp only [endPos] at h
      omega
    rw [if_pos (not_not.mp (mt hover.mpr hfit))]
    exact ⟨rfl, rfl, rfl, (hfresh.skip hadm).congr rfl rfl⟩

/-- Later packets, in any order, keep the picture. -/
theorem Anchored.ingestAll {origin : UInt32} (h : Anchored source origin k0 s cap fed w)
    (hcap : cap ≤ 2^31) (ps : List SourcePacket) (hnear : ∀ p ∈ ps, |p.start - k0| < 2^31) :
    Anchored source origin k0 s cap (ps.reverse ++ fed)
      (w.ingestAll (ps.map (SourcePacket.call source origin))).1 := by
  induction ps generalizing w fed with
  | nil => exact h
  | cons p ps ih =>
    have hstep := h.ingest hcap p (hnear p (by simp))
    have hrest := ih hstep (fun q hq => hnear q (by simp [hq]))
    rw [List.reverse_cons, List.append_assoc]
    exact hrest

end AudioWindow

/-- The picture does not depend on the order in which packets are listed. -/
theorem Placed.perm {source : ℤ → Int16} {k0 : ℤ} {s cap : ℕ} {fed fed' : List SourcePacket}
    {w : AudioWindow} (h : Placed source k0 s cap fed w) (hmem : ∀ p, p ∈ fed' ↔ p ∈ fed) :
    Placed source k0 s cap fed' w := by
  have hrec (k : ℤ) : Received k0 s cap fed' k ↔ Received k0 s cap fed k := by
    simp only [Received, hmem]
  obtain ⟨h1, h2, h3, h4⟩ := h
  refine ⟨h1, ?_, ?_, ?_⟩
  · simpa only [hrec] using h2
  · simpa only [hmem] using h3
  · simpa only [hmem] using h4

/-- Whatever packets of a source are fed to a fresh window, in whatever order: with `s` the
clamped wall-clock offset of the first packet and `k0` its first source index, the buffer
holds the source samples of exactly the admitted packets, sample `k` at `s + (k - k0)`,
zero elsewhere, and the high-water mark is the largest end position of an admitted packet. -/
theorem ingestAll_places_source (source : ℤ → Int16) (origin : UInt32) (windowStart : ℤ)
    (freq : F64) (rate secs : UInt32) (first : SourcePacket) (rest : List SourcePacket)
    (hcap : rate.toNat*secs.toNat ≤ 2^31) (hnear : ∀ p ∈ rest, |p.start - first.start| < 2^31) :
    let w := AudioWindow.new windowStart freq rate secs
    let cap := rate.toNat*secs.toNat
    let s := min (w.wallOf (first.call source origin)) (cap - 1)
    Placed source first.start s cap (first::rest)
      (w.ingestAll ((first::rest).map (SourcePacket.call source origin))).1 := by
  intro w cap s
  have hfirst := AudioWindow.anchored_first source origin windowStart freq rate secs first
  have hall := hfirst.ingestAll hcap rest hnear
  exact hall.placed.perm (by simp [or_comm])

/-- A stream whose timestamp wraps, joined two seconds late, its second packet delivered
after the third one. -/
theorem ingestAll_places_source_wrap :
    let source : ℤ → Int16 := fun k => Int16.ofInt (k+1)
    let first : SourcePacket := ⟨0, 3, true, 7, 1, 9, 2000000000⟩
    let rest : List SourcePacket := [⟨5, 2, false, 9, 1, 9, 7000000000⟩, ⟨3, 2, true, 8, 1, 9, 7500000000⟩]
    Placed source 0 2 111 (first::rest)
      ((AudioWindow.new 0 ⟨0⟩ 1 111).ingestAll
        ((first::rest).map (SourcePacket.call source 0xFFFFFFFE))).1 := by
  intro source first rest
  have hs : min ((AudioWindow.new 0 ⟨0⟩ 1 111).wallOf (first.call source 0xFFFFFFFE)) 110 = 2 := by
    decide +kernel
  have hplaced : Placed source 0
      (min ((AudioWindow.new 0 ⟨0⟩ 1 111).wallOf (first.call source 0xFFFFFFFE)) 110) 111
      (first::rest) ((AudioWindow.new 0 ⟨0⟩ 1 111).ingestAll
        ((first::rest).map (SourcePacket.call source 0xFFFFFFFE))).1 :=
    ingestAll_places_source source 0xFFFFFFFE 0 ⟨0⟩ 1 111 first rest (by decide) (by decide)
  rwa [hs] at hplaced

end Wsprrs
