import Wsprrs.Clock
import Wsprrs.Error
import Wsprrs.Foundation.BigEndian
import Wsprrs.Foundation.Overlay
import Wsprrs.Status.Packet

/-! The two-minute capture buffer of one SSRC: allocation and sample ingestion. -/
namespace Wsprrs
open BigEndian Status

/-- The number of ticks after which a 32-bit RTP timestamp repeats. -/
def RTP_WRAP : ℤ := 2^32

def i16FromBeBytes (b0 b1 : UInt8) : Int16 := (UInt16.ofNat (value [b0,b1])).toInt16
def i16FromLeBytes (b0 b1 : UInt8) : Int16 := i16FromBeBytes b1 b0

structure AudioWindow where
  windowStart : ℤ
  centerFreqHz : F64
  sampleRateHz : UInt32
  samples : List Int16
  samplesWritten : ℕ
  capacitySamples : ℕ
  lastSeq : Option UInt16
  gapCount : ℕ
  rtpBase : Option UInt32
  startOffset : ℕ
  deriving DecidableEq, Repr

/-- The arguments of one call of `ingest`, and the reading of the clock it takes. -/
structure IngestCall where
  payload : List UInt8
  rtpTimestamp : UInt32
  sampleRateHz : UInt32
  rtpSeq : UInt16
  ssrc : UInt32
  encoding : UInt8
  now : ℤ
  deriving DecidableEq, Repr

/-- The number of samples in the payload. -/
def IngestCall.nSamples (call : IngestCall) : ℕ := call.payload.length/2

/-- `payload.chunks_exact(2)`, decoded pairwise. -/
def decodeChunks (decodeSample : UInt8 → UInt8 → Int16) : List UInt8 → List Int16
  | b0::b1::rest => decodeSample b0 b1 :: decodeChunks decodeSample rest
  | _ => []

/-- The byte order that an encoding selects. -/
def decodeSampleOf (encoding : UInt8) : UInt8 → UInt8 → Int16 :=
  if encoding = ENC_S16BE then i16FromBeBytes else i16FromLeBytes

/-- The displacement of a timestamp from the base, with the one-sided wrap correction. -/
def wrapDelta (base rtpTimestamp : UInt32) : ℤ :=
  let delta : ℤ := (rtpTimestamp.toNat : ℤ) - base.toNat
  if delta < -(RTP_WRAP/2) then delta + RTP_WRAP else delta

namespace AudioWindow

/-- Allocate a window. The capacity is below 2^64, so the `usize` product is exact. -/
def new (windowStart : ℤ) (centerFreqHz : F64)
    (sampleRateHz captureSeconds : UInt32) : AudioWindow :=
  let capacity := sampleRateHz.toNat*captureSeconds.toNat
  { windowStart, centerFreqHz, sampleRateHz
    samples := List.replicate capacity 0
    samplesWritten := 0
    capacitySamples := capacity
    lastSeq := none
    gapCount := 0
    rtpBase := none
    startOffset := 0 }

/-- `new`, which panics if the buffer would have more bytes than an `isize` can count. -/
def newChecked (windowStart : ℤ) (centerFreqHz : F64) (sampleRateHz captureSeconds : UInt32) :
    Option AudioWindow :=
  if 2*(sampleRateHz.toNat*captureSeconds.toNat) < 2^63 then
    some (new windowStart centerFreqHz sampleRateHz captureSeconds)
  else none

/-- Gap detection. -/
def noteSeq (w : AudioWindow) (rtpSeq : UInt16) : AudioWindow :=
  { w with
    gapCount :=
      match w.lastSeq with
      | some last => if rtpSeq ≠ last+1 then w.gapCount+1 else w.gapCount
      | none => w.gapCount
    lastSeq := some rtpSeq }

/-- Timestamp to buffer offset. The first packet anchors the RTP clock at `wall`, clamped
into the buffer; a later packet is placed relative to it, or discarded. -/
def locate (w : AudioWindow) (wall : ℕ) (rtpTimestamp : UInt32) : AudioWindow × Option ℕ :=
  match w.rtpBase with
  | none =>
    let wallOffset := min wall (w.capacitySamples-1)
    ({ w with rtpBase := some rtpTimestamp, startOffset := wallOffset }, some wallOffset)
  | some base =>
    let delta := wrapDelta base rtpTimestamp
    if delta < 0 then (w, none)
    else
      let abs := (w.startOffset : ℤ) + delta
      if abs < 0 then (w, none) else (w, some abs.toNat)

/-- `ingest` with the wall-clock position of the call already converted to samples. -/
def ingestAt (w : AudioWindow) (wall : ℕ) (call : IngestCall) :
    AudioWindow × Except WsprError Unit :=
  match (w.noteSeq call.rtpSeq).locate wall call.rtpTimestamp with
  | (w, none) => (w, .ok ())
  | (w, some offset) =>
    if offset + call.nSamples > w.capacitySamples then (w, .error (.bufferOverflow call.ssrc))
    else
      ({ w with
        samples := overlay w.samples offset
          (decodeChunks (decodeSampleOf call.encoding) call.payload)
        samplesWritten := max w.samplesWritten (offset + call.nSamples) }, .ok ())

/-- The wall-clock position of a call in samples after the window start. -/
def wallOf (w : AudioWindow) (call : IngestCall) : ℕ :=
  wallSamples (elapsed call.now w.windowStart) call.sampleRateHz

def ingest (w : AudioWindow) (call : IngestCall) : AudioWindow × Except WsprError Unit :=
  w.ingestAt (w.wallOf call) call

end AudioWindow
end Wsprrs
