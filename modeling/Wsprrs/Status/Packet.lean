import Mathlib.Tactic

/-! The status datagram parser: a tag-length-value walk over byte positions that
accumulates one update and applies it to the per-SSRC channel map. -/
namespace Wsprrs

/-- A double as its bit pattern; the status stream delivers nothing else. -/
structure F64 where
  bits : UInt64
  deriving DecidableEq, Repr

namespace F64

def fromBits (bits : UInt64) : F64 := ⟨bits⟩

/-- `x > 0.0`: sign bit clear, not a zero, not a NaN. -/
def isPositive (x : F64) : Bool := 0 < x.bits && x.bits ≤ 0x7FF0000000000000

end F64

namespace Status

def ENC_S16LE : UInt8 := 1
def ENC_S16BE : UInt8 := 2

def PKT_STATUS : UInt8 := 0

def TAG_OUTPUT_SSRC : UInt8 := 18
def TAG_OUTPUT_SAMPRATE : UInt8 := 20
def TAG_RADIO_FREQUENCY : UInt8 := 33
def TAG_OUTPUT_CHANNELS : UInt8 := 49
def TAG_RTP_PT : UInt8 := 105
def TAG_OUTPUT_ENCODING : UInt8 := 107

/-- Per-channel metadata; the default is the all-zero record. -/
structure ChannelInfo where
  pt : UInt8 := 0
  centerFreqHz : F64 := ⟨0⟩
  sampleRateHz : UInt32 := 0
  channels : UInt8 := 0
  encoding : UInt8 := 0
  deriving DecidableEq, Repr

instance : Inhabited ChannelInfo := ⟨{}⟩

def ChannelInfo.isAudioReady (info : ChannelInfo) : Bool :=
  info.channels == 1 && info.sampleRateHz > 0 && info.centerFreqHz.isPositive

/-- The shared map of the program, up to what lookups can observe. -/
abbrev ChannelMap := UInt32 → Option ChannelInfo

/-- One datagram's worth of updates. -/
structure StatusUpdate where
  ssrc : Option UInt32 := none
  centerFreqHz : Option F64 := none
  sampleRateHz : Option UInt32 := none
  channels : Option UInt8 := none
  pt : Option UInt8 := none
  encoding : Option UInt8 := none
  deriving DecidableEq, Repr

/-- Decode a length at `pos`. On failure the source has also moved its position, but
both callers stop there. -/
def readTlvLen (buf : List UInt8) (pos : ℕ) : Option (ℕ × ℕ) :=
  match buf[pos]? with
  | none => none
  | some first =>
    let pos := pos+1
    if first < 0x80 then some (first.toNat, pos)
    else
      let n := (first &&& 0x7F).toNat
      if n = 0 ∨ n > 4 ∨ pos+n > buf.length then none
      else some (((buf.drop pos).take n).foldl (fun len b => (len <<< 8) ||| b.toNat) 0, pos+n)

/-- A `u64` accumulator narrowed to 32 bits. -/
def decodeU32 (val : List UInt8) : UInt32 :=
  (val.foldl (fun (acc : UInt64) b => (acc <<< 8) ||| b.toUInt64) 0).toUInt32

def decodeF64 (val : List UInt8) : F64 :=
  if val.isEmpty then F64.fromBits 0
  else F64.fromBits (val.foldl (fun (bits : UInt64) b => (bits <<< 8) ||| b.toUInt64) 0)

/-- The tag dispatch of the walk; unknown tags change nothing. -/
def StatusUpdate.record (update : StatusUpdate) (tag : UInt8) (val : List UInt8) : StatusUpdate :=
  if tag = TAG_OUTPUT_SSRC then { update with ssrc := some (decodeU32 val) }
  else if tag = TAG_OUTPUT_SAMPRATE then { update with sampleRateHz := some (decodeU32 val) }
  else if tag = TAG_RADIO_FREQUENCY then { update with centerFreqHz := some (decodeF64 val) }
  else if tag = TAG_OUTPUT_CHANNELS then { update with channels := some (decodeU32 val).toUInt8 }
  else if tag = TAG_RTP_PT then { update with pt := some (decodeU32 val).toUInt8 }
  else if tag = TAG_OUTPUT_ENCODING then { update with encoding := some (decodeU32 val).toUInt8 }
  else update

/-- The walk of `processStatusPacket`. Every round consumes a tag, so the length of the
buffer is enough fuel (`tlvLoop_eq`). -/
def tlvLoop (buf : List UInt8) : ℕ → ℕ → StatusUpdate → StatusUpdate
  | 0, _, update => update
  | fuel+1, pos, update =>
    match buf[pos]? with
    | none => update
    | some tag =>
      let pos := pos+1
      if tag = 0 then update
      else
        match readTlvLen buf pos with
        | none => update
        | some (len, pos) =>
          if pos+len > buf.length then update
          else tlvLoop buf fuel (pos+len) (update.record tag ((buf.drop pos).take len))

/-- Fields present in the update replace those of the entry. -/
def StatusUpdate.apply (update : StatusUpdate) (info : ChannelInfo) : ChannelInfo where
  centerFreqHz := update.centerFreqHz.getD info.centerFreqHz
  sampleRateHz := update.sampleRateHz.getD info.sampleRateHz
  channels := update.channels.getD info.channels
  pt := update.pt.getD info.pt
  encoding := update.encoding.getD info.encoding

/-- Parse a status datagram and apply it to the map; the first component is the result
of the source function, the second the map it leaves behind. -/
def processStatusPacket (buf : List UInt8) (map : ChannelMap) : Option UInt32 × ChannelMap :=
  if buf.isEmpty ∨ buf[0]? ≠ some PKT_STATUS then (none, map)
  else
    let update := tlvLoop buf buf.length 1 {}
    match update.ssrc with
    | none => (none, map)
    | some ssrc =>
      let info := (map ssrc).getD {}
      (some ssrc, Function.update map ssrc (some (update.apply info)))

end Status
end Wsprrs
