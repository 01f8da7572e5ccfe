import Wsprrs.Error
import Wsprrs.Foundation.BigEndian

/-! RTP packet parsing: the fixed header, then the CSRC list and the header extension
skipped, then everything else as payload. -/
namespace Wsprrs.Rtp
open BigEndian

def u16FromBeBytes (b0 b1 : UInt8) : UInt16 := UInt16.ofNat (value [b0,b1])
def u32FromBeBytes (b0 b1 b2 b3 : UInt8) : UInt32 := UInt32.ofNat (value [b0,b1,b2,b3])

structure RtpHeader where
  version : UInt8
  padding : Bool
  extension : Bool
  csrcCount : UInt8
  marker : Bool
  payloadType : UInt8
  sequence : UInt16
  timestamp : UInt32
  ssrc : UInt32
  deriving DecidableEq, Repr

structure RtpPacket where
  header : RtpHeader
  payload : List UInt8
  deriving DecidableEq, Repr

/-- The position after the optional extension block, or nothing if its four-byte header
does not fit. Both bytes of the word count are inside the buffer once it fits. -/
def skipExtension (buf : List UInt8) (extension : Bool) (pos : ℕ) : Option ℕ :=
  if extension then
    if pos+4 > buf.length then none
    else
      let extWords := (u16FromBeBytes (buf.getD (pos+2) 0) (buf.getD (pos+3) 0)).toNat
      some (pos + (4 + extWords*4))
  else some pos

/-- Parse a datagram. The twelve-byte pattern is the length check of the source. -/
def parseRtpPacket (buf : List UInt8) : Except WsprError RtpPacket :=
  match buf with
  | b0::b1::b2::b3::b4::b5::b6::b7::b8::b9::b10::b11::_ =>
    let version := (b0 >>> 6) &&& 0x03
    let padding := (b0 &&& 0x20) != 0
    let extension := (b0 &&& 0x10) != 0
    let csrcCount := b0 &&& 0x0F
    if version ≠ 2 then .error (.unsupportedRtpVersion version)
    else
      let header : RtpHeader := {
        version, padding, extension, csrcCount
        marker := (b1 &&& 0x80) != 0
        payloadType := b1 &&& 0x7F
        sequence := u16FromBeBytes b2 b3
        timestamp := u32FromBeBytes b4 b5 b6 b7
        ssrc := u32FromBeBytes b8 b9 b10 b11 }
      match skipExtension buf extension (12 + csrcCount.toNat*4) with
      | none => .error (.packetTooShort buf.length)
      | some pos =>
        if pos > buf.length then .error (.packetTooShort buf.length)
        else .ok ⟨header, buf.drop pos⟩
  | _ => .error (.packetTooShort buf.length)

end Wsprrs.Rtp
