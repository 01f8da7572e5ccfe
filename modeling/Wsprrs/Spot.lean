import Wsprrs.Clock
import Wsprrs.Foundation.Numeral
import Wsprrs.Status.Packet

/-! Decoded spots and their database rows, and the floats that are read into them. -/
namespace Wsprrs
open Float.Model

/-- A single-precision float by its bit pattern. -/
structure F32 where
  bits : UInt32
  deriving DecidableEq, Repr

namespace F32

def ofUnpacked (x : UnpackedFloat) : F32 :=
  ⟨UInt32.ofBitVec (UnpackedFloat.pack Format.binary32 x)⟩

/-- The other sign, also for what is not a number. -/
def neg (x : F32) : F32 := ⟨x.bits ^^^ 0x80000000⟩

end F32

def parseF32 (s : Text) : Option F32 :=
  (Numeral.parseFloat Format.binary32 s).map (fun p =>
    if p.2 then (F32.ofUnpacked p.1).neg else F32.ofUnpacked p.1)

namespace F64

def ofUnpacked (x : UnpackedFloat) : F64 :=
  ⟨UInt64.ofBitVec (UnpackedFloat.pack Format.binary64 x)⟩

def unpack (x : F64) : UnpackedFloat := UnpackedFloat.unpack Format.binary64 x.bits.toBitVec

def neg (x : F64) : F64 := ⟨x.bits ^^^ 0x8000000000000000⟩

def isNan (x : F64) : Bool := x.bits &&& 0x7FFFFFFFFFFFFFFF > 0x7FF0000000000000

/-- What is not a number, made quiet. -/
def quiet (x : F64) : F64 := ⟨x.bits ||| 0x0008000000000000⟩

/-- The product rounded to nearest, ties to even. The first operand that is not a number is
the result, with its sign. -/
def mul (x y : F64) : F64 :=
  if x.isNan then x.quiet
  else if y.isNan then y.quiet
  else ofUnpacked (UnpackedFloat.mul Format.binary64 x.unpack y.unpack)

end F64

def parseF64 (s : Text) : Option F64 :=
  (Numeral.parseFloat Format.binary64 s).map (fun p =>
    if p.2 then (F64.ofUnpacked p.1).neg else F64.ofUnpacked p.1)

structure WsprSpot where
  timeUtc : Text
  snrDb : Int32
  dtSec : F32
  freqHz : F64
  message : Text
  callsign : Text
  grid : Text
  powerDbm : Int32
  drift : Int32
  syncQuality : F32
  npass : UInt8
  osdPass : UInt8
  nhardmin : Int32
  decodeCycles : UInt32
  candidates : UInt32
  nfano : Int32
  deriving DecidableEq, Repr

/-- A spot with the start of its window in seconds of Unix time. -/
structure WsprSpotRow extends WsprSpot where
  windowStartUnix : Int64
  deriving DecidableEq, Repr

def WsprSpotRow.fromSpot (spot : WsprSpot) (windowStart : ℤ) : WsprSpotRow where
  toWsprSpot := spot
  windowStartUnix := (UInt64.ofNat (Duration.asSecs (elapsed windowStart UNIX_EPOCH))).toInt64

end Wsprrs
