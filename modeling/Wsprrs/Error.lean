import Mathlib.Tactic

/-! The application-level error type. -/
namespace Wsprrs

inductive WsprError
  | packetTooShort (len : ℕ)
  | unsupportedRtpVersion (version : UInt8)
  | bufferOverflow (ssrc : UInt32)
  | io (description : String)
  | wsprdFailed (code : ℤ) (stderr : String)
  | spotParseFailed (line : String)
  deriving DecidableEq, Repr

end Wsprrs
