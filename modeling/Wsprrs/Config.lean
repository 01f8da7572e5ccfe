import Mathlib.Tactic

/-! The settings that the capture pipeline reads. -/
namespace Wsprrs

/-- A loaded configuration; loading refuses a capture shorter than 111 seconds. -/
structure Config where
  ssrcFilter : Option UInt32
  captureSeconds : UInt32
  captureSeconds_ge : captureSeconds ≥ 111

namespace Config

/-- The last step of `from_env`, with both variables already parsed. -/
def fromEnv (ssrcFilter : Option UInt32) (captureSeconds : UInt32) : Except String Config :=
  if h : captureSeconds ≥ 111 then .ok ⟨ssrcFilter, captureSeconds, h⟩
  else .error s!"WSPR_CAPTURE_SECONDS must be >= 111 (got {captureSeconds})"

/-- Every configuration is one that loading produces. -/
theorem fromEnv_eq_ok (cfg : Config) : fromEnv cfg.ssrcFilter cfg.captureSeconds = .ok cfg :=
  dif_pos cfg.captureSeconds_ge

theorem captureSeconds_toNat (cfg : Config) : 111 ≤ cfg.captureSeconds.toNat :=
  UInt32.le_iff_toNat_le.mp cfg.captureSeconds_ge

end Config
end Wsprrs
