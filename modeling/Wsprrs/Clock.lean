import Mathlib.Tactic
import Mathlib.Data.Int.Log
import Mathlib.Data.Rat.Floor

/-! Wall-clock time, the even-minute grid, and the double-precision conversion of elapsed
time to a sample count. A `SystemTime` is an integer number of nanoseconds since the Unix
epoch, negative before it; a `Duration` is a natural number of nanoseconds. -/
namespace Wsprrs

def UNIX_EPOCH : ℤ := 0

namespace Duration

def fromSecs (secs : ℕ) : ℕ := 1000000000*secs
def asSecs (d : ℕ) : ℕ := d/1000000000

end Duration

/-- The span from `earlier` to `now`, or nothing if `earlier` is later. -/
def durationSince (now earlier : ℤ) : Option ℕ :=
  if earlier ≤ now then some (now - earlier).toNat else none

/-- `duration_since` with the error replaced by zero, as every call site has it. -/
def elapsed (now earlier : ℤ) : ℕ := (durationSince now earlier).getD 0

/-- The most recent even-minute boundary at or before `now`. -/
def evenMinuteBoundary (now : ℤ) : ℤ :=
  let secs := Duration.asSecs (elapsed now UNIX_EPOCH)
  let aligned := secs/120*120
  UNIX_EPOCH + Duration.fromSecs aligned

theorem elapsed_eq (now earlier : ℤ) :
    elapsed now earlier = (now - earlier).toNat := by
  unfold elapsed durationSince
  split_ifs with h
  · rfl
  · exact (Int.toNat_of_nonpos (by omega)).symm

theorem evenMinuteBoundary_nonneg (now : ℤ) : 0 ≤ evenMinuteBoundary now := by
  simp only [evenMinuteBoundary, UNIX_EPOCH, Duration.fromSecs]
  omega

/-- From the epoch on, a time lies in the two minutes after its boundary. -/
theorem evenMinuteBoundary_bounds {now : ℤ} (h : 0 ≤ now) :
    evenMinuteBoundary now ≤ now ∧ now < evenMinuteBoundary now + 120*1000000000 := by
  simp only [evenMinuteBoundary, UNIX_EPOCH, elapsed_eq, Duration.fromSecs, Duration.asSecs]
  omega

theorem evenMinuteBoundary_of_neg {now : ℤ} (h : now < 0) : evenMinuteBoundary now = 0 := by
  simp only [evenMinuteBoundary, UNIX_EPOCH, elapsed_eq, Duration.fromSecs, Duration.asSecs]
  omega

/-- Boundaries lie on the grid of two minutes. -/
theorem evenMinuteBoundary_grid (now : ℤ) :
    ∃ n : ℕ, evenMinuteBoundary now = n*(120*1000000000) := by
  refine ⟨Duration.asSecs (elapsed now UNIX_EPOCH)/120, ?_⟩
  simp only [evenMinuteBoundary, UNIX_EPOCH, Duration.fromSecs]
  push_cast
  ring

/-- The boundary of a time is the one grid point whose two minutes contain it. -/
theorem evenMinuteBoundary_eq {now start : ℤ} (hgrid : ∃ n : ℕ, start = n*(120*1000000000))
    (hle : start ≤ now) (hlt : now < start + 120*1000000000) : evenMinuteBoundary now = start := by
  obtain ⟨n, hn⟩ := hgrid
  obtain ⟨m, hm⟩ := evenMinuteBoundary_grid now
  have hbounds := evenMinuteBoundary_bounds (show 0 ≤ now by omega)
  omega

/-- The integer nearest to `q`, to the even one halfway between two. -/
def roundHalfEven (q : ℚ) : ℤ :=
  let n := ⌊q⌋
  let r := q - n
  if r < 1/2 then n else if 1/2 < r then n+1 else if n % 2 = 0 then n else n+1

/-- Round a rational to the 53-bit significand of a double. The values rounded here are
zero or far inside the normal range. -/
def toDouble (q : ℚ) : ℚ :=
  let ulp : ℚ := 2^(Int.log 2 q - 52)
  roundHalfEven (q/ulp)*ulp

/-- `Duration::as_secs_f64`. -/
def Duration.asSecsF64 (d : ℕ) : ℚ :=
  toDouble (toDouble (asSecs d) + toDouble ((d % 1000000000 : ℕ)/1000000000))

/-- `((elapsed_secs * sample_rate_hz as f64) as i64).max(0) as usize`. -/
def wallSamples (elapsed : ℕ) (sampleRateHz : UInt32) : ℕ :=
  min ⌊toDouble (Duration.asSecsF64 elapsed*sampleRateHz.toNat)⌋₊ (2^63 - 1)

@[simp] theorem wallSamples_zero (sampleRateHz : UInt32) : wallSamples 0 sampleRateHz = 0 := by
  simp [wallSamples, Duration.asSecsF64, Duration.asSecs, toDouble, roundHalfEven]

example : wallSamples 38123456789 12000 = 457481 := by decide +kernel

end Wsprrs
