import Mathlib.Tactic

/-! Big-endian byte strings: their values, the fixed-width encoding, and the encoding
with leading zero bytes suppressed. -/
namespace Wsprrs.BigEndian

/-- The number denoted by a byte string, most significant byte first. -/
def value (bs : List UInt8) : ℕ := bs.foldl (fun acc b => acc*256 + b.toNat) 0

lemma foldl_value (bs : List UInt8) (acc : ℕ) :
    bs.foldl (fun acc b => acc*256 + b.toNat) acc = acc*256^bs.length + value bs := by
  induction bs generalizing acc with
  | nil => simp [value]
  | cons b bs ih =>
    have h := ih (0*256 + b.toNat)
    rw [List.foldl_cons, ih, List.length_cons, pow_succ]
    simp only [value, List.foldl_cons] at h ⊢
    rw [h]
    ring

@[simp] theorem value_nil : value [] = 0 := rfl

@[simp] theorem value_singleton (b : UInt8) : value [b] = b.toNat := by simp [value]

theorem value_append (xs ys : List UInt8) :
    value (xs ++ ys) = value xs*256^ys.length + value ys := by
  rw [value, List.foldl_append, foldl_value]
  rfl

theorem value_cons (b : UInt8) (bs : List UInt8) :
    value (b::bs) = b.toNat*256^bs.length + value bs := by
  simpa using value_append [b] bs

theorem value_lt (bs : List UInt8) : value bs < 256^bs.length := by
  induction bs with
  | nil => simp
  | cons b bs ih =>
    have hb := b.toNat_lt
    rw [value_cons, List.length_cons, pow_succ]
    nlinarith

/-- Leading zero bytes never change the value. -/
@[simp] theorem value_zeros_append (z : ℕ) (bs : List UInt8) :
    value (List.replicate z 0 ++ bs) = value bs := by
  induction z with
  | zero => simp
  | succ z ih => simpa [List.replicate_succ, value_cons] using ih

/-- The lowest `width` bytes of `n`, most significant first. -/
def bytes : ℕ → ℕ → List UInt8
  | 0, _ => []
  | width+1, n => bytes width (n/256) ++ [UInt8.ofNat n]

@[simp] theorem bytes_length (width n : ℕ) : (bytes width n).length = width := by
  induction width generalizing n with
  | zero => rfl
  | succ width ih => simp [bytes, ih]

theorem value_bytes (width n : ℕ) : value (bytes width n) = n % 256^width := by
  induction width generalizing n with
  | zero => simp [bytes, Nat.mod_one]
  | succ width ih =>
    rw [bytes, value_append, ih, pow_succ', Nat.mod_mul]
    simp
    ring

theorem value_bytes_of_lt {width n : ℕ} (h : n < 256^width) : value (bytes width n) = n := by
  rw [value_bytes, Nat.mod_eq_of_lt h]

theorem bytes_value (bs : List UInt8) : bytes bs.length (value bs) = bs := by
  induction bs using List.reverseRecOn with
  | nil => rfl
  | append_singleton bs b ih =>
    have hb := b.toNat_lt
    have hv : value (bs ++ [b]) = value bs*256 + b.toNat := by simp [value_append]
    have hdiv : value (bs ++ [b])/256 = value bs := by omega
    have hmod : UInt8.ofNat (value (bs ++ [b])) = b := by
      apply UInt8.toNat_inj.mp
      rw [UInt8.toNat_ofNat', hv]
      omega
    rw [List.length_append, List.length_singleton, bytes, hdiv, ih, hmod]

/-- Drop the leading zero bytes of an encoding; zero becomes the empty string. -/
def suppress (bs : List UInt8) : List UInt8 := bs.dropWhile (· == 0)

@[simp] theorem value_suppress (bs : List UInt8) : value (suppress bs) = value bs := by
  induction bs with
  | nil => rfl
  | cons b bs ih =>
    by_cases hb : b = 0
    · subst b
      simpa [suppress, value_cons] using ih
    · simp [suppress, hb]

/-- Shifting a byte in below an accumulator is the positional update. -/
theorem shiftLeft_or_byte (acc : ℕ) (b : UInt8) : (acc <<< 8) ||| b.toNat = acc*256 + b.toNat := by
  have hb : b.toNat < 2^8 := b.toNat_lt
  rw [Nat.shiftLeft_eq, Nat.mul_comm acc, ← Nat.two_pow_add_eq_or_of_lt hb]

theorem foldl_shiftLeft_or (bs : List UInt8) :
    bs.foldl (fun acc b => (acc <<< 8) ||| b.toNat) 0 = value bs := by
  simp only [shiftLeft_or_byte]
  rfl

/-- A 64-bit accumulator keeps the value modulo its width. -/
theorem toNat_foldl_uInt64 (bs : List UInt8) :
    (bs.foldl (fun (acc : UInt64) b => (acc <<< 8) ||| b.toUInt64) 0).toNat =
      value bs % 2^64 := by
  induction bs using List.reverseRecOn with
  | nil => rfl
  | append_singleton bs b ih =>
    have hb := b.toNat_lt
    rw [List.foldl_append, List.foldl_cons, List.foldl_nil, value_append]
    simp only [List.length_singleton, pow_one, value_singleton]
    rw [UInt64.toNat_or, UInt64.toNat_shiftLeft, ih, UInt8.toNat_toUInt64]
    have hs : (value bs % 2^64) <<< ((8 : UInt64).toNat % 64) % 2^64 =
        2^8*((value bs % 2^64) % 2^56) := by
      simp only [UInt64.reduceToNat, Nat.reduceMod, Nat.shiftLeft_eq]
      omega
    rw [hs, ← Nat.two_pow_add_eq_or_of_lt (by omega)]
    omega

end Wsprrs.BigEndian
