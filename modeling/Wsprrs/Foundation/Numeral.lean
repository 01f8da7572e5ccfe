import Wsprrs.Foundation.Radix

/-! Numbers as text: decimal integers as they are written, and the integers and binary floats
that the standard `FromStr` implementations read. -/
namespace Wsprrs.Numeral
open Float.Model

/-- A nonempty run of decimal digits. -/
def parseDigits (s : Text) : Option ℕ :=
  if s ≠ [] ∧ s.all Char.isDigit = true then some (Nat.ofDigitChars 10 s 0) else none

/-- The exponent of a float: digits with or without a sign. -/
def parseExponent : Text → Option ℤ
  | '+'::s => (parseDigits s).map Int.ofNat
  | '-'::s => (parseDigits s).map (fun n => -(n : ℤ))
  | s => (parseDigits s).map Int.ofNat

def parseI32 (s : Text) : Option Int32 := (Radix.parseI32 s).toOption
def parseU8 (s : Text) : Option UInt8 := (Radix.parseU8 s).toOption
def parseU32 (s : Text) : Option UInt32 := (Radix.parseU32 10 s).toOption

def displayNat (n : ℕ) : Text := Nat.toDigits 10 n

def displayInt : ℤ → Text
  | .ofNat n => displayNat n
  | .negSucc n => '-'::displayNat (n + 1)

/-- Digits with or without a point, and an optional exponent: a mantissa and a power of ten. -/
def parseScientific (s : Text) : Option (ℕ × ℤ) :=
  let whole := s.takeWhile Char.isDigit
  let rest := s.dropWhile Char.isDigit
  let (fraction, rest) :=
    match rest with
    | '.'::r => (r.takeWhile Char.isDigit, r.dropWhile Char.isDigit)
    | _ => ([], rest)
  if whole = [] ∧ fraction = [] then none
  else
    let mantissa := Nat.ofDigitChars 10 (whole ++ fraction) 0
    match rest with
    | [] => some (mantissa, -fraction.length)
    | c::r =>
      if c.toLower = 'e' then
        (parseExponent r).map (fun e => (mantissa, e - fraction.length))
      else none

def parseMagnitude (spec : Format) (s : Text) : Option UnpackedFloat :=
  let lower := s.map Char.toLower
  if lower = ['i','n','f'] ∨ lower = ['i','n','f','i','n','i','t','y'] then
    some (.infinity .positive)
  else if lower = ['n','a','n'] then some .notANumber
  else (parseScientific s).map (fun p => UnpackedFloat.ofScientific spec p.1 p.2)

/-- The float of the format that is nearest to what the text says without its sign, and whether
the sign is a minus. What is not a number has a sign, too. -/
def parseFloat (spec : Format) : Text → Option (UnpackedFloat × Bool)
  | '-'::s => (parseMagnitude spec s).map (fun x => (x, true))
  | '+'::s => (parseMagnitude spec s).map (fun x => (x, false))
  | s => (parseMagnitude spec s).map (fun x => (x, false))

theorem isDigit_of_mem_displayNat {n : ℕ} {c : Char} (h : c ∈ displayNat n) : c.isDigit = true :=
  Nat.isDigit_of_mem_toDigits (by decide) (by decide) h

theorem displayNat_ne_nil (n : ℕ) : displayNat n ≠ [] := Nat.toDigits_ne_nil

theorem displayInt_ne_nil (v : ℤ) : displayInt v ≠ [] := by
  cases v with
  | ofNat n => exact displayNat_ne_nil n
  | negSucc n => exact List.cons_ne_nil _ _

theorem mem_displayInt {v : ℤ} {c : Char} (h : c ∈ displayInt v) : c = '-' ∨ c.isDigit = true := by
  cases v with
  | ofNat n => exact .inr (isDigit_of_mem_displayNat h)
  | negSucc n =>
    obtain rfl | hc := List.mem_cons.mp h
    · exact .inl rfl
    · exact .inr (isDigit_of_mem_displayNat hc)

theorem parseI32_displayInt (v : Int32) : parseI32 (displayInt v.toInt) = some v := by
  have hlo := v.le_toInt
  have hhi := v.toInt_lt
  have hread : Radix.fromStrRadixSigned 10 (2^31 - 1) (displayInt v.toInt) = .ok v.toInt := by
    cases hv : v.toInt with
    | ofNat n =>
      rw [hv, Int.ofNat_eq_natCast] at hhi
      exact Radix.fromStrRadixSigned_spells (Radix.spells_toDigits n) (by omega)
    | negSucc n =>
      exact Radix.fromStrRadixSigned_minus (displayNat_ne_nil _) (Radix.digits_toDigits _) (by omega)
  rw [parseI32, Radix.parseI32, hread]
  exact congrArg some (Int32.ofInt_toInt v)

theorem parseU8_displayNat (v : UInt8) : parseU8 (displayNat v.toNat) = some v := by
  rw [parseU8, displayNat, Radix.parseU8_eq_ok.mpr (Radix.spells_toDigits v.toNat)]
  rfl

theorem parseU32_displayNat (v : UInt32) : parseU32 (displayNat v.toNat) = some v := by
  rw [parseU32, displayNat, Radix.parseU32_eq_ok.mpr (Radix.spells_toDigits v.toNat)]
  rfl

example : parseI32 ['+','0','0','7'] = some 7 ∧ parseI32 ['-'] = none ∧ parseU8 ['-','0'] = none := by
  decide

end Wsprrs.Numeral
