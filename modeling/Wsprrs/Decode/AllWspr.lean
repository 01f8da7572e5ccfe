import Wsprrs.Error
import Wsprrs.Spot

/-! The lines of `ALL_WSPR.TXT`: recognising a grid square, and reading one spot a line. -/
namespace Wsprrs
open Numeral

/-- The bytes of a string. -/
def utf8 (s : Text) : List UInt8 := s.flatMap String.utf8EncodeChar

def toAsciiUppercase (b : UInt8) : UInt8 := if 97 ≤ b ∧ b ≤ 122 then b - 32 else b
def isAsciiDigit (b : UInt8) : Bool := 48 ≤ b && b ≤ 57

/-- A letter from A to R, in either case. -/
def validMajor (b : UInt8) : Bool := 65 ≤ toAsciiUppercase b && toAsciiUppercase b ≤ 82

/-- A letter from A to X, in either case. -/
def validMinor (b : UInt8) : Bool := 65 ≤ toAsciiUppercase b && toAsciiUppercase b ≤ 88

def isGridSquare (s : Text) : Bool :=
  match utf8 s with
  | [b0,b1,b2,b3] => validMajor b0 && validMajor b1 && isAsciiDigit b2 && isAsciiDigit b3
  | [b0,b1,b2,b3,b4,b5] =>
    validMajor b0 && validMajor b1 && isAsciiDigit b2 && isAsciiDigit b3 &&
      validMinor b4 && validMinor b5
  | _ => false

/-- `{:02}`. -/
def displayTwo (n : ℕ) : Text := if n < 10 then '0'::displayNat n else displayNat n

def hhmmUtc (t : ℤ) : Text :=
  let secs := Duration.asSecs (elapsed t UNIX_EPOCH)
  let hh := secs % 86400/3600
  let mm := secs % 3600/60
  displayTwo hh ++ displayTwo mm

/-- `1_000_000.0` -/
def million : F64 := ⟨0x412E848000000000⟩

def formatMessage (callsign grid : Text) (powerDbm : Int32) : Text :=
  if grid = [] then callsign ++ ' '::displayInt powerDbm.toInt
  else callsign ++ ' '::grid ++ ' '::displayInt powerDbm.toInt

/-- The columns of a line, from the left. The grid column may be missing; `base` is where the
power stands. Each parse stops at the first column that it cannot read. -/
def parseColumns (f : List Text) (windowStart : ℤ) : Option WsprSpot :=
  if f.length < 16 then none
  else do
    let snrDb ← parseI32 (f.getD 2 [])
    let dtSec ← parseF32 (f.getD 3 [])
    let freqMhz ← parseF64 (f.getD 4 [])
    let callsign := f.getD 5 []
    let (grid, base) := if isGridSquare (f.getD 6 []) then (f.getD 6 [], 7) else ([], 6)
    if f.length < base + 10 then none
    else do
      let powerDbm ← parseI32 (f.getD base [])
      let drift ← parseI32 (f.getD (base + 1) [])
      let syncQuality ← parseF32 (f.getD (base + 2) [])
      let npass ← parseU8 (f.getD (base + 3) [])
      let osdPass ← parseU8 (f.getD (base + 4) [])
      let nhardmin ← parseI32 (f.getD (base + 5) [])
      let decodeCycles ← parseU32 (f.getD (base + 7) [])
      let candidates ← parseU32 (f.getD (base + 8) [])
      let nfano ← parseI32 (f.getD (base + 9) [])
      some
        { timeUtc := hhmmUtc windowStart
          snrDb := snrDb
          dtSec := dtSec
          freqHz := freqMhz.mul million
          message := formatMessage callsign grid powerDbm
          callsign := callsign
          grid := grid
          powerDbm := powerDbm
          drift := drift
          syncQuality := syncQuality
          npass := npass
          osdPass := osdPass
          nhardmin := nhardmin
          decodeCycles := decodeCycles
          candidates := candidates
          nfano := nfano }

/-- Whatever goes wrong, the error carries the line. -/
def parseAllWsprLine (line : Text) (windowStart : ℤ) : Except WsprError WsprSpot :=
  match parseColumns (Text.splitWhitespace line) windowStart with
  | some spot => .ok spot
  | none => .error (.spotParseFailed (String.ofList line))

/-- The spot of a line; an error is logged and the line is skipped. -/
def spotOfLine (windowStart : ℤ) (line : Text) : Option WsprSpot :=
  match parseAllWsprLine (Text.trim line) windowStart with
  | .ok spot => some spot
  | .error _ => none

def parseAllWsprTxt (content : Text) (windowStart : ℤ) : List WsprSpot :=
  ((Text.lines content).filter (fun l => !(Text.trim l).isEmpty)).filterMap (spotOfLine windowStart)

end Wsprrs
