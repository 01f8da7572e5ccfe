import Wsprrs.Foundation.Radix

/-! IP addresses and the texts that `IpAddr::from_str` reads: a dotted quad, or up to eight groups with
at most one gap, the last two of which may be a dotted quad. -/
namespace Wsprrs

inductive IpAddr
  | v4 (a b c d : UInt8)
  | v6 (groups : List.Vector UInt16 8)
  deriving DecidableEq

namespace IpAddr
open Radix

/-- What is read, and the text behind it. A reader that fails has read nothing. -/
abbrev Reader (α : Type) := Text → Option (α × Text)

def readGivenChar (c : Char) : Reader Unit
  | [] => none
  | d::s => if d = c then some ((), s) else none

/-- `read_separator`: there is none in front of the first item. -/
def readSeparator {α : Type} (sep : Char) (index : ℕ) (inner : Reader α) : Reader α := fun s =>
  if index = 0 then inner s else (readGivenChar sep s).bind (fun p => inner p.2)

def readNumber (radix maxDigits max : ℕ) (allowZeroPrefix : Bool) : Reader ℕ := fun s =>
  let digits := s.takeWhile (fun c => (toDigit radix c).isSome)
  let n := (digits.filterMap (toDigit radix)).foldl (fun v d => v*radix + d) 0
  if digits.length = 0 ∨ maxDigits < digits.length ∨ max < n then none
  else if allowZeroPrefix = false ∧ s.head? = some '0' ∧ 1 < digits.length then none
  else some (n, s.drop digits.length)

def readOctet : Reader UInt8 := fun s =>
  (readNumber 10 3 255 false s).map (fun p => (UInt8.ofNat p.1, p.2))

def readGroup : Reader UInt16 := fun s =>
  (readNumber 16 4 65535 true s).map (fun p => (UInt16.ofNat p.1, p.2))

def readIpv4Addr : Reader (UInt8 × UInt8 × UInt8 × UInt8) := fun s => do
  let (a, s) ← readSeparator '.' 0 readOctet s
  let (b, s) ← readSeparator '.' 1 readOctet s
  let (c, s) ← readSeparator '.' 2 readOctet s
  let (d, s) ← readSeparator '.' 3 readOctet s
  return ((a, b, c, d), s)

def twoBytes (a b : UInt8) : UInt16 := UInt16.ofNat (a.toNat*256 + b.toNat)

/-- The groups up to the first that cannot be read, and whether a dotted quad ended them; it takes the
place of two groups, so it is not tried for the last one. -/
def readGroups : ℕ → ℕ → Text → List UInt16 × Bool × Text
  | 0, _, s => ([], false, s)
  | left+1, index, s =>
    match if 0 < left then readSeparator ':' index readIpv4Addr s else none with
    | some ((a, b, c, d), s) => ([twoBytes a b, twoBytes c d], true, s)
    | none =>
      match readSeparator ':' index readGroup s with
      | some (g, s) =>
        let (gs, quad, s) := readGroups left (index+1) s
        (g::gs, quad, s)
      | none => ([], false, s)

/-- The first groups and the last ones, with zeros between them. -/
def fill (head tail : List UInt16) : List.Vector UInt16 8 :=
  .ofFn (fun i => ((head ++ List.replicate (8 - head.length - tail.length) 0) ++ tail).getD i 0)

def readIpv6Addr : Reader (List.Vector UInt16 8) := fun s =>
  let (head, headIpv4, s) := readGroups 8 0 s
  if head.length = 8 then some (fill head [], s)
  else if headIpv4 then none
  else do
    let (_, s) ← readGivenChar ':' s
    let (_, s) ← readGivenChar ':' s
    let (tail, _, s) := readGroups (8 - (head.length + 1)) 0 s
    return (fill head tail, s)

def readIpAddr : Reader IpAddr := fun s =>
  match readIpv4Addr s with
  | some ((a, b, c, d), s) => some (.v4 a b c d, s)
  | none => (readIpv6Addr s).map (fun p => (.v6 p.1, p.2))

/-- `IpAddr::from_str`: nothing may follow the address. -/
def fromStr (s : Text) : Option IpAddr :=
  (readIpAddr s).bind (fun p => if p.2 = [] then some p.1 else none)

example : fromStr ['2','3','9','.','1','.','2','.','3'] = some (.v4 239 1 2 3) ∧
    fromStr ['1','.','2','.','3','.','0','4'] = none ∧
    fromStr [':',':','1'] = some (.v6 (fill [] [1])) ∧
    fromStr ['1',':',':','1','.','2','.','3','.','4'] = some (.v6 (fill [1] [0x102, 0x304])) := by
  decide

end IpAddr
end Wsprrs
