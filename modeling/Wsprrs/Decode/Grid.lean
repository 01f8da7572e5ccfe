import Wsprrs.Decode.AllWspr

/-! Maidenhead locators by their characters, and the test of the code on their bytes: it accepts
every locator and no number. -/
namespace Wsprrs
open Numeral Text

/-- A letter from A to `last`, in either case. -/
def letterUpTo (last c : Char) : Bool := 'A' ≤ c.toUpper && c.toUpper ≤ last

/-- Two letters from A to R and two digits, and possibly two letters from A to X. -/
def isLocator : Text → Bool
  | [a,b,c,d] => letterUpTo 'R' a && letterUpTo 'R' b && c.isDigit && d.isDigit
  | [a,b,c,d,e,f] =>
    letterUpTo 'R' a && letterUpTo 'R' b && c.isDigit && d.isDigit &&
      letterUpTo 'X' e && letterUpTo 'X' f
  | _ => false

/-- A Maidenhead locator of four or six characters. -/
structure Locator where
  text : Text
  valid : isLocator text = true

/-- An ASCII character is one byte. -/
theorem utf8_cons {c : Char} (h : c.toNat < 128) (s : Text) :
    utf8 (c::s) = UInt8.ofNat c.toNat :: utf8 s := by
  have hsize : c.utf8Size = 1 := by
    rw [Char.utf8Size_eq_one_iff, UInt32.le_iff_toNat_le]
    exact Nat.le_of_lt_succ h
  rw [utf8, List.flatMap_cons, String.utf8EncodeChar_eq_singleton hsize]
  rfl

/-- What has been checked of all ASCII codes holds of every ASCII character. -/
theorem ascii_forall (P : Char → Prop) (hall : ∀ n < 128, P (Char.ofNat n)) {c : Char}
    (h : c.toNat < 128) : P c := by
  have hc := hall c.toNat h
  rwa [Char.ofNat_toNat] at hc

/-- The byte tests and the character tests agree on ASCII characters. -/
theorem ascii_tests {c : Char} (h : c.toNat < 128) :
    validMajor (UInt8.ofNat c.toNat) = letterUpTo 'R' c ∧
    validMinor (UInt8.ofNat c.toNat) = letterUpTo 'X' c ∧
    isAsciiDigit (UInt8.ofNat c.toNat) = c.isDigit :=
  ascii_forall (fun c => validMajor (UInt8.ofNat c.toNat) = letterUpTo 'R' c ∧
    validMinor (UInt8.ofNat c.toNat) = letterUpTo 'X' c ∧
    isAsciiDigit (UInt8.ofNat c.toNat) = c.isDigit) (by decide +kernel) h

theorem ascii_of_letterUpTo {last c : Char} (hlast : last.toNat < 128)
    (h : letterUpTo last c = true) : c.toNat < 128 := by
  simp only [letterUpTo, Bool.and_eq_true, decide_eq_true_eq] at h
  by_contra hbig
  have hsame : c.toUpper = c := by
    unfold Char.toUpper
    rw [dif_neg]
    intro hlower
    have hle := UInt32.le_iff_toNat_le.mp hlower.2
    exact hbig (hle.trans_lt (by decide))
  rw [hsame] at h
  have hle := UInt32.le_iff_toNat_le.mp (Char.le_def.mp h.2)
  exact hbig (hle.trans_lt hlast)

theorem ascii_of_isDigit {c : Char} (h : c.isDigit = true) : c.toNat < 128 := by
  simp only [Char.isDigit, Bool.and_eq_true, decide_eq_true_eq] at h
  have hle := UInt32.le_iff_toNat_le.mp h.2
  exact hle.trans_lt (by decide)

theorem visible_of_isDigit {c : Char} (h : c.isDigit = true) : isWhitespace c = false := by
  have hall := ascii_forall (fun c => c.isDigit = true → isWhitespace c = false) (by decide +kernel)
    (ascii_of_isDigit h)
  exact hall h

theorem visible_of_letterUpTo {last c : Char} (hlast : last.toNat < 128)
    (h : letterUpTo last c = true) : isWhitespace c = false := by
  have hall := ascii_forall (fun c => 'A' ≤ c.toUpper → isWhitespace c = false) (by decide +kernel)
    (ascii_of_letterUpTo hlast h)
  simp only [letterUpTo, Bool.and_eq_true, decide_eq_true_eq] at h
  exact hall h.1

/-- The characters of a locator are letters and digits. -/
theorem Locator.chars (l : Locator) (c : Char) (hc : c ∈ l.text) :
    letterUpTo 'R' c = true ∨ letterUpTo 'X' c = true ∨ c.isDigit = true := by
  obtain ⟨text, h⟩ := l
  unfold isLocator at h
  split at h
  · simp only [Bool.and_eq_true] at h
    simp only [List.mem_cons, List.not_mem_nil, or_false] at hc
    obtain rfl | rfl | rfl | rfl := hc <;> simp [h]
  · simp only [Bool.and_eq_true] at h
    simp only [List.mem_cons, List.not_mem_nil, or_false] at hc
    obtain rfl | rfl | rfl | rfl | rfl | rfl := hc <;> simp [h]
  · contradiction

theorem Locator.visible (l : Locator) (c : Char) (hc : c ∈ l.text) : isWhitespace c = false := by
  obtain h | h | h := l.chars c hc
  · exact visible_of_letterUpTo (by decide) h
  · exact visible_of_letterUpTo (by decide) h
  · exact visible_of_isDigit h

theorem utf8_major {c : Char} (h : letterUpTo 'R' c = true) (s : Text) :
    ∃ b, utf8 (c::s) = b :: utf8 s ∧ validMajor b = true := by
  have hascii := ascii_of_letterUpTo (by decide) h
  exact ⟨_, utf8_cons hascii s, (ascii_tests hascii).1.trans h⟩

theorem utf8_minor {c : Char} (h : letterUpTo 'X' c = true) (s : Text) :
    ∃ b, utf8 (c::s) = b :: utf8 s ∧ validMinor b = true := by
  have hascii := ascii_of_letterUpTo (by decide) h
  exact ⟨_, utf8_cons hascii s, (ascii_tests hascii).2.1.trans h⟩

theorem utf8_digit {c : Char} (h : c.isDigit = true) (s : Text) :
    ∃ b, utf8 (c::s) = b :: utf8 s ∧ isAsciiDigit b = true := by
  have hascii := ascii_of_isDigit h
  exact ⟨_, utf8_cons hascii s, (ascii_tests hascii).2.2.trans h⟩

/-- Every locator is recognised as a grid. -/
theorem isGridSquare_locator (l : Locator) : isGridSquare l.text = true := by
  obtain ⟨text, h⟩ := l
  unfold isLocator at h
  split at h
  · next a b c d =>
    simp only [Bool.and_eq_true] at h
    obtain ⟨⟨⟨ha, hb⟩, hc⟩, hd⟩ := h
    obtain ⟨b0, hbytes0, h0⟩ := utf8_major ha [b,c,d]
    obtain ⟨b1, hbytes1, h1⟩ := utf8_major hb [c,d]
    obtain ⟨b2, hbytes2, h2⟩ := utf8_digit hc [d]
    obtain ⟨b3, hbytes3, h3⟩ := utf8_digit hd []
    have hbytes : utf8 [a,b,c,d] = [b0,b1,b2,b3] := by
      rw [hbytes0, hbytes1, hbytes2, hbytes3]
      rfl
    simp only [isGridSquare, hbytes, h0, h1, h2, h3, Bool.and_self]
  · next a b c d e f =>
    simp only [Bool.and_eq_true] at h
    obtain ⟨⟨⟨⟨⟨ha, hb⟩, hc⟩, hd⟩, he⟩, hf⟩ := h
    obtain ⟨b0, hbytes0, h0⟩ := utf8_major ha [b,c,d,e,f]
    obtain ⟨b1, hbytes1, h1⟩ := utf8_major hb [c,d,e,f]
    obtain ⟨b2, hbytes2, h2⟩ := utf8_digit hc [d,e,f]
    obtain ⟨b3, hbytes3, h3⟩ := utf8_digit hd [e,f]
    obtain ⟨b4, hbytes4, h4⟩ := utf8_minor he [f]
    obtain ⟨b5, hbytes5, h5⟩ := utf8_minor hf []
    have hbytes : utf8 [a,b,c,d,e,f] = [b0,b1,b2,b3,b4,b5] := by
      rw [hbytes0, hbytes1, hbytes2, hbytes3, hbytes4, hbytes5]
      rfl
    simp only [isGridSquare, hbytes, h0, h1, h2, h3, h4, h5, Bool.and_self]
  · contradiction

/-- A text that does not begin with a letter is no grid. -/
theorem isGridSquare_of_head {c : Char} {s : Text} (hascii : c.toNat < 128)
    (h : letterUpTo 'R' c = false) : isGridSquare (c::s) = false := by
  have hhead : validMajor (UInt8.ofNat c.toNat) = false := (ascii_tests hascii).1.trans h
  rw [isGridSquare, utf8_cons hascii]
  split
  · next hbytes =>
    obtain ⟨rfl, -⟩ := List.cons.inj hbytes
    simp [hhead]
  · next hbytes =>
    obtain ⟨rfl, -⟩ := List.cons.inj hbytes
    simp [hhead]
  · rfl

theorem letterUpTo_of_isDigit {c : Char} (h : c.isDigit = true) : letterUpTo 'R' c = false := by
  have hall := ascii_forall (fun c => c.isDigit = true → letterUpTo 'R' c = false) (by decide +kernel)
    (ascii_of_isDigit h)
  exact hall h

/-- No number is read as a grid. -/
theorem isGridSquare_displayInt (v : ℤ) : isGridSquare (displayInt v) = false := by
  cases v with
  | negSucc n => exact isGridSquare_of_head (by decide) (by decide)
  | ofNat n =>
    obtain ⟨c, s, hcs⟩ := List.exists_cons_of_ne_nil (displayNat_ne_nil n)
    have hdigit : c.isDigit = true :=
      isDigit_of_mem_displayNat (by rw [hcs]; exact List.mem_cons_self)
    rw [displayInt, hcs]
    exact isGridSquare_of_head (ascii_of_isDigit hdigit) (letterUpTo_of_isDigit hdigit)

theorem Locator.ne_nil (l : Locator) : l.text ≠ [] := by
  intro h
  have hvalid := l.valid
  rw [h] at hvalid
  contradiction

end Wsprrs
