import Mathlib.Data.List.DropRight
import Mathlib.Tactic

/-! Text as a list of characters: its lines, its words, and what separates them. -/
namespace Wsprrs

abbrev Text := List Char

namespace Text

/-- The characters of a literal can be read off without decoding it. -/
theorem not_mem_literal {s : String} {l : Text} (h : s = String.ofList l) {c : Char} (hc : c ∉ l) :
    c ∉ s.toList := by
  rwa [h, String.toList_ofList]

/-- Every line followed by a newline. -/
def terminated (ls : List Text) : Text := ls.flatMap (fun l => l ++ ['\n'])

@[simp] theorem terminated_nil : terminated [] = [] := rfl
@[simp] theorem terminated_append (ls ls' : List Text) :
    terminated (ls ++ ls') = terminated ls ++ terminated ls' := List.flatMap_append

/-- A text of terminated lines splits back into them, with nothing after the last. -/
theorem splitOn_terminated {ls : List Text} (h : ∀ l ∈ ls, '\n' ∉ l) :
    (terminated ls).splitOn '\n' = ls ++ [[]] := by
  induction ls with
  | nil => rfl
  | cons l ls ih =>
    have hl : '\n' ∉ l := h l (by simp)
    have htail := ih (fun m hm => h m (by simp [hm]))
    have hcons : terminated (l::ls) = l ++ '\n'::terminated ls := by simp [terminated]
    rw [hcons, List.splitOn_append_cons_self_of_not_mem hl, htail, List.cons_append]

/-- There is one piece more than there are newlines. -/
theorem length_splitOn (s : Text) : (s.splitOn '\n').length = s.count '\n' + 1 := by
  induction s with
  | nil => rfl
  | cons c s ih =>
    rw [List.splitOn_cons_eq_if_modifyHead, List.count_cons]
    split_ifs with h
    · rw [List.length_cons, ih]
    · rw [List.length_modifyHead, ih, Nat.add_zero]

/-- `char::is_whitespace`, the Unicode property `White_Space`. -/
def isWhitespace (c : Char) : Bool :=
  let n := c.toNat
  (9 ≤ n && n ≤ 13) || n = 0x20 || n = 0x85 || n = 0xA0 || n = 0x1680 ||
    (0x2000 ≤ n && n ≤ 0x200A) || n = 0x2028 || n = 0x2029 || n = 0x202F || n = 0x205F || n = 0x3000

def splitWhitespace (s : Text) : List Text := (s.splitOnP isWhitespace).filter (fun w => !w.isEmpty)

def trim (s : Text) : Text := (s.dropWhile isWhitespace).rdropWhile isWhitespace

/-- A carriage return before the end of a line belongs to the line's end. -/
def stripCarriageReturn (s : Text) : Text := if s.getLast? = some '\r' then s.dropLast else s

/-- `str::lines`: a text that ends in a newline has no line after it. -/
def lines (s : Text) : List Text :=
  let pieces := s.splitOn '\n'
  pieces.dropLast.map stripCarriageReturn ++ pieces.getLast?.toList.filter (fun l => !l.isEmpty)

/-- Nothing but whitespace. -/
def Blank (s : Text) : Prop := ∀ c ∈ s, isWhitespace c = true

section words
variable {s b : Text}

@[simp] theorem splitWhitespace_nil : splitWhitespace [] = [] := rfl

theorem splitWhitespace_append_cons (s t : Text) {c : Char} (hc : isWhitespace c = true) :
    splitWhitespace (s ++ c::t) = splitWhitespace s ++ splitWhitespace t := by
  rw [splitWhitespace, List.splitOnP_append_cons s t hc, List.filter_append]
  rfl

/-- A word with no whitespace in it is its own only word. -/
theorem splitWhitespace_word {w : Text} (hne : w ≠ []) (h : ∀ c ∈ w, isWhitespace c = false) :
    splitWhitespace w = [w] := by
  rw [splitWhitespace, List.splitOnP_eq_singleton h]
  simp [hne]

theorem splitWhitespace_blank_append (hb : Blank b) (s : Text) :
    splitWhitespace (b ++ s) = splitWhitespace s := by
  induction b with
  | nil => rfl
  | cons c b ih =>
    have hc : isWhitespace c = true := hb c (by simp)
    have htail := ih (fun d hd => hb d (by simp [hd]))
    exact (splitWhitespace_append_cons [] (b ++ s) hc).trans htail

theorem splitWhitespace_append_blank (s : Text) (hb : Blank b) :
    splitWhitespace (s ++ b) = splitWhitespace s := by
  cases b with
  | nil => rw [List.append_nil]
  | cons c b =>
    have htail : splitWhitespace b = [] := by
      simpa using splitWhitespace_blank_append (fun d hd => hb d (by simp [hd])) []
    rw [splitWhitespace_append_cons s b (hb c (by simp)), htail, List.append_nil]

/-- Words with something blank between them stay apart. -/
theorem splitWhitespace_separated (s t : Text) (hb : Blank b) (hne : b ≠ []) :
    splitWhitespace (s ++ b ++ t) = splitWhitespace s ++ splitWhitespace t := by
  cases b with
  | nil => contradiction
  | cons c b =>
    rw [List.append_assoc, List.cons_append, splitWhitespace_append_cons s _ (hb c (by simp)),
      splitWhitespace_blank_append (fun d hd => hb d (by simp [hd]))]

/-- Trimming a text does not change its words. -/
theorem splitWhitespace_trim (s : Text) : splitWhitespace (trim s) = splitWhitespace s := by
  have hleft : Blank (s.takeWhile isWhitespace) := fun c hc => List.mem_takeWhile_imp hc
  have hright : Blank ((s.dropWhile isWhitespace).rtakeWhile isWhitespace) :=
    fun c hc => List.mem_rtakeWhile_imp hc
  calc splitWhitespace (trim s)
      = splitWhitespace (trim s ++ (s.dropWhile isWhitespace).rtakeWhile isWhitespace) :=
        (splitWhitespace_append_blank _ hright).symm
    _ = splitWhitespace (s.dropWhile isWhitespace) := by
        rw [trim, List.rdropWhile_append_rtakeWhile]
    _ = splitWhitespace (s.takeWhile isWhitespace ++ s.dropWhile isWhitespace) :=
        (splitWhitespace_blank_append hleft _).symm
    _ = splitWhitespace s := by rw [List.takeWhile_append_dropWhile]

theorem splitWhitespace_stripCarriageReturn (s : Text) :
    splitWhitespace (stripCarriageReturn s) = splitWhitespace s := by
  unfold stripCarriageReturn
  split_ifs with h
  · have hlast : s = s.dropLast ++ ['\r'] := (List.dropLast_append_getLast? '\r' h).symm
    have hcr : Blank ['\r'] := by
      intro c hc
      obtain rfl := List.mem_singleton.mp hc
      decide
    conv_rhs => rw [hlast, splitWhitespace_append_blank _ hcr]
  · rfl

end words

theorem lines_cons {l : Text} (h : '\n' ∉ l) (s : Text) :
    lines (l ++ '\n'::s) = stripCarriageReturn l :: lines s := by
  have hne : s.splitOn '\n' ≠ [] := List.splitOn_ne_nil _ _
  simp only [lines]
  rw [List.splitOn_append_cons_self_of_not_mem h, List.dropLast_cons_of_ne_nil hne,
    List.getLast?_cons_of_ne_nil hne, List.map_cons, List.cons_append]

theorem lines_unterminated {l : Text} (h : '\n' ∉ l) : lines l = [l].filter (fun l => !l.isEmpty) := by
  rw [lines, List.splitOn_eq_singleton h]
  rfl

end Text
end Wsprrs
