import Wsprrs.Decode.Grid

/-! What `wsprd` writes into `ALL_WSPR.TXT`: records with an optional grid column, laid out on
lines among blank lines and others that are not records. Reading the file gives the records. -/
namespace Wsprrs
open Numeral Text

/-- A word: not empty and without whitespace. -/
structure Token where
  text : Text
  ne_nil : text ≠ []
  visible : ∀ c ∈ text, isWhitespace c = false

/-- A word that a parser accepts, with what it reads. -/
structure Reading {α : Type} (parse : Text → Option α) extends Token where
  value : α
  reads : parse text = some value

namespace Token

def ofNat (n : ℕ) : Token where
  text := displayNat n
  ne_nil := displayNat_ne_nil n
  visible _ hc := visible_of_isDigit (isDigit_of_mem_displayNat hc)

def ofInt (v : ℤ) : Token where
  text := displayInt v
  ne_nil := displayInt_ne_nil v
  visible := by
    intro c hc
    obtain rfl | hdigit := mem_displayInt hc
    · decide
    · exact visible_of_isDigit hdigit

def ofLocator (l : Locator) : Token := ⟨l.text, l.ne_nil, l.visible⟩

end Token

/-- The columns of a record, with their values. -/
structure SpotRecord where
  rxId : Token
  hash : Token
  snr : Int32
  dt : Reading parseF32
  freqMhz : Reading parseF64
  call : Token
  grid : Option Locator
  pwr : Int32
  drift : Int32
  syncQuality : Reading parseF32
  npass : UInt8
  osdPass : UInt8
  nhardmin : Int32
  nbadcrc : Token
  ncycles : UInt32
  candidates : UInt32
  nfano : Int32

namespace SpotRecord

def gridText (r : SpotRecord) : Text := (r.grid.map Locator.text).getD []

/-- The columns as they are written, in the documented order. -/
def columns (r : SpotRecord) : List Token :=
  [r.rxId, r.hash, .ofInt r.snr.toInt, r.dt.toToken, r.freqMhz.toToken, r.call] ++
  (r.grid.map Token.ofLocator).toList ++
  [.ofInt r.pwr.toInt, .ofInt r.drift.toInt, r.syncQuality.toToken, .ofNat r.npass.toNat,
    .ofNat r.osdPass.toNat, .ofInt r.nhardmin.toInt, r.nbadcrc, .ofNat r.ncycles.toNat,
    .ofNat r.candidates.toNat, .ofInt r.nfano.toInt]

/-- Callsign, grid if there is one, and power. -/
def message (r : SpotRecord) : Text :=
  match r.grid with
  | some grid => r.call.text ++ [' '] ++ grid.text ++ [' '] ++ displayInt r.pwr.toInt
  | none => r.call.text ++ [' '] ++ displayInt r.pwr.toInt

/-- The spot that a record stands for. -/
def spot (windowStart : ℤ) (r : SpotRecord) : WsprSpot where
  timeUtc := hhmmUtc windowStart
  snrDb := r.snr
  dtSec := r.dt.value
  freqHz := r.freqMhz.value.mul million
  message := r.message
  callsign := r.call.text
  grid := r.gridText
  powerDbm := r.pwr
  drift := r.drift
  syncQuality := r.syncQuality.value
  npass := r.npass
  osdPass := r.osdPass
  nhardmin := r.nhardmin
  decodeCycles := r.ncycles
  candidates := r.candidates
  nfano := r.nfano

end SpotRecord

/-- The columns of a record are read back, whether it has a grid or not. -/
theorem parseColumns_record (windowStart : ℤ) (r : SpotRecord) :
    parseColumns (r.columns.map Token.text) windowStart = some (r.spot windowStart) := by
  have hdt := r.dt.reads
  have hfreq := r.freqMhz.reads
  have hsync := r.syncQuality.reads
  cases hgrid : r.grid with
  | none =>
    simp [parseColumns, SpotRecord.columns, SpotRecord.spot, hgrid, isGridSquare_displayInt,
      parseI32_displayInt, parseU8_displayNat, parseU32_displayNat, hdt, hfreq, hsync,
      SpotRecord.gridText, SpotRecord.message, formatMessage, Token.ofInt, Token.ofNat]
  | some grid =>
    simp [parseColumns, SpotRecord.columns, SpotRecord.spot, hgrid, isGridSquare_locator,
      grid.ne_nil, parseI32_displayInt, parseU8_displayNat, parseU32_displayNat, hdt, hfreq, hsync,
      SpotRecord.gridText, SpotRecord.message, formatMessage, Token.ofInt, Token.ofNat,
      Token.ofLocator]

/-- A run of blanks within a line. -/
structure Blanks where
  text : Text
  blank : Blank text
  oneLine : '\n' ∉ text

/-- What stands before, between and after the columns; between them it is not empty. -/
structure Layout where
  lead : Blanks
  gap : ℕ → Blanks
  gap_ne_nil : ∀ i, (gap i).text ≠ []
  trail : Blanks

namespace Layout

/-- The columns from the `i`-th on, each followed by its gap but the last. -/
def spread (layout : Layout) (i : ℕ) : List Token → Text
  | [] => []
  | [t] => t.text
  | t::ts => t.text ++ (layout.gap i).text ++ layout.spread (i + 1) ts

def render (layout : Layout) (columns : List Token) : Text :=
  layout.lead.text ++ layout.spread 0 columns ++ layout.trail.text

variable (layout : Layout)

theorem splitWhitespace_spread (i : ℕ) (ts : List Token) :
    splitWhitespace (layout.spread i ts) = ts.map Token.text := by
  induction ts generalizing i with
  | nil => rfl
  | cons t ts ih =>
    cases ts with
    | nil => exact splitWhitespace_word t.ne_nil t.visible
    | cons u ts =>
      rw [spread, splitWhitespace_separated _ _ (layout.gap i).blank (layout.gap_ne_nil i), ih,
        splitWhitespace_word t.ne_nil t.visible]
      · rfl
      · simp

theorem splitWhitespace_render (ts : List Token) :
    splitWhitespace (layout.render ts) = ts.map Token.text := by
  rw [render, splitWhitespace_append_blank _ layout.trail.blank,
    splitWhitespace_blank_append layout.lead.blank, splitWhitespace_spread]

theorem Token.oneLine (t : Token) : '\n' ∉ t.text := by
  intro h
  have hvisible := t.visible _ h
  contradiction

theorem oneLine_spread (i : ℕ) (ts : List Token) : '\n' ∉ layout.spread i ts := by
  induction ts generalizing i with
  | nil => exact List.not_mem_nil
  | cons t ts ih =>
    cases ts with
    | nil => exact Token.oneLine t
    | cons u ts =>
      exact List.not_mem_append (List.not_mem_append (Token.oneLine t) (layout.gap i).oneLine)
        (ih (i + 1))

theorem oneLine_render (ts : List Token) : '\n' ∉ layout.render ts :=
  List.not_mem_append (List.not_mem_append layout.lead.oneLine (layout.oneLine_spread 0 ts))
    layout.trail.oneLine

end Layout

/-- A line of the file: blank, rejected by the line parser, or a record laid out somehow. -/
inductive Line (windowStart : ℤ)
  | blank (blanks : Blanks)
  | rejected (other : Text) (oneLine : '\n' ∉ other) (e : WsprError)
      (h : parseAllWsprLine other windowStart = .error e)
  | record (r : SpotRecord) (layout : Layout)

namespace Line
variable {windowStart : ℤ}

def text : Line windowStart → Text
  | .blank blanks => blanks.text
  | .rejected other _ _ _ => other
  | .record r layout => layout.render r.columns

def record? : Line windowStart → Option SpotRecord
  | .record r _ => some r
  | _ => none

theorem oneLine (l : Line windowStart) : '\n' ∉ l.text := by
  cases l with
  | blank blanks => exact blanks.oneLine
  | rejected other h e he => exact h
  | record r layout => exact layout.oneLine_render r.columns

theorem parseColumns_text (l : Line windowStart) :
    parseColumns (splitWhitespace l.text) windowStart =
      l.record?.map (SpotRecord.spot windowStart) := by
  cases l with
  | blank blanks =>
    have hwords : splitWhitespace blanks.text = [] := by
      simpa using splitWhitespace_append_blank [] blanks.blank
    rw [text, hwords]
    rfl
  | rejected other h e he =>
    unfold parseAllWsprLine at he
    split at he
    · contradiction
    · next hnone => exact hnone
  | record r layout =>
    rw [text, layout.splitWhitespace_render]
    exact parseColumns_record windowStart r

end Line

inductive LineEnd
  | lf
  | crlf

def LineEnd.text : LineEnd → Text
  | .lf => ['\n']
  | .crlf => ['\r','\n']

section
variable {windowStart : ℤ}

/-- Lines with their ends, and possibly a last one without. -/
def joinLines (ls : List (Line windowStart × LineEnd)) (last : Option (Line windowStart)) : Text :=
  ls.flatMap (fun l => l.1.text ++ l.2.text) ++ (last.map Line.text).getD []

theorem spotOfLine_eq (line : Text) :
    spotOfLine windowStart line = parseColumns (splitWhitespace line) windowStart := by
  rw [spotOfLine, parseAllWsprLine, splitWhitespace_trim]
  cases parseColumns (splitWhitespace line) windowStart <;> rfl

/-- A line of text contributes the spot of its columns; a blank one has none. -/
theorem parseAllWsprTxt_eq (content : Text) :
    parseAllWsprTxt content windowStart =
      (lines content).filterMap (fun l => parseColumns (splitWhitespace l) windowStart) := by
  rw [parseAllWsprTxt, List.filterMap_filter]
  refine List.filterMap_congr ?_
  intro line _
  rw [spotOfLine_eq]
  cases htrim : trim line with
  | cons c rest => rfl
  | nil =>
    have hwords : splitWhitespace line = [] := by rw [← splitWhitespace_trim, htrim]; rfl
    rw [hwords]
    rfl

theorem parseAllWsprTxt_cons (l : Line windowStart) (lineEnd : LineEnd) (rest : Text) :
    parseAllWsprTxt (l.text ++ lineEnd.text ++ rest) windowStart =
      (l.record?.map (SpotRecord.spot windowStart)).toList ++ parseAllWsprTxt rest windowStart := by
  have hcr : Blank ['\r'] := by
    intro c hc
    obtain rfl := List.mem_singleton.mp hc
    decide
  have hline : ∃ body, l.text ++ lineEnd.text ++ rest = body ++ '\n'::rest ∧ '\n' ∉ body ∧
      splitWhitespace body = splitWhitespace l.text := by
    cases lineEnd with
    | lf => exact ⟨l.text, by simp [LineEnd.text], l.oneLine, rfl⟩
    | crlf =>
      refine ⟨l.text ++ ['\r'], by simp [LineEnd.text], ?_, splitWhitespace_append_blank _ hcr⟩
      exact List.not_mem_append l.oneLine (by decide)
  obtain ⟨body, hbody, hone, hwords⟩ := hline
  rw [parseAllWsprTxt_eq, hbody, lines_cons hone, List.filterMap_cons,
    splitWhitespace_stripCarriageReturn, hwords, l.parseColumns_text, ← parseAllWsprTxt_eq]
  cases l.record? <;> rfl

theorem parseAllWsprTxt_last (l : Line windowStart) :
    parseAllWsprTxt l.text windowStart = (l.record?.map (SpotRecord.spot windowStart)).toList := by
  rw [parseAllWsprTxt_eq, lines_unterminated l.oneLine, ← l.parseColumns_text]
  cases htext : l.text with
  | nil => rfl
  | cons c rest => cases hspot : parseColumns (splitWhitespace (c::rest)) windowStart <;> simp [hspot]

end

/-- The file gives back its records: one spot for each, in order, whatever blank or rejected
lines stand among them. -/
theorem parseAllWsprTxt_joinLines (windowStart : ℤ) (ls : List (Line windowStart × LineEnd))
    (last : Option (Line windowStart)) :
    parseAllWsprTxt (joinLines ls last) windowStart =
      ((ls.map Prod.fst ++ last.toList).filterMap Line.record?).map (SpotRecord.spot windowStart) := by
  induction ls with
  | nil =>
    cases last with
    | none => rfl
    | some l =>
      simp only [joinLines, List.flatMap_nil, List.nil_append, Option.map_some, Option.getD_some,
        parseAllWsprTxt_last]
      cases h : l.record? <;> simp [h]
  | cons l ls ih =>
    have hjoin : joinLines (l::ls) last = l.1.text ++ l.2.text ++ joinLines ls last := by
      simp [joinLines]
    rw [hjoin, parseAllWsprTxt_cons, ih]
    cases h : l.1.record? <;> simp [h]

/-- A line without a grid, one minute after the epoch. -/
example : (parseAllWsprTxt
    "prrs_t 0aYF  23 -0.36   7.0400808  1HO/VV8XYH 53   2  0.18  2  1   56  0  73  7050  -235".toList
    60000000000).map (fun s => (s.timeUtc, s.grid, s.powerDbm, s.dtSec.bits)) =
      [(['0','0','0','1'], [], 53, 0xBEB851EC)] := by
  decide +kernel

end Wsprrs
