import Wsprrs.Decode.Records
import Wsprrs.Pipeline.Flow

/-! Whatever is written for a spot carries the time of the window it was decoded from: the
text in the file through one copy of the start of the window, the row through another. -/
namespace Wsprrs

theorem displayTwo_eq {n : ℕ} (h : n < 100) :
    displayTwo n = [Nat.digitChar (n/10), Nat.digitChar (n % 10)] := by
  have hall : ∀ i : Fin 100,
      displayTwo i.val = [Nat.digitChar (i.val/10), Nat.digitChar (i.val % 10)] := by decide +kernel
  exact hall ⟨n, h⟩

theorem toInt_toInt64_ofNat {n : ℕ} (h : n < 2^63) : (UInt64.ofNat n).toInt64.toInt = n := by
  have hn : (UInt64.ofNat n).toBitVec.toNat = n := by
    have := UInt64.toNat_ofNat' (n := n)
    rw [Nat.mod_eq_of_lt (by omega)] at this
    exact this
  have hint := BitVec.toInt_eq_toNat_of_lt (x := (UInt64.ofNat n).toBitVec) (by omega)
  rw [hn] at hint
  exact hint

/-- HHMM, the time of day of an even minute of Unix time. -/
def IsHhmm (text : Text) (unix : ℤ) : Prop :=
  ∃ hh mm : ℕ, hh < 24 ∧ mm < 60 ∧ mm % 2 = 0 ∧ ((60*hh + mm : ℕ) : ℤ) = (unix/60) % 1440 ∧
    text = [Nat.digitChar (hh/10), Nat.digitChar (hh % 10), Nat.digitChar (mm/10),
      Nat.digitChar (mm % 10)]

/-- The seconds of a boundary are a multiple of 120. -/
theorem asSecs_evenMinuteBoundary (now : ℤ) :
    ∃ n : ℕ, evenMinuteBoundary now = 1000000000*(120*n : ℕ) ∧
      Duration.asSecs (elapsed (evenMinuteBoundary now) UNIX_EPOCH) = 120*n := by
  obtain ⟨n, hn⟩ := evenMinuteBoundary_grid now
  refine ⟨n, ?_, ?_⟩
  · rw [hn]
    push_cast
    ring
  · rw [hn, elapsed_eq, UNIX_EPOCH, Duration.asSecs]
    omega

theorem isHhmm_hhmmUtc (now : ℤ) :
    IsHhmm (hhmmUtc (evenMinuteBoundary now)) (evenMinuteBoundary now/1000000000) := by
  obtain ⟨n, hstart, hsecs⟩ := asSecs_evenMinuteBoundary now
  refine ⟨120*n % 86400/3600, 120*n % 3600/60, ?_, ?_, ?_, ?_, ?_⟩
  · omega
  · omega
  · omega
  · rw [hstart]
    omega
  · rw [hhmmUtc, hsecs]
    rw [displayTwo_eq (by omega), displayTwo_eq (by omega)]
    rfl

/-- The row of a spot has the seconds of its window. -/
theorem fromSpot_windowStartUnix (spot : WsprSpot) {now : ℤ} (hnow : now < 2^63*1000000000) :
    (WsprSpotRow.fromSpot spot (evenMinuteBoundary now)).windowStartUnix.toInt*1000000000 =
        evenMinuteBoundary now ∧
      120 ∣ (WsprSpotRow.fromSpot spot (evenMinuteBoundary now)).windowStartUnix.toInt := by
  obtain ⟨n, hstart, hsecs⟩ := asSecs_evenMinuteBoundary now
  have hlt : 120*n < 2^63 := by
    by_cases hneg : now < 0
    · have hzero := evenMinuteBoundary_of_neg hneg
      omega
    · have hle := (evenMinuteBoundary_bounds (not_lt.mp hneg)).1
      omega
  have hrow : (WsprSpotRow.fromSpot spot (evenMinuteBoundary now)).windowStartUnix.toInt =
      (120*n : ℕ) := by
    rw [WsprSpotRow.fromSpot, hsecs]
    exact toInt_toInt64_ofNat hlt
  rw [hrow, hstart]
  refine ⟨mul_comm _ _, ?_⟩
  omega

theorem exists_of_bind {α β : Type} {x : Option α} {f : α → Option β} {b : β}
    (h : (x >>= f) = some b) : ∃ a, f a = some b := by
  obtain ⟨a, -, hfa⟩ := Option.bind_eq_some_iff.mp h
  exact ⟨a, hfa⟩

theorem parseColumns_timeUtc {f : List Text} {windowStart : ℤ} {spot : WsprSpot}
    (h : parseColumns f windowStart = some spot) : spot.timeUtc = hhmmUtc windowStart := by
  unfold parseColumns at h
  by_cases hshort : f.length < 16
  · rw [if_pos hshort] at h
    contradiction
  rw [if_neg hshort] at h
  obtain ⟨snrDb, h⟩ := exists_of_bind h
  obtain ⟨dtSec, h⟩ := exists_of_bind h
  obtain ⟨freqMhz, h⟩ := exists_of_bind h
  generalize (if isGridSquare (f.getD 6 []) then (f.getD 6 [], 7) else ([], 6)) = column at h
  obtain ⟨grid, base⟩ := column
  by_cases hcut : f.length < base + 10
  · simp only [if_pos hcut] at h
    contradiction
  simp only [if_neg hcut] at h
  obtain ⟨powerDbm, h⟩ := exists_of_bind h
  obtain ⟨drift, h⟩ := exists_of_bind h
  obtain ⟨syncQuality, h⟩ := exists_of_bind h
  obtain ⟨npass, h⟩ := exists_of_bind h
  obtain ⟨osdPass, h⟩ := exists_of_bind h
  obtain ⟨nhardmin, h⟩ := exists_of_bind h
  obtain ⟨decodeCycles, h⟩ := exists_of_bind h
  obtain ⟨candidates, h⟩ := exists_of_bind h
  obtain ⟨nfano, h⟩ := exists_of_bind h
  rw [← Option.some.inj h]

/-- Every spot of a file has the time that the file was read with. -/
theorem timeUtc_of_mem_parseAllWsprTxt {content : Text} {windowStart : ℤ} {spot : WsprSpot}
    (h : spot ∈ parseAllWsprTxt content windowStart) : spot.timeUtc = hhmmUtc windowStart := by
  obtain ⟨line, -, hspot⟩ := List.mem_filterMap.mp h
  rw [spotOfLine_eq] at hspot
  exact parseColumns_timeUtc hspot

namespace Pipeline
open DecodeTask

/-- The spot was read from the file that the decode with this number left for this window. -/
def DecodedFrom (es : List Event) (out : List Action) (id : ℕ) (window : AudioWindow)
    (spot : WsprSpot) : Prop :=
  ∃ content, .complete id (.file content) ∈ es ∧
    .output (.decoded id (.ok (parseAllWsprTxt content window.windowStart, window.windowStart))) ∈ out ∧
    spot ∈ parseAllWsprTxt content window.windowStart

/-- The text is that of such a spot, with the time of the window. -/
def StampedText (toJson : WsprSpot → Except Text Text) (decoded : WsprSpot → Prop) (windowStart : ℤ)
    (text : Text) : Prop :=
  ∃ spot, decoded spot ∧ toJson spot = .ok text ∧ IsHhmm spot.timeUtc (windowStart/1000000000)

/-- The row is that of such a spot, with the seconds and the time of the window. -/
def StampedRow (decoded : WsprSpot → Prop) (windowStart : ℤ) (row : WsprSpotRow) : Prop :=
  ∃ spot, decoded spot ∧ row = WsprSpotRow.fromSpot spot windowStart ∧
    row.windowStartUnix.toInt*1000000000 = windowStart ∧ 120 ∣ row.windowStartUnix.toInt ∧
    IsHhmm row.timeUtc row.windowStartUnix.toInt

/-- What is written to the file is a stamped text, even if it is cut off, or a newline; the rows
that are inserted, or built for an insert that fails, are stamped rows. -/
def Stamped (toJson : WsprSpot → Except Text Text) (decoded : WsprSpot → Prop) (windowStart : ℤ) :
    Effect → Prop
  | .appended text => text = ['\n'] ∨ StampedText toJson decoded windowStart text
  | .cutOff json _ => StampedText toJson decoded windowStart json
  | .inserted _ rows => ∀ row ∈ rows, StampedRow decoded windowStart row
  | .refused _ rows => ∀ row ∈ rows, StampedRow decoded windowStart row
  | _ => True

section
variable {sinks : Sinks} {toJson : WsprSpot → Except Text Text} {decoded : WsprSpot → Prop} {now : ℤ}

theorem stampedText {spot : WsprSpot} {json : Text} (hdecoded : decoded spot)
    (hjson : toJson spot = .ok json) (htime : spot.timeUtc = hhmmUtc (evenMinuteBoundary now)) :
    StampedText toJson decoded (evenMinuteBoundary now) json := by
  refine ⟨spot, hdecoded, hjson, ?_⟩
  rw [htime]
  exact isHhmm_hhmmUtc now

theorem stampedRow {spot : WsprSpot} (hnow : now < 2^63*1000000000) (hdecoded : decoded spot)
    (htime : spot.timeUtc = hhmmUtc (evenMinuteBoundary now)) :
    StampedRow decoded (evenMinuteBoundary now)
      (WsprSpotRow.fromSpot spot (evenMinuteBoundary now)) := by
  obtain ⟨hstart, hdvd⟩ := fromSpot_windowStartUnix spot hnow
  refine ⟨spot, hdecoded, rfl, hstart, hdvd, ?_⟩
  have hunix : evenMinuteBoundary now/1000000000 =
      (WsprSpotRow.fromSpot spot (evenMinuteBoundary now)).windowStartUnix.toInt :=
    Int.ediv_eq_of_eq_mul_left (by decide) hstart.symm
  have hrow : (WsprSpotRow.fromSpot spot (evenMinuteBoundary now)).timeUtc =
      hhmmUtc (evenMinuteBoundary now) := htime
  rw [hrow, ← hunix]
  exact isHhmm_hhmmUtc now

section
variable {spots : List WsprSpot} (hnow : now < 2^63*1000000000)
  (hspots : ∀ spot ∈ spots, decoded spot ∧ spot.timeUtc = hhmmUtc (evenMinuteBoundary now))
include hspots

theorem stamped_spotEffects {id left : ℕ} {spot : WsprSpot} (hspot : spot ∈ spots) {effect : Effect}
    (h : effect ∈ spotEffects sinks toJson id left spot) :
    Stamped toJson decoded (evenMinuteBoundary now) effect := by
  obtain ⟨hdecoded, htime⟩ := hspots spot hspot
  obtain h | h := List.mem_append.mp h
  · unfold logSpot at h
    split at h <;> rw [List.mem_singleton.mp h] <;> trivial
  · unfold writeSpot at h
    split_ifs at h
    · contradiction
    split at h
    · next json hjson =>
      have htext := stampedText hdecoded hjson htime
      split at h
      · simp only [List.mem_cons, List.not_mem_nil, or_false] at h
        obtain rfl | rfl | rfl := h
        · exact .inr htext
        · exact .inl rfl
        · trivial
      · simp only [List.mem_cons, List.not_mem_nil, or_false] at h
        obtain rfl | rfl := h
        · exact htext
        · trivial
    · rw [List.mem_singleton.mp h]
      trivial

include hnow

theorem stamped_insertBatch {id : ℕ} {effect : Effect}
    (h : effect ∈ insertBatch sinks id spots (evenMinuteBoundary now)) :
    Stamped toJson decoded (evenMinuteBoundary now) effect := by
  have hrows : ∀ row ∈ spots.map (fun spot => WsprSpotRow.fromSpot spot (evenMinuteBoundary now)),
      StampedRow decoded (evenMinuteBoundary now) row := by
    intro row hrow
    obtain ⟨spot, hspot, rfl⟩ := List.mem_map.mp hrow
    obtain ⟨hdecoded, htime⟩ := hspots spot hspot
    exact stampedRow hnow hdecoded htime
  unfold insertBatch insertSpotsCh at h
  split at h
  · split_ifs at h
    · contradiction
    split at h
    · rw [List.mem_singleton.mp h]
      exact hrows
    · rw [List.mem_singleton.mp h]
      trivial
    · simp only [List.mem_cons, List.not_mem_nil, or_false] at h
      obtain rfl | rfl := h
      · exact fun row hrow => hrows row (List.mem_of_mem_take hrow)
      · trivial
    · simp only [List.mem_cons, List.not_mem_nil, or_false] at h
      obtain rfl | rfl := h
      · exact hrows
      · trivial
  · contradiction

theorem stamped_handling {id : ℕ} {effect : Effect}
    (h : effect ∈ handling sinks toJson id (.ok (spots, evenMinuteBoundary now))) :
    Stamped toJson decoded (evenMinuteBoundary now) effect := by
  simp only [handling, List.mem_append] at h
  obtain (h | h) | h := h
  · unfold noticeEmpty at h
    split_ifs at h
    · rw [List.mem_singleton.mp h]
      trivial
    · contradiction
  · obtain ⟨left, spot, hspot, h⟩ := mem_spotsEffects h
    exact stamped_spotEffects hspots hspot h
  · exact stamped_insertBatch hnow hspots h

end

/-- An effect belongs to a result that came in for its number. -/
theorem exists_result {as : List DecodeTask.Action} (h : AtMostOnce sinks toJson as) {id : ℕ}
    {effect : Effect} (hmem : .effect id effect ∈ as) :
    ∃ result, .decoded id result ∈ as ∧ effect ∈ handling sinks toJson id result := by
  have heffect : effect ∈ effectsOf id as := List.mem_filterMap.mpr ⟨_, hmem, by simp⟩
  obtain hnil | ⟨result, hdecoded, hprefix⟩ := h id
  · rw [hnil] at heffect
    contradiction
  · exact ⟨result, hdecoded, hprefix.subset heffect⟩

theorem atMostOnce_run (sinks : Sinks) (toJson : WsprSpot → Except Text Text)
    (ds : List DecodeTask.Event) :
    AtMostOnce sinks toJson ((DecodeTask.machine sinks toJson).outputs .initial ds) := by
  obtain ⟨-, -, hacc, -⟩ | ⟨-, -, honce, -⟩ := run_cases sinks toJson ds
  · exact hacc.atMostOnce
  · exact honce

end

theorem mem_output {out : List Action} {a : DecodeTask.Action} :
    a ∈ out.filterMap Action.output? ↔ .output a ∈ out := by
  rw [List.mem_filterMap]
  constructor
  · rintro ⟨b, hb, hpick⟩
    cases b with
    | captured b => contradiction
    | output b => rwa [← Option.some.inj hpick]
  · intro h
    exact ⟨_, h, rfl⟩

theorem mem_sealedBy {as : List BufferTask.Action} {window : AudioWindow} (h : window ∈ sealedBy as) :
    ∃ s, window ∈ BufferTask.sentTo s as := by
  obtain ⟨⟨s, act⟩, ha, hsent⟩ := List.mem_filterMap.mp h
  cases act with
  | sent w =>
    refine ⟨s, List.mem_filterMap.mpr ⟨_, ha, ?_⟩⟩
    simpa using hsent
  | _ => contradiction

/-- Every window received was opened at the boundary before a reading of the clock. -/
theorem received_opened (cfg : Config) (sinks : Sinks) (toJson : WsprSpot → Except Text Text)
    (es : List Event) {id : ℕ} {window : AudioWindow}
    (h : .output (.received id window) ∈ (machine cfg sinks toJson).outputs .initial es) :
    ∃ e, .capture e ∈ es ∧ window.windowStart = evenMinuteBoundary e.now := by
  have hflow := flow_run cfg sinks toJson es
  have hsealed : window ∈ sealedBy
      (((machine cfg sinks toJson).outputs .initial es).filterMap Action.captured?) := by
    rw [hflow.conserved, List.append_assoc]
    exact List.mem_append_left _ (List.mem_of_getElem? ((hflow.received id window).mp h))
  obtain ⟨s, hsent⟩ := mem_sealedBy hsealed
  have hcapture : ((machine cfg sinks toJson).outputs .initial es).filterMap Action.captured? =
      (BufferTask.machine cfg).outputs .initial
        ((captureComponent cfg sinks toJson).trace .initial es) :=
    (captureComponent cfg sinks toJson).pick_outputs .initial es
  rw [hcapture] at hsent
  obtain ⟨d, hd, hstart⟩ := BufferTask.sentTo_opened cfg _ hsent
  obtain ⟨st, e, he, hfocus⟩ := (captureComponent cfg sinks toJson).mem_trace hd
  refine ⟨d, ?_, hstart⟩
  cases e with
  | capture e' =>
    obtain ⟨-, rfl⟩ : captures st e' = true ∧ e' = d := by
      simpa [captureComponent, captureFocus] using hfocus
    exact he
  | _ => contradiction

/-- In every run of the two tasks, however many windows there are and in whatever order their
decodes end: what is written for a number is stamped with the start of the window received
under that number, which is a boundary of the clock, and was decoded from that window. -/
theorem outputs_stamped (cfg : Config) (sinks : Sinks) (toJson : WsprSpot → Except Text Text)
    (es : List Event) (hclock : ∀ e, .capture e ∈ es → e.now < 2^63*1000000000) :
    let out := (machine cfg sinks toJson).outputs .initial es
    ∀ id effect, .output (.effect id effect) ∈ out → ∃ window,
      (∀ w, .output (.received id w) ∈ out ↔ w = window) ∧
      (∃ e, .capture e ∈ es ∧ window.windowStart = evenMinuteBoundary e.now) ∧
      Stamped toJson (DecodedFrom es out id window) window.windowStart effect := by
  intro out id effect hmem
  have hflow := flow_run cfg sinks toJson es
  have honce : AtMostOnce sinks toJson (out.filterMap Action.output?) := by
    have hout : out.filterMap Action.output? = (DecodeTask.machine sinks toJson).outputs .initial
        ((outputComponent cfg sinks toJson).trace .initial es) :=
      (outputComponent cfg sinks toJson).pick_outputs .initial es
    rw [hout]
    exact atMostOnce_run sinks toJson _
  obtain ⟨result, hdecoded, hhandling⟩ := exists_result honce (mem_output.mpr hmem)
  rw [mem_output] at hdecoded
  obtain ⟨window, outcome, hspawned, hcomplete, rfl⟩ := hflow.decoded id result hdecoded
  have hreceived : .output (.received id window) ∈ out := (hflow.received id window).mpr hspawned
  obtain ⟨e, he, hstart⟩ := received_opened cfg sinks toJson es hreceived
  refine ⟨window, ?_, ⟨e, he, hstart⟩, ?_⟩
  · intro w
    rw [hflow.received, hspawned, Option.some.injEq, eq_comm]
  have hspots : ∀ spots, decodeWindow window outcome = .ok spots → ∀ spot ∈ spots,
      DecodedFrom es out id window spot ∧ spot.timeUtc = hhmmUtc window.windowStart := by
    intro spots hok spot hspot
    cases outcome with
    | failed error => cases hok
    | noFile =>
      cases hok
      contradiction
    | file content =>
      cases hok
      exact ⟨⟨content, hcomplete, hdecoded, hspot⟩, timeUtc_of_mem_parseAllWsprTxt hspot⟩
  simp only [spawnedDecode] at hhandling
  cases hok : decodeWindow window outcome with
  | error e =>
    rw [hok] at hhandling
    rw [List.mem_singleton.mp hhandling]
    trivial
  | ok spots =>
    rw [hok, hstart] at hhandling
    rw [hstart] at hspots ⊢
    exact stamped_handling (hclock e he) (hspots spots hok) hhandling

/-- The seconds and the times of day in the rows that were inserted. -/
def insertedTimes (out : List Action) : List (ℤ × Text) :=
  out.flatMap (fun a =>
    match a with
    | .output (.effect _ (.inserted _ rows)) =>
      rows.map (fun row => (row.windowStartUnix.toInt, row.timeUtc))
    | _ => [])

/-- The window of one SSRC from 01:02 on the first day, with one spot in it. -/
def oneCycle : List Event :=
  [.capture ⟨3720000000000, .status BufferTask.readyStatus⟩,
    .capture ⟨3720000000000, .rtp (BufferTask.onePacket 0 0) 0⟩,
    .capture ⟨3831000000000, .tick .id⟩, .send, .advance,
    .complete 0
      (.file "K5ABC 1f0b -26 0.5 5.366191 WA5DXP EL49 37 0 0.25 1 1 0 0 28 5 13".toList),
    .advance, .advance, .advance]

theorem outputs_stamped_oneCycle :
    let sinks : Sinks := { outFile := true, chTable := some "wspr_spots" }
    let out := (machine BufferTask.shortCapture sinks (fun _ => .ok oneSpotJson)).outputs .initial
      oneCycle
    fileText (out.filterMap Action.output?) = oneSpotJson ++ ['\n'] ∧
    insertedTimes out = [(3720, "0102".toList)] ∧
    ∀ id effect, .output (.effect id effect) ∈ out → ∃ window,
      (∀ w, .output (.received id w) ∈ out ↔ w = window) ∧
      (∃ e, .capture e ∈ oneCycle ∧ window.windowStart = evenMinuteBoundary e.now) ∧
      Stamped (fun _ => .ok oneSpotJson) (DecodedFrom oneCycle out id window)
        window.windowStart effect := by
  refine ⟨by decide +kernel, by decide +kernel, outputs_stamped _ _ _ oneCycle ?_⟩
  intro e he
  simp only [oneCycle, List.mem_cons, Event.capture.injEq, reduceCtorEq, List.not_mem_nil,
    or_false] at he
  obtain rfl | rfl | rfl := he <;> norm_num

end Pipeline
end Wsprrs
