import Wsprrs.BufferTask.Channel

/-! Byte order: the encoding that decodes a packet against the encodings that the status
stream has reported. -/
namespace Wsprrs.BufferTask
open Rtp Status BigEndian TagLengthValue

/-- The integers that a list of status fields reports as output encoding, in order. -/
def encodingsIn (fields : List (UInt8 × List UInt8)) : List ℕ :=
  fields.filterMap (fun f => if f.1 = TAG_OUTPUT_ENCODING then some (value f.2) else none)

/-- The encodings that an event reports for `s`. -/
def reportedBy (s : UInt32) (e : Event) : List ℕ :=
  match e.input with
  | .status buf => if packetSsrc buf = some s then encodingsIn (packetFields buf) else []
  | _ => []

/-- The last encoding reported for `s`. -/
def lastReported (s : UInt32) (past : List Event) : Option ℕ := (past.flatMap (reportedBy s)).getLast?

/-- No encoding is reported that does not fit its byte, and no packet is handed to a window
while the encoding stored for its channel is neither of the two 16-bit ones. -/
def SettledEncoding (cfg : Config) (st : State) (e : Event) : Prop :=
  (∀ s, ∀ v ∈ reportedBy s e, v < 256) ∧
  ∀ s w call info, Delivers cfg st e s w call → st.channelMap s = some info →
    info.encoding = ENC_S16BE ∨ info.encoding = ENC_S16LE

/-- The bytes of a packet are decoded in the order that was last reported for its SSRC. -/
def Action.InReportedOrder (past : List Event) (a : Action) : Prop :=
  match a.act with
  | .ingested _ call =>
    lastReported a.ssrc past = some 2 ∧ decodeSampleOf call.encoding = i16FromBeBytes ∨
    lastReported a.ssrc past = some 1 ∧ decodeSampleOf call.encoding = i16FromLeBytes
  | _ => True

/-- A stored encoding is the last one reported, or still the zero default. -/
def Faithful (s : UInt32) (past : List Event) (info : Option ChannelInfo) : Prop :=
  ∀ i, info = some i → i.encoding = 0 ∨ lastReported s past = some i.encoding.toNat

theorem lastReported_concat (s : UInt32) (past : List Event) (e : Event) :
    lastReported s (past ++ [e]) = (reportedBy s e).getLast?.or (lastReported s past) := by
  simp [lastReported, List.getLast?_append]

/-- The encoding a datagram stores, if it reports one, is the last one it reports. -/
theorem collect_encoding (fields : List (UInt8 × List UInt8)) :
    (collect fields).encoding = (encodingsIn fields).getLast?.map UInt8.ofNat := by
  have hdecode (v : List UInt8) : (decodeU32 v).toUInt8 = UInt8.ofNat (value v) := by
    apply UInt8.toNat_inj.mp
    rw [decodeU32_eq, UInt32.toNat_toUInt8, UInt32.toNat_ofNat', UInt8.toNat_ofNat']
    omega
  have hlast : (lastValue TAG_OUTPUT_ENCODING fields).map value = (encodingsIn fields).getLast? := by
    have h := map_lastValue Prod.fst Prod.snd TAG_OUTPUT_ENCODING value
      (fun f => if f.1 = TAG_OUTPUT_ENCODING then some (value f.2) else none) fields (fun f _ => rfl)
    rwa [show fields.map (fun f => (f.1, f.2)) = fields from List.map_id fields] at h
  rw [collect_eq]
  simp only [hdecode, ← hlast, Option.map_map]
  rfl

/-- Applying a datagram whose encodings all fit their byte keeps the record faithful. -/
theorem Faithful.status {s : UInt32} {past : List Event} {old : Option ChannelInfo}
    (h : Faithful s past old) {e : Event} {fields : List (UInt8 × List UInt8)}
    (hreported : reportedBy s e = encodingsIn fields) (hfits : ∀ v ∈ reportedBy s e, v < 256) :
    Faithful s (past ++ [e]) (some ((collect fields).apply (old.getD {}))) := by
  rintro _ ⟨⟩
  rw [lastReported_concat, StatusUpdate.apply, collect_encoding, ← hreported]
  cases hlast : (reportedBy s e).getLast? with
  | some v =>
    have hv := hfits v (List.mem_of_getLast? hlast)
    right
    simp only [Option.map_some, Option.getD_some, Option.some_or, Option.some.injEq]
    rw [UInt8.toNat_ofNat']
    omega
  | none =>
    cases old with
    | none => exact Or.inl rfl
    | some i => simpa using h i rfl

/-- One event keeps every record faithful. -/
theorem faithful_step {cfg : Config} {past : List Event} {st : State} {e : Event}
    (h : ∀ s, Faithful s past (st.channelMap s)) (hfits : ∀ s, ∀ v ∈ reportedBy s e, v < 256) (s : UInt32) :
    Faithful s (past ++ [e]) ((step cfg st e).1.channelMap s) := by
  have hquiet (hnone : reportedBy s e = []) : Faithful s (past ++ [e]) (st.channelMap s) := by
    intro i hi
    rw [lastReported_concat, hnone]
    exact h s i hi
  obtain ⟨now, input⟩ := e
  cases input with
  | rtp buf lag =>
    rw [step_rtp]
    exact hquiet rfl
  | tick order => exact hquiet rfl
  | status buf =>
    simp only [step_status, processStatusPacket_eq]
    cases hssrc : packetSsrc buf with
    | none => exact hquiet (by simp [reportedBy, hssrc])
    | some ssrc =>
      by_cases hs : ssrc = s
      · subst hs
        simp only [Function.update_self]
        exact (h ssrc).status (by simp [reportedBy, hssrc]) (hfits ssrc)
      · simp only [Function.update_of_ne (Ne.symm hs)]
        exact hquiet (by simp [reportedBy, hssrc, hs])

/-- If no encoding is reported beyond a byte, and no packet is handed to a window while the
encoding stored for its channel is neither S16BE nor S16LE, every packet is decoded in the
byte order last reported for its SSRC. -/
theorem ingested_in_reported_order (cfg : Config) (es : List Event)
    (hsettled : (machine cfg).Throughout .initial es (fun _ st e => SettledEncoding cfg st e)) :
    (machine cfg).Throughout .initial es
      (fun past st e => ∀ a ∈ (step cfg st e).2, a.InReportedOrder past) := by
  refine hsettled.of_invariant (I := fun past st _ => ∀ s, Faithful s past (st.channelMap s)) ?_ ?_ ?_
  · intro s i hi
    contradiction
  · intro past st out e h he s
    exact faithful_step h he.1 s
  · rintro past st out e h he ⟨s, act⟩ ha
    cases act with
    | ingested w call =>
      obtain ⟨d, hfocus, hd⟩ := ingested_mem_step.mp ha
      obtain ⟨rtp, lag, info, -, hinfo, -, -, rfl⟩ := Channel.delivery_cases hd
      have hmap : st.channelMap s = some info := hinfo
      have hreported := h s info hmap
      obtain hbe | hle := he.2 s w _ info ⟨d, hfocus, hd⟩ hmap
      · left
        rw [hbe] at hreported
        refine ⟨?_, ?_⟩
        · simpa [ENC_S16BE] using hreported
        · rw [ingestCall, hbe]
          rfl
      · right
        rw [hle] at hreported
        refine ⟨?_, ?_⟩
        · simpa [ENC_S16LE] using hreported
        · rw [ingestCall, hle]
          rfl
    | _ => trivial

/-- The settled-encoding condition for the actions of one step, given the datagram's fields. -/
def Action.Settled (st : State) (a : Action) : Prop :=
  match a.act with
  | .ingested _ _ => (st.channelMap a.ssrc).any (fun info =>
      info.encoding = ENC_S16BE ∨ info.encoding = ENC_S16LE) = true
  | _ => True

instance (st : State) : (a : Action) → Decidable (a.Settled st)
  | ⟨_, .ingested _ _⟩ => inferInstanceAs (Decidable (_ = _))
  | ⟨_, .opened _⟩ => isTrue trivial
  | ⟨_, .sent _⟩ => isTrue trivial
  | ⟨_, .dropped _⟩ => isTrue trivial

def FitsByte (e : Event) : Prop :=
  match e.input with
  | .status buf => ∀ v ∈ encodingsIn (packetFields buf), v < 256
  | _ => True

instance : (e : Event) → Decidable (FitsByte e)
  | ⟨_, .status buf⟩ => inferInstanceAs (Decidable (∀ v ∈ encodingsIn (packetFields buf), v < 256))
  | ⟨_, .rtp _ _⟩ => isTrue trivial
  | ⟨_, .tick _⟩ => isTrue trivial

theorem settledEncoding_of_actions {cfg : Config} {st : State} {e : Event} (hfits : FitsByte e)
    (hactions : ∀ a ∈ (step cfg st e).2, a.Settled st) : SettledEncoding cfg st e := by
  refine ⟨?_, ?_⟩
  · intro s v hv
    obtain ⟨now, input⟩ := e
    cases input with
    | status buf =>
      simp only [reportedBy] at hv
      split_ifs at hv
      · exact hfits v hv
      · simp at hv
    | rtp buf lag => simp [reportedBy] at hv
    | tick order => simp [reportedBy] at hv
  · intro s w call info hdel hmap
    have h := hactions _ (ingested_mem_step.mpr hdel)
    simpa [Action.Settled, hmap] using h

/-- Little-endian audio, then a report of big-endian between two packets. -/
theorem ingested_in_reported_order_change :
    let es : List Event := [⟨0, .status [0, 18,1,9, 20,1,1, 33,8,0x40,0x59,0,0,0,0,0,0, 49,1,1, 107,1,1]⟩,
      ⟨0, .rtp (onePacket 0 0) 0⟩, ⟨1000000000, .status [0, 18,1,9, 107,1,2]⟩,
      ⟨1000000000, .rtp (onePacket 1 1) 0⟩]
    (machine shortCapture).Throughout .initial es
      (fun past st e => ∀ a ∈ (step shortCapture st e).2, a.InReportedOrder past) := by
  intro es
  have hsettled : (machine shortCapture).EveryStep (fun st e => FitsByte e ∧
      ∀ a ∈ (step shortCapture st e).2, a.Settled st) .initial es := by decide +kernel
  exact ingested_in_reported_order shortCapture es
    ((EventMachine.everyStep_iff_throughout.mp hsettled).mono
      (fun _ _ _ h => settledEncoding_of_actions h.1 h.2))

/-- A channel that is ready although no encoding was ever reported for it: its packet is
decoded as little-endian and written. -/
theorem ingested_without_encoding :
    let status : Event := ⟨0, .status [0, 18,1,9, 20,1,1, 33,8,0x40,0x59,0,0,0,0,0,0, 49,1,1]⟩
    let packet : Event := ⟨0, .rtp (onePacket 0 0) 0⟩
    ¬ (machine shortCapture).Throughout .initial [status, packet]
      (fun past st e => ∀ a ∈ (step shortCapture st e).2, a.InReportedOrder past) ∧
    lastReported 9 [status, packet] = none ∧
    (((machine shortCapture).after .initial [status, packet]).windows.lookup 9).map
      (fun w => (w.samplesWritten, w.samples.head?)) = some (1, some 0x700) := by
  intro status packet
  refine ⟨?_, by decide +kernel, by decide +kernel⟩
  intro h
  have hgiven : ∃ a ∈ (step shortCapture ((machine shortCapture).after .initial [status]) packet).2,
      a.ssrc = 9 ∧ ¬ (a.act matches .opened _ | .sent _ | .dropped _) := by decide +kernel
  have hunreported : lastReported 9 [status] = none := by decide +kernel
  obtain ⟨⟨s, act⟩, ha, rfl, hact⟩ := hgiven
  have horder := h [status] packet [] rfl _ ha
  cases act with
  | ingested w call => simp [Action.InReportedOrder, hunreported] at horder
  | _ => simp at hact

end Wsprrs.BufferTask
