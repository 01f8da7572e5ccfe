import Wsprrs.Status.Encoding
import Wsprrs.Status.Frame

/-! Readiness against the history of what was transmitted: datagrams whose integers may be
any 32-bit numbers, the last ones sent for each SSRC, and what of them the map stores. -/
namespace Wsprrs.Status
open TagLengthValue

/-- A status datagram of the documented format that describes one channel, or none. -/
structure Datagram where
  fields : List WireField
  single : (fields.filterMap (fun f => f.field.ssrc?)).length ≤ 1
  tail : List UInt8
  ends : EndsChain tail

namespace Datagram

def encode (d : Datagram) : List UInt8 := encodePacket d.fields d.tail

/-- All that a datagram transmits of one kind, in order. -/
def saying {α : Type} (read : Field → Option α) (d : Datagram) : List α :=
  d.fields.filterMap (fun f => read f.field)

/-- The one SSRC it describes. -/
def ssrc (d : Datagram) : Option UInt32 := (d.saying Field.ssrc?).head?

theorem packetSsrc_encode (d : Datagram) : packetSsrc d.encode = d.ssrc := by
  have hsingle : (d.saying Field.ssrc?).length ≤ 1 := d.single
  have hlast : packetSsrc d.encode = (d.saying Field.ssrc?).getLast? :=
    packetSsrc_encodePacket d.fields d.tail d.ends
  rw [hlast, ssrc]
  cases hread : d.saying Field.ssrc? with
  | nil => rfl
  | cons v rest =>
    rw [hread] at hsingle
    have hrest : rest = [] := by simpa using hsingle
    rw [hrest]
    rfl

end Datagram

/-- The map after a sequence of datagrams, from an empty one. -/
def receiveAll (ds : List Datagram) : ChannelMap :=
  ds.foldl (fun map d => (processStatusPacket d.encode map).2) (fun _ => none)

/-- All that was transmitted of one kind for `s`, in order. -/
def transmitted {α : Type} (read : Field → Option α) (s : UInt32) (ds : List Datagram) : List α :=
  ds.flatMap (fun d => if d.ssrc = some s then d.saying read else [])

def lastTransmitted {α : Type} (read : Field → Option α) (s : UInt32) (ds : List Datagram) :
    Option α := (transmitted read s ds).getLast?

theorem lastTransmitted_concat {α : Type} (read : Field → Option α) (s : UInt32)
    (ds : List Datagram) (d : Datagram) :
    lastTransmitted read s (ds ++ [d]) =
      if d.ssrc = some s then (d.saying read).getLast?.or (lastTransmitted read s ds)
      else lastTransmitted read s ds := by
  simp only [lastTransmitted, transmitted, List.flatMap_append, List.flatMap_singleton,
    List.getLast?_append]
  split_ifs <;> simp

/-- A record holds the last transmitted rate and frequency, and the last channel count
narrowed to a byte; or the zero default. -/
structure Reflects (s : UInt32) (ds : List Datagram) (info : ChannelInfo) : Prop where
  sampleRateHz : info.sampleRateHz =
    (lastTransmitted Field.sampleRate? s ds).getD 0
  centerFreqHz : info.centerFreqHz = (lastTransmitted Field.frequency? s ds).getD ⟨0⟩
  channels : info.channels =
    ((lastTransmitted Field.channels? s ds).map UInt32.toUInt8).getD 0

/-- A datagram for `s` updates the record to what it carries. -/
theorem Reflects.update {s : UInt32} {ds : List Datagram} {info : ChannelInfo}
    (h : Reflects s ds info) {d : Datagram} (hd : d.ssrc = some s) :
    Reflects s (ds ++ [d]) ((collect (packetFields d.encode)).apply info) := by
  have hgetD {α : Type} (x y : Option α) (old : α) : x.getD (y.getD old) = (x.or y).getD old := by
    cases x <;> rfl
  have hsaid : (collect (packetFields d.encode)).apply info = (said d.fields).apply info := by
    rw [Datagram.encode, collect_encodePacket d.fields d.tail d.ends]
  rw [hsaid]
  constructor
  · rw [lastTransmitted_concat, if_pos hd, ← hgetD, ← h.sampleRateHz]
    rfl
  · rw [lastTransmitted_concat, if_pos hd, ← hgetD, ← h.centerFreqHz]
    rfl
  · rw [lastTransmitted_concat, if_pos hd, Option.map_or, ← hgetD, ← h.channels]
    rfl

/-- After every sequence of datagrams, every record reflects what was transmitted. -/
theorem reflects_receiveAll (s : UInt32) (ds : List Datagram) :
    Reflects s ds ((receiveAll ds s).getD {}) := by
  induction ds using List.reverseRecOn with
  | nil => exact ⟨rfl, rfl, rfl⟩
  | append_singleton ds d ih =>
    rw [receiveAll, List.foldl_append, List.foldl_cons, List.foldl_nil, ← receiveAll,
      processStatusPacket_snd, d.packetSsrc_encode]
    by_cases hd : d.ssrc = some s
    · rw [if_pos hd]
      exact ih.update hd
    · rw [if_neg hd]
      obtain ⟨hrate, hfreq, hchannels⟩ := ih
      constructor <;> rw [lastTransmitted_concat, if_neg hd] <;> assumption

/-- Readiness of `s` means that the last channel count transmitted is one, and that the
stored rate is the last one transmitted and not zero. -/
def ReadyAsTransmitted (s : UInt32) (ds : List Datagram) : Prop :=
  (receiveAll ds s).any ChannelInfo.isAudioReady = true →
    lastTransmitted Field.channels? s ds = some 1 ∧
    ∃ rate, rate ≠ 0 ∧ lastTransmitted Field.sampleRate? s ds = some rate ∧
      (receiveAll ds s).map ChannelInfo.sampleRateHz = some rate

/-- With a rate and a positive frequency transmitted, the last channel count is not
another number that ends in the byte 1. -/
def ChannelsUnambiguous (s : UInt32) (ds : List Datagram) : Prop :=
  ∀ count rate freq, lastTransmitted Field.channels? s ds = some count →
    lastTransmitted Field.sampleRate? s ds = some rate →
    lastTransmitted Field.frequency? s ds = some freq →
    rate ≠ 0 → freq.isPositive = true → count.toNat % 256 = 1 → count = 1

theorem any_isAudioReady (info : Option ChannelInfo) :
    info.any ChannelInfo.isAudioReady = (info.getD {}).isAudioReady := by
  cases info <;> rfl

theorem toUInt8_eq_one (count : UInt32) : count.toUInt8 = 1 ↔ count.toNat % 256 = 1 := by
  rw [← UInt8.toNat_inj, UInt32.toNat_toUInt8]
  rfl

/-- What a ready record was transmitted as. -/
theorem Reflects.ready_iff {s : UInt32} {ds : List Datagram} {info : ChannelInfo}
    (h : Reflects s ds info) :
    info.isAudioReady = true ↔ ∃ count rate freq,
      lastTransmitted Field.channels? s ds = some count ∧
      lastTransmitted Field.sampleRate? s ds = some rate ∧
      lastTransmitted Field.frequency? s ds = some freq ∧
      count.toNat % 256 = 1 ∧ rate ≠ 0 ∧ freq.isPositive = true ∧ info.sampleRateHz = rate := by
  obtain ⟨hrate, hfreq, hchannels⟩ := h
  simp only [ChannelInfo.isAudioReady, Bool.and_eq_true, beq_iff_eq, decide_eq_true_eq]
  rw [hrate, hfreq, hchannels]
  constructor
  · rintro ⟨⟨hone, hpos⟩, hfpos⟩
    cases hcount : lastTransmitted Field.channels? s ds with
    | none => simp [hcount] at hone
    | some count =>
      cases hr : lastTransmitted Field.sampleRate? s ds with
      | none => simp [hr] at hpos
      | some rate =>
        cases hf : lastTransmitted Field.frequency? s ds with
        | none => simp [hf, F64.isPositive] at hfpos
        | some freq =>
          rw [hcount] at hone
          rw [hr] at hpos
          rw [hf] at hfpos
          refine ⟨count, rate, freq, rfl, rfl, rfl, (toUInt8_eq_one count).mp hone, ?_, hfpos, rfl⟩
          rintro rfl
          exact absurd hpos (by decide)
  · rintro ⟨count, rate, freq, hcount, hr, hf, hone, hpos, hfpos, -⟩
    rw [hcount, hr, hf]
    refine ⟨⟨(toUInt8_eq_one count).mpr hone, ?_⟩, hfpos⟩
    exact UInt32.pos_iff_ne_zero.mpr hpos

/-- After every sequence of datagrams, each for one channel, and for every SSRC, readiness reflects
what was transmitted exactly when the last channel count cannot be mistaken for one. -/
theorem readyAsTransmitted_iff (s : UInt32) (ds : List Datagram) :
    ReadyAsTransmitted s ds ↔ ChannelsUnambiguous s ds := by
  have hreflects := reflects_receiveAll s ds
  rw [ReadyAsTransmitted, any_isAudioReady, hreflects.ready_iff]
  constructor
  · intro h count rate freq hcount hrate hfreq hne hpos hone
    obtain ⟨hlast, -⟩ := h ⟨count, rate, freq, hcount, hrate, hfreq, hone, hne, hpos, by
      rw [hreflects.sampleRateHz, hrate]
      rfl⟩
    rw [hcount] at hlast
    exact Option.some.inj hlast
  · rintro h ⟨count, rate, freq, hcount, hrate, hfreq, hone, hne, hpos, hstored⟩
    rw [h count rate freq hcount hrate hfreq hne hpos hone] at hcount
    refine ⟨hcount, rate, hne, hrate, ?_⟩
    cases hentry : receiveAll ds s with
    | none =>
      rw [hentry] at hstored
      exact absurd hstored.symm hne
    | some info =>
      rw [hentry] at hstored
      rw [Option.map_some]
      exact congrArg some hstored

/-- A channel count of 257 is stored as 1, and the channel is ready. -/
theorem readyAsTransmitted_narrowed :
    let d : Datagram := ⟨[⟨.outputSsrc 9, 0, .short, by decide⟩,
      ⟨.outputSamprate 12000, 0, .short, by decide⟩,
      ⟨.radioFrequency ⟨0x416AE34600000000⟩, 0, .short, by decide⟩,
      ⟨.outputChannels 257, 0, .short, by decide⟩], by decide, [], Or.inl rfl⟩
    (receiveAll [d] 9).any ChannelInfo.isAudioReady = true ∧
      lastTransmitted Field.channels? 9 [d] = some 257 ∧
      ¬ ReadyAsTransmitted 9 [d] := by
  intro d
  have hready : (receiveAll [d] 9).any ChannelInfo.isAudioReady = true := by decide +kernel
  have hlast : lastTransmitted Field.channels? 9 [d] = some 257 := by
    decide +kernel
  refine ⟨hready, hlast, ?_⟩
  intro h
  have hone := (h hready).1
  rw [hlast] at hone
  exact absurd hone (by decide)

end Wsprrs.Status
