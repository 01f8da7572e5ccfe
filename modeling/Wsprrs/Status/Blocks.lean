import Wsprrs.Status.Encoding
import Wsprrs.Status.Frame

/-! Datagrams that describe several channels, each in a block of its own: one accumulator
collects the fields of all blocks, and the SSRC of the last block gets them all. -/
namespace Wsprrs.Status
open TagLengthValue

/-- A later update on top of an earlier one. -/
def StatusUpdate.followedBy (u later : StatusUpdate) : StatusUpdate where
  ssrc := later.ssrc.or u.ssrc
  centerFreqHz := later.centerFreqHz.or u.centerFreqHz
  sampleRateHz := later.sampleRateHz.or u.sampleRateHz
  channels := later.channels.or u.channels
  pt := later.pt.or u.pt
  encoding := later.encoding.or u.encoding

theorem said_append (xs ys : List WireField) : said (xs ++ ys) = (said xs).followedBy (said ys) := by
  simp only [said, StatusUpdate.followedBy, latest_append, Option.map_or]

/-- The part of a datagram for one channel: its SSRC, then that channel's own fields. -/
structure Block where
  ssrc : UInt32
  zeros : ℕ
  form : LengthForm
  fits : form.Admits ((Field.outputSsrc ssrc).payload zeros).length
  own : List WireField
  noSsrc : ∀ f ∈ own, f.field.ssrc? = none

namespace Block

def sent (b : Block) : List WireField := ⟨.outputSsrc b.ssrc, b.zeros, b.form, b.fits⟩ :: b.own

theorem said_own_ssrc (b : Block) : (said b.own).ssrc = none := by
  have hnone : b.own.filterMap (fun f => f.field.ssrc?) = [] := List.filterMap_eq_nil_iff.mpr b.noSsrc
  rw [said, latest, hnone]
  rfl

/-- A block says its SSRC and what its own fields say. -/
theorem said_sent (b : Block) : said b.sent = { said b.own with ssrc := some b.ssrc } := by
  have happend : b.sent = [⟨.outputSsrc b.ssrc, b.zeros, b.form, b.fits⟩] ++ b.own := rfl
  have hhead : said [⟨.outputSsrc b.ssrc, b.zeros, b.form, b.fits⟩] = { ssrc := some b.ssrc } := rfl
  rw [happend, said_append, hhead]
  simp only [StatusUpdate.followedBy, b.said_own_ssrc, Option.or_none, Option.none_or]

end Block

/-- A datagram that describes one or more channels, each SSRC once. -/
structure BlockDatagram where
  earlier : List Block
  final : Block
  distinct : ((earlier ++ [final]).map Block.ssrc).Nodup
  tail : List UInt8
  ends : EndsChain tail

namespace BlockDatagram

def blocks (d : BlockDatagram) : List Block := d.earlier ++ [d.final]

def sent (d : BlockDatagram) : List WireField := d.blocks.flatMap Block.sent

def encode (d : BlockDatagram) : List UInt8 := encodePacket d.sent d.tail

theorem said_sent (d : BlockDatagram) :
    said d.sent =
      (said (d.earlier.flatMap Block.sent)).followedBy { said d.final.own with ssrc := some d.final.ssrc } := by
  rw [sent, blocks, List.flatMap_append, List.flatMap_singleton, said_append, d.final.said_sent]

/-- The whole datagram is taken as one update of the last SSRC. -/
theorem processStatusPacket_encode (d : BlockDatagram) (map : ChannelMap) (s : UInt32) :
    (processStatusPacket d.encode map).2 s =
      if d.final.ssrc = s then
        some (((said (d.earlier.flatMap Block.sent)).followedBy (said d.final.own)).apply ((map s).getD {}))
      else map s := by
  have hcollect : collect (packetFields d.encode) = said d.sent :=
    collect_encodePacket d.sent d.tail d.ends
  have hssrc : packetSsrc d.encode = some d.final.ssrc := by
    rw [packetSsrc, hcollect, d.said_sent]
    rfl
  rw [processStatusPacket_snd, hssrc, hcollect, d.said_sent]
  simp only [Option.some.injEq]
  rfl

/-- Each entry updated by its own block, the others left alone. -/
def attributed (d : BlockDatagram) (map : ChannelMap) : ChannelMap := fun s =>
  match d.blocks.find? (fun b => b.ssrc = s) with
  | some b => some ((said b.own).apply ((map s).getD {}))
  | none => map s

theorem attributed_of_mem (d : BlockDatagram) (map : ChannelMap) {b : Block} (hb : b ∈ d.blocks) :
    d.attributed map b.ssrc = some ((said b.own).apply ((map b.ssrc).getD {})) := by
  have hfind : d.blocks.find? (fun c => c.ssrc = b.ssrc) = some b := by
    cases h : d.blocks.find? (fun c => c.ssrc = b.ssrc) with
    | none =>
      have hne := List.find?_eq_none.mp h b hb
      simp at hne
    | some c =>
      have hssrc : c.ssrc = b.ssrc := by simpa using List.find?_some h
      rw [List.inj_on_of_nodup_map d.distinct (List.mem_of_find?_eq_some h) hb hssrc]
  rw [attributed, hfind]

theorem attributed_of_not_mem (d : BlockDatagram) (map : ChannelMap) {s : UInt32}
    (hs : ∀ b ∈ d.blocks, b.ssrc ≠ s) : d.attributed map s = map s := by
  have hfind : d.blocks.find? (fun c => c.ssrc = s) = none := by
    rw [List.find?_eq_none]
    intro b hb
    simpa using hs b hb
  rw [attributed, hfind]

end BlockDatagram

/-- A field that is overwritten later changes nothing, nor does one that repeats the value
an entry has. -/
theorem or_getD_eq_iff {α : Type} (u later : Option α) (old : α) :
    (later.or u).getD old = later.getD old ↔ (later = none → ∀ v ∈ u, v = old) := by
  cases later with
  | some v => simp
  | none => cases u <;> simp

/-- What an update says of an entry, unless a later update says otherwise, the entry holds
already. -/
structure AlreadyHeld (u later : StatusUpdate) (info : ChannelInfo) : Prop where
  centerFreqHz : later.centerFreqHz = none → ∀ v ∈ u.centerFreqHz, v = info.centerFreqHz
  sampleRateHz : later.sampleRateHz = none → ∀ v ∈ u.sampleRateHz, v = info.sampleRateHz
  channels : later.channels = none → ∀ v ∈ u.channels, v = info.channels
  pt : later.pt = none → ∀ v ∈ u.pt, v = info.pt
  encoding : later.encoding = none → ∀ v ∈ u.encoding, v = info.encoding

theorem apply_followedBy_eq_iff (u later : StatusUpdate) (info : ChannelInfo) :
    (u.followedBy later).apply info = later.apply info ↔ AlreadyHeld u later info := by
  simp only [StatusUpdate.apply, StatusUpdate.followedBy, ChannelInfo.mk.injEq, or_getD_eq_iff]
  constructor
  · rintro ⟨hpt, hfreq, hrate, hchannels, hencoding⟩
    exact ⟨hfreq, hrate, hchannels, hpt, hencoding⟩
  · rintro ⟨hfreq, hrate, hchannels, hpt, hencoding⟩
    exact ⟨hpt, hfreq, hrate, hchannels, hencoding⟩

/-- An update changes nothing exactly when the entry holds all it says. -/
theorem apply_eq_self_iff (u : StatusUpdate) (info : ChannelInfo) :
    u.apply info = info ↔ AlreadyHeld u {} info := by
  rw [← apply_followedBy_eq_iff]
  rfl

namespace BlockDatagram

/-- The earlier blocks bring nothing new: the entries of their SSRCs are there and hold what
they say, and so does the last SSRC's entry, but for the fields its own block says. -/
structure NothingNew (d : BlockDatagram) (map : ChannelMap) : Prop where
  own : ∀ b ∈ d.earlier, ∃ info, map b.ssrc = some info ∧ AlreadyHeld (said b.own) {} info
  final : AlreadyHeld (said (d.earlier.flatMap Block.sent)) (said d.final.own)
    ((map d.final.ssrc).getD {})

theorem earlier_ssrc_ne (d : BlockDatagram) {b : Block} (hb : b ∈ d.earlier) :
    d.final.ssrc ≠ b.ssrc := by
  have hdistinct := d.distinct
  rw [List.map_append, List.nodup_append] at hdistinct
  exact (hdistinct.2.2 b.ssrc (List.mem_map_of_mem hb) d.final.ssrc (by simp)).symm

theorem attributed_iff_nothingNew (d : BlockDatagram) (map : ChannelMap) :
    (processStatusPacket d.encode map).2 = d.attributed map ↔ d.NothingNew map := by
  constructor
  · intro h
    refine ⟨?_, ?_⟩
    · intro b hb
      have hs := congrFun h b.ssrc
      rw [d.processStatusPacket_encode, if_neg (d.earlier_ssrc_ne hb),
        d.attributed_of_mem map (List.mem_append_left _ hb)] at hs
      exact ⟨_, hs, (apply_eq_self_iff _ _).mp (apply_apply _ _)⟩
    · have hs := congrFun h d.final.ssrc
      rw [d.processStatusPacket_encode, if_pos rfl, d.attributed_of_mem map (by simp [blocks])] at hs
      exact (apply_followedBy_eq_iff _ _ _).mp (Option.some.inj hs)
  · rintro ⟨hown, hfinal⟩
    funext s
    rw [d.processStatusPacket_encode]
    by_cases hs : d.final.ssrc = s
    · subst hs
      rw [if_pos rfl, d.attributed_of_mem map (by simp [blocks]),
        (apply_followedBy_eq_iff _ _ _).mpr hfinal]
    rw [if_neg hs]
    by_cases hmem : ∃ b ∈ d.earlier, b.ssrc = s
    · obtain ⟨b, hb, rfl⟩ := hmem
      obtain ⟨info, hinfo, hheld⟩ := hown b hb
      rw [d.attributed_of_mem map (List.mem_append_left _ hb), hinfo, Option.getD_some,
        (apply_eq_self_iff _ _).mpr hheld]
    · rw [d.attributed_of_not_mem map]
      intro b hb hbs
      rw [blocks, List.mem_append, List.mem_singleton] at hb
      obtain hb | rfl := hb
      · exact hmem ⟨b, hb, hbs⟩
      · exact hs hbs

/-- Of a single block nothing can be attributed wrongly; an earlier block is lost on the
empty map. -/
theorem nothingNew_forall_iff (d : BlockDatagram) :
    (∀ map, d.NothingNew map) ↔ d.blocks.length = 1 := by
  simp only [blocks, List.length_append, List.length_singleton, Nat.add_eq_right,
    List.length_eq_zero_iff]
  constructor
  · intro h
    by_contra hne
    obtain ⟨b, hb⟩ := List.exists_mem_of_ne_nil _ hne
    obtain ⟨info, hinfo, -⟩ := (h (fun _ => none)).own b hb
    contradiction
  · intro hnil map
    constructor
    · rw [hnil]
      intro b hb
      contradiction
    · rw [hnil]
      constructor <;> intro _ v hv <;> cases hv

/-- Every SSRC's entry is updated by its own block alone exactly when the earlier blocks
bring nothing new; for every prior map, exactly when there are none. -/
theorem attributed_iff (d : BlockDatagram) :
    (∀ map, (processStatusPacket d.encode map).2 = d.attributed map ↔ d.NothingNew map) ∧
    ((∀ map, (processStatusPacket d.encode map).2 = d.attributed map) ↔ d.blocks.length = 1) := by
  refine ⟨d.attributed_iff_nothingNew, ?_⟩
  rw [← d.nothingNew_forall_iff]
  exact forall_congr' d.attributed_iff_nothingNew

/-- Two channels in one datagram: SSRC 9 on one frequency with mono audio, SSRC 7 with a
rate. SSRC 7 is given the frequency and the channel count of SSRC 9, which is not stored. -/
theorem attributed_fails :
    let nine : Block := ⟨9, 0, .short, by decide,
      [⟨.radioFrequency ⟨0x416AE34600000000⟩, 0, .short, by decide⟩,
        ⟨.outputChannels 1, 0, .short, by decide⟩], by decide⟩
    let seven : Block := ⟨7, 0, .short, by decide, [⟨.outputSamprate 12000, 0, .short, by decide⟩],
      by decide⟩
    let d : BlockDatagram := ⟨[nine], seven, by decide, [], Or.inl rfl⟩
    let map := (processStatusPacket d.encode (fun _ => none)).2
    map 9 = none ∧ map 7 = some ⟨0, ⟨0x416AE34600000000⟩, 12000, 1, 0⟩ ∧
      d.attributed (fun _ => none) 7 = some ⟨0, ⟨0⟩, 12000, 0, 0⟩ ∧
      map ≠ d.attributed (fun _ => none) := by
  intro nine seven d map
  have hseven : map 7 = some ⟨0, ⟨0x416AE34600000000⟩, 12000, 1, 0⟩ := by decide +kernel
  have hexpected : d.attributed (fun _ => none) 7 = some ⟨0, ⟨0⟩, 12000, 0, 0⟩ := by decide +kernel
  refine ⟨by decide +kernel, hseven, hexpected, ?_⟩
  intro h
  rw [h, hexpected] at hseven
  exact absurd hseven (by decide)

end BlockDatagram

end Wsprrs.Status
