import Wsprrs.Status.Encoding

/-! The parser undoes the encoder. -/
namespace Wsprrs.Status
open TagLengthValue

/-- What a list of fields makes of a channel's record: the latest values where given,
the old ones elsewhere. A channel count, payload type or encoding has one byte. -/
def described (fs : List WireField) (old : ChannelInfo) : ChannelInfo where
  pt := ((latest Field.pt? fs).map UInt32.toUInt8).getD old.pt
  centerFreqHz := (latest Field.frequency? fs).getD old.centerFreqHz
  sampleRateHz := (latest Field.sampleRate? fs).getD old.sampleRateHz
  channels := ((latest Field.channels? fs).map UInt32.toUInt8).getD old.channels
  encoding := ((latest Field.encoding? fs).map UInt32.toUInt8).getD old.encoding

/-- The byte has the value of the latest field where this is below 256. -/
def HoldsByte (latest : Option UInt32) (stored : UInt8) : Prop :=
  ∀ v, latest = some v → v.toNat < 256 → stored.toNat = v.toNat

theorem holdsByte_narrowed (latest : Option UInt32) (old : UInt8) :
    HoldsByte latest ((latest.map UInt32.toUInt8).getD old) := by
  rintro v rfl hlt
  rw [Option.map_some, Option.getD_some, UInt32.toNat_toUInt8, Nat.mod_eq_of_lt hlt]

/-- Parsing an encoded datagram returns its SSRC and changes that entry alone, to the
latest encoded values over what the entry held before; these are exact, a channel count, payload
type or encoding if it is below 256. -/
theorem processStatusPacket_encodePacket (map : ChannelMap) (fs : List WireField)
    (ssrc : UInt32) (tail : List UInt8)
    (hssrc : fs.filterMap (fun f => f.field.ssrc?) = [ssrc]) (htail : EndsChain tail) :
    let info := described fs ((map ssrc).getD {})
    processStatusPacket (encodePacket fs tail) map = (some ssrc, Function.update map ssrc (some info)) ∧
      HoldsByte (latest Field.channels? fs) info.channels ∧
      HoldsByte (latest Field.pt? fs) info.pt ∧
      HoldsByte (latest Field.encoding? fs) info.encoding := by
  intro info
  refine ⟨?_, holdsByte_narrowed _ _, holdsByte_narrowed _ _, holdsByte_narrowed _ _⟩
  have hlatest : latest Field.ssrc? fs = some ssrc := by rw [latest, hssrc]; rfl
  rw [processStatusPacket_eq, packetSsrc_encodePacket fs tail htail, hlatest,
    collect_encodePacket fs tail htail]
  rfl

/-- A repeated tag in a long form, an unknown tag between, and bytes after the end tag. -/
theorem processStatusPacket_encodePacket_repeated :
    let fs : List WireField := [
      ⟨.outputSamprate 8000, 1, .long 4, by decide⟩,
      ⟨.other 200 [18,1,9] (by decide), 0, .short, by decide⟩,
      ⟨.outputSsrc 77, 0, .short, by decide⟩,
      ⟨.outputSamprate 12000, 0, .long 2, by decide⟩,
      ⟨.outputChannels 2, 3, .short, by decide⟩]
    processStatusPacket (encodePacket fs [0,7]) (fun _ => none) =
      (some 77, Function.update (fun _ => none) 77 (some (described fs {}))) ∧
    (described fs {}).channels.toNat = 2 := by
  intro fs
  obtain ⟨hparse, hchannels, -⟩ :=
    processStatusPacket_encodePacket (fun _ => none) fs 77 [0,7] (by rfl) (Or.inr ⟨[7], rfl⟩)
  exact ⟨hparse, hchannels 2 rfl (by decide)⟩

end Wsprrs.Status
