import Wsprrs.Status.Walk

/-! The documented datagram format as an encoder, with every freedom it leaves a sender, and
what the parser collects from an encoded datagram. -/
namespace Wsprrs.Status
open BigEndian TagLengthValue

/-- What one field of a datagram says. A field with an unknown tag carries any bytes. -/
inductive Field
  | outputSsrc (v : UInt32)
  | outputSamprate (v : UInt32)
  | radioFrequency (v : F64)
  | outputChannels (v : UInt32)
  | rtpPt (v : UInt32)
  | outputEncoding (v : UInt32)
  | other (tag : UInt8) (val : List UInt8) (unknown : tag ≠ 0 ∧ tag ∉ statusTags)

namespace Field

def tag : Field → UInt8
  | outputSsrc _ => TAG_OUTPUT_SSRC
  | outputSamprate _ => TAG_OUTPUT_SAMPRATE
  | radioFrequency _ => TAG_RADIO_FREQUENCY
  | outputChannels _ => TAG_OUTPUT_CHANNELS
  | rtpPt _ => TAG_RTP_PT
  | outputEncoding _ => TAG_OUTPUT_ENCODING
  | other tag _ _ => tag

/-- An integer with its leading zero bytes suppressed and `zeros` of them put back. -/
def padded (zeros width n : ℕ) : List UInt8 := List.replicate zeros 0 ++ suppress (bytes width n)

/-- The value bytes of a field. -/
def payload (zeros : ℕ) : Field → List UInt8
  | outputSsrc v => padded zeros 4 v.toNat
  | outputSamprate v => padded zeros 4 v.toNat
  | radioFrequency v => padded zeros 8 v.bits.toNat
  | outputChannels v => padded zeros 4 v.toNat
  | rtpPt v => padded zeros 4 v.toNat
  | outputEncoding v => padded zeros 4 v.toNat
  | other _ val _ => val

def ssrc? : Field → Option UInt32
  | outputSsrc v => some v
  | _ => none

def sampleRate? : Field → Option UInt32
  | outputSamprate v => some v
  | _ => none

def frequency? : Field → Option F64
  | radioFrequency v => some v
  | _ => none

def channels? : Field → Option UInt32
  | outputChannels v => some v
  | _ => none

def pt? : Field → Option UInt32
  | rtpPt v => some v
  | _ => none

def encoding? : Field → Option UInt32
  | outputEncoding v => some v
  | _ => none

theorem value_padded {zeros width n : ℕ} (h : n < 256^width) :
    value (padded zeros width n) = n := by
  rw [padded, value_zeros_append, value_suppress, value_bytes_of_lt h]

@[simp] theorem decodeU32_padded (zeros : ℕ) (v : UInt32) :
    decodeU32 (padded zeros 4 v.toNat) = v := by
  rw [decodeU32_eq, value_padded (by simpa using v.toNat_lt), UInt32.ofNat_toNat]

@[simp] theorem decodeF64_padded (zeros : ℕ) (v : F64) :
    decodeF64 (padded zeros 8 v.bits.toNat) = v := by
  rw [decodeF64_eq, value_padded (by simpa using v.bits.toNat_lt), UInt64.ofNat_toNat]

theorem tag_ne_zero (f : Field) : f.tag ≠ 0 := by
  cases f with
  | other tag val unknown => exact unknown.1
  | _ => simp [tag, TAG_OUTPUT_SSRC, TAG_OUTPUT_SAMPRATE, TAG_RADIO_FREQUENCY,
      TAG_OUTPUT_CHANNELS, TAG_RTP_PT, TAG_OUTPUT_ENCODING]

/-- Each reader is the parser's own decoding of the fields that carry its tag. -/
theorem readers_eq (zeros : ℕ) (f : Field) :
    (f.ssrc? = if f.tag = TAG_OUTPUT_SSRC then some (decodeU32 (f.payload zeros)) else none) ∧
    (f.frequency? = if f.tag = TAG_RADIO_FREQUENCY then some (decodeF64 (f.payload zeros)) else none) ∧
    (f.sampleRate? = if f.tag = TAG_OUTPUT_SAMPRATE then some (decodeU32 (f.payload zeros)) else none) ∧
    (f.channels? = if f.tag = TAG_OUTPUT_CHANNELS then some (decodeU32 (f.payload zeros)) else none) ∧
    (f.pt? = if f.tag = TAG_RTP_PT then some (decodeU32 (f.payload zeros)) else none) ∧
    (f.encoding? = if f.tag = TAG_OUTPUT_ENCODING then some (decodeU32 (f.payload zeros)) else none) := by
  cases f with
  | other tag val unknown =>
    have h {α : Type} (t : UInt8) (ht : t ∈ statusTags) (decode : List UInt8 → α) :
        (none : Option α) = if tag = t then some (decode val) else none := by
      rw [if_neg]
      rintro rfl
      exact unknown.2 ht
    exact ⟨h _ (by decide) decodeU32, h _ (by decide) decodeF64, h _ (by decide) decodeU32,
      h _ (by decide) decodeU32, h _ (by decide) decodeU32, h _ (by decide) decodeU32⟩
  | _ => simp [ssrc?, frequency?, sampleRate?, channels?, pt?, encoding?, tag, payload,
      TAG_OUTPUT_SSRC, TAG_OUTPUT_SAMPRATE, TAG_RADIO_FREQUENCY, TAG_OUTPUT_CHANNELS,
      TAG_RTP_PT, TAG_OUTPUT_ENCODING]

end Field

/-- A field together with a sender's choices: how many leading zero bytes to keep and how
to write the length. -/
structure WireField where
  field : Field
  zeros : ℕ
  form : LengthForm
  fits : form.Admits (field.payload zeros).length

namespace WireField

def tag (f : WireField) : UInt8 := f.field.tag
def payload (f : WireField) : List UInt8 := f.field.payload f.zeros
def encode (f : WireField) : List UInt8 := encodeField f.form f.tag f.payload

end WireField

/-- A status datagram: the type byte, the fields, and the end of the chain. -/
def encodePacket (fs : List WireField) (tail : List UInt8) : List UInt8 :=
  PKT_STATUS :: (fs.flatMap WireField.encode ++ tail)

/-- The last value that a list of fields gives for one kind of information. -/
def latest {α : Type} (read : Field → Option α) (fs : List WireField) : Option α :=
  (fs.filterMap (fun f => read f.field)).getLast?

theorem latest_append {α : Type} (read : Field → Option α) (xs ys : List WireField) :
    latest read (xs ++ ys) = (latest read ys).or (latest read xs) := by
  rw [latest, List.filterMap_append, List.getLast?_append]
  rfl

/-- The update that a list of fields stands for: the latest values, the last three cut down to
a byte. -/
def said (fs : List WireField) : StatusUpdate where
  ssrc := latest Field.ssrc? fs
  centerFreqHz := latest Field.frequency? fs
  sampleRateHz := latest Field.sampleRate? fs
  channels := (latest Field.channels? fs).map UInt32.toUInt8
  pt := (latest Field.pt? fs).map UInt32.toUInt8
  encoding := (latest Field.encoding? fs).map UInt32.toUInt8

theorem packetFields_encodePacket (fs : List WireField) (tail : List UInt8)
    (htail : EndsChain tail) :
    packetFields (encodePacket fs tail) = fs.map (fun f => (f.tag, f.payload)) :=
  fields_flatMap WireField.form WireField.tag WireField.payload fs tail
    (fun f _ => f.field.tag_ne_zero) (fun f _ => f.fits) htail

/-- What the walk collects from an encoded datagram is what was said in it. -/
theorem collect_encodePacket (fs : List WireField) (tail : List UInt8) (htail : EndsChain tail) :
    collect (packetFields (encodePacket fs tail)) = said fs := by
  have hbyte (t : UInt8) (read : Field → Option UInt32) (hread : ∀ f : WireField,
      read f.field = if f.tag = t then some (decodeU32 f.payload) else none) :
      (lastValue t (fs.map (fun f => (f.tag, f.payload)))).map (fun v => (decodeU32 v).toUInt8) =
        (latest read fs).map UInt32.toUInt8 := by
    rw [latest, ← map_lastValue _ _ _ _ _ fs (fun f _ => hread f), Option.map_map]
    rfl
  rw [packetFields_encodePacket fs tail htail, collect_eq]
  simp only [said, StatusUpdate.mk.injEq]
  refine ⟨?_, ?_, ?_, ?_, ?_, ?_⟩
  · exact map_lastValue _ _ _ _ _ fs (fun f _ => (f.field.readers_eq f.zeros).1)
  · exact map_lastValue _ _ _ _ _ fs (fun f _ => (f.field.readers_eq f.zeros).2.1)
  · exact map_lastValue _ _ _ _ _ fs (fun f _ => (f.field.readers_eq f.zeros).2.2.1)
  · exact hbyte _ _ (fun f => (f.field.readers_eq f.zeros).2.2.2.1)
  · exact hbyte _ _ (fun f => (f.field.readers_eq f.zeros).2.2.2.2.1)
  · exact hbyte _ _ (fun f => (f.field.readers_eq f.zeros).2.2.2.2.2)

theorem packetSsrc_encodePacket (fs : List WireField) (tail : List UInt8) (htail : EndsChain tail) :
    packetSsrc (encodePacket fs tail) = latest Field.ssrc? fs := by
  rw [packetSsrc, collect_encodePacket fs tail htail]
  rfl

end Wsprrs.Status
