import Wsprrs.Buffer.Representation
import Wsprrs.BufferTask.Model
import Wsprrs.Rtp.Format

/-! RTP padding: the parser reads the padding bit but cuts nothing off, so that the padding
bytes reach the window as samples. -/
namespace Wsprrs.BufferTask
open Rtp Status

/-- A well-formed datagram that ends in `count` bytes of padding, the last of which says so. -/
structure IsPadded (buf : List UInt8) (p : RtpPacket) (count : UInt8) : Prop where
  formatted : IsFormatted buf p
  padding : p.header.padding = true
  last : buf.getLast? = some count
  positive : 1 ≤ count.toNat
  fits : count.toNat ≤ p.payload.length

/-- The bytes after the header parts without the padding, and the padding. -/
def media (p : RtpPacket) (count : UInt8) : List UInt8 :=
  p.payload.take (p.payload.length - count.toNat)
def paddingBytes (p : RtpPacket) (count : UInt8) : List UInt8 :=
  p.payload.drop (p.payload.length - count.toNat)

/-- The packet is accepted, and what is handed to `ingest` is its media. -/
def PaddingRemoved (buf : List UInt8) (p : RtpPacket) (count : UInt8) (info : ChannelInfo)
    (now : ℤ) : Prop :=
  ∃ rtp, parseRtpPacket buf = .ok rtp ∧ (ingestCall info rtp now).payload = media p count

theorem media_append_paddingBytes (p : RtpPacket) (count : UInt8) :
    media p count ++ paddingBytes p count = p.payload := List.take_append_drop _ _

theorem paddingBytes_length {p : RtpPacket} {count : UInt8} (h : count.toNat ≤ p.payload.length) :
    (paddingBytes p count).length = count.toNat := by
  rw [paddingBytes, List.length_drop]
  omega

/-- The samples of the media come first. -/
theorem decodeChunks_append_take (decodeSample : UInt8 → UInt8 → Int16) (xs ys : List UInt8) :
    (decodeChunks decodeSample (xs ++ ys)).take (xs.length/2) = decodeChunks decodeSample xs := by
  induction xs using decodeChunks.induct with
  | case1 b0 b1 rest ih =>
    have hlen : (b0::b1::rest).length/2 = rest.length/2 + 1 := by
      simp only [List.length_cons]
      omega
    rw [hlen, List.cons_append, List.cons_append, decodeChunks, decodeChunks, List.take_succ_cons,
      ih]
  | case2 xs hshort =>
    have hlen : xs.length/2 = 0 := by
      cases xs with
      | nil => rfl
      | cons b0 rest =>
        cases rest with
        | nil => simp
        | cons b1 rest => exact absurd rfl (hshort b0 b1 rest)
    rw [hlen, List.take_zero, decodeChunks]
    exact hshort

/-- The samples taken from a padded packet are those of its media alone only where one byte
of padding completes no pair. -/
theorem samples_eq_media_iff {p : RtpPacket} {count : UInt8} (hpos : 1 ≤ count.toNat)
    (hfits : count.toNat ≤ p.payload.length) (decodeSample : UInt8 → UInt8 → Int16) :
    decodeChunks decodeSample p.payload = decodeChunks decodeSample (media p count) ↔
      count.toNat = 1 ∧ p.payload.length % 2 = 1 := by
  have hmedia : (media p count).length = p.payload.length - count.toNat := by
    rw [media, List.length_take]
    omega
  constructor
  · intro h
    have hlen := congrArg List.length h
    rw [decodeChunks_length, decodeChunks_length, hmedia] at hlen
    omega
  · rintro ⟨hone, hodd⟩
    have htake := decodeChunks_append_take decodeSample (media p count) (paddingBytes p count)
    rw [media_append_paddingBytes] at htake
    rw [← htake, List.take_of_length_le]
    rw [decodeChunks_length, hmedia]
    omega

/-- A padded packet is accepted and everything after its header parts is handed to `ingest`:
the media, and at least one byte of padding after it. So the padding is never removed. -/
theorem paddingBytes_ingested {buf : List UInt8} {p : RtpPacket} {count : UInt8}
    (h : IsPadded buf p count) (info : ChannelInfo) (now : ℤ) :
    (parseRtpPacket buf = .ok p ∧
      (ingestCall info p now).payload = media p count ++ paddingBytes p count ∧
      paddingBytes p count ≠ []) ∧
    ¬ PaddingRemoved buf p count info now := by
  have hparse := parseRtpPacket_complete h.formatted
  have hlen := paddingBytes_length h.fits
  have hpos := h.positive
  refine ⟨⟨hparse, (media_append_paddingBytes p count).symm, ?_⟩, ?_⟩
  · rw [← List.length_pos_iff, hlen]
    exact hpos
  · rintro ⟨rtp, hrtp, hpayload⟩
    rw [hparse] at hrtp
    cases hrtp
    have hsum := congrArg List.length (media_append_paddingBytes p count)
    have heq : p.payload = media p count := hpayload
    rw [List.length_append, hlen, ← heq] at hsum
    omega

/-- One sample of media, then two bytes of padding. -/
def paddedPacket : List UInt8 := [0xA0,122,0,1, 0,0,0,0, 0,0,0,9, 0,7, 0,2]

theorem paddedPacket_isPadded :
    IsPadded paddedPacket ⟨⟨2, true, false, 0, false, 122, 1, 0, 9⟩, [0,7, 0,2]⟩ 2 where
  formatted := parseRtpPacket_sound (by decide +kernel)
  padding := rfl
  last := rfl
  positive := by decide
  fits := by decide

theorem paddingBytes_ingested_packet :
    (ingestCall {} ⟨⟨2, true, false, 0, false, 122, 1, 0, 9⟩, [0,7, 0,2]⟩ 0).payload =
      [0,7] ++ [0,2] :=
  (paddingBytes_ingested paddedPacket_isPadded {} 0).1.2.1

/-- The padding is written into the window as a second sample, with the value 2. -/
theorem paddingBytes_written :
    ∃ p count, IsPadded paddedPacket p count ∧ media p count = [0,7] ∧
      (∀ info now, ¬ PaddingRemoved paddedPacket p count info now) ∧
      let window := AudioWindow.new 0 ⟨0⟩ 1 111
      let info : ChannelInfo := { encoding := ENC_S16BE }
      (window.ingest (ingestCall info p 0)).1.samples.take 3 = [7,2,0] ∧
        (window.ingest (ingestCall info p 0)).1.samplesWritten = 2 := by
  refine ⟨_, _, paddedPacket_isPadded, rfl, ?_, by decide +kernel, by decide +kernel⟩
  rintro info now ⟨rtp, hrtp, hpayload⟩
  rw [parseRtpPacket_complete paddedPacket_isPadded.formatted] at hrtp
  cases hrtp
  have hkept : ([0,7, 0,2] : List UInt8) = [0,7] := hpayload
  exact absurd hkept (by decide)

end Wsprrs.BufferTask
