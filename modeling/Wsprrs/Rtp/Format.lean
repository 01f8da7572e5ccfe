import Wsprrs.Rtp.Packet

/-! The RTP packet format, and the proof that the parser accepts exactly it. -/
namespace Wsprrs.Rtp
open BigEndian

namespace RtpHeader

/-- The fields that fit their bits, with the one supported version. -/
structure WellFormed (h : RtpHeader) : Prop where
  version : h.version = 2
  csrcCount : h.csrcCount < 16
  payloadType : h.payloadType < 128

/-- Version, padding, extension and CSRC count in one byte. -/
def firstByte (h : RtpHeader) : UInt8 :=
  (h.version <<< 6) ||| (if h.padding then 0x20 else 0) ||| (if h.extension then 0x10 else 0) |||
    h.csrcCount

/-- Marker and payload type in one byte. -/
def secondByte (h : RtpHeader) : UInt8 := (if h.marker then 0x80 else 0) ||| h.payloadType

/-- The fixed header on the wire. -/
def encode (h : RtpHeader) : List UInt8 :=
  h.firstByte :: h.secondByte ::
    (bytes 2 h.sequence.toNat ++ (bytes 4 h.timestamp.toNat ++ bytes 4 h.ssrc.toNat))

@[simp] theorem encode_length (h : RtpHeader) : h.encode.length = 12 := by simp [encode]

end RtpHeader

/-- The extension block that the X bit announces: a two-byte profile, the number of
32-bit words, and that many words. -/
def ExtensionBlock : Bool → List UInt8 → Prop
  | false, ext => ext = []
  | true, ext => ∃ profile body words, profile.length = 2 ∧ words < 2^16 ∧
      body.length = words*4 ∧ ext = profile ++ (bytes 2 words ++ body)

/-- A datagram made of a fixed header, its CSRC words, its extension block and a payload. -/
def IsFormatted (buf : List UInt8) (p : RtpPacket) : Prop :=
  p.header.WellFormed ∧ ∃ csrcs ext, csrcs.length = p.header.csrcCount.toNat*4 ∧
    ExtensionBlock p.header.extension ext ∧ buf = p.header.encode ++ (csrcs ++ (ext ++ p.payload))

theorem bytes_u16FromBeBytes (b0 b1 : UInt8) : bytes 2 (u16FromBeBytes b0 b1).toNat = [b0,b1] := by
  have hlt := value_lt [b0,b1]
  have h := bytes_value [b0,b1]
  rw [u16FromBeBytes, UInt16.toNat_ofNat', Nat.mod_eq_of_lt (by simpa using hlt)]
  exact h

theorem bytes_u32FromBeBytes (b0 b1 b2 b3 : UInt8) :
    bytes 4 (u32FromBeBytes b0 b1 b2 b3).toNat = [b0,b1,b2,b3] := by
  have hlt := value_lt [b0,b1,b2,b3]
  have h := bytes_value [b0,b1,b2,b3]
  rw [u32FromBeBytes, UInt32.toNat_ofNat', Nat.mod_eq_of_lt (by simpa using hlt)]
  exact h

/-- The packed first byte gives every field back. -/
theorem firstByte_fields {h : RtpHeader} (hv : h.version = 2) (hc : h.csrcCount < 16) :
    (h.firstByte >>> 6) &&& 0x03 = h.version ∧ ((h.firstByte &&& 0x20) != 0) = h.padding ∧
      ((h.firstByte &&& 0x10) != 0) = h.extension ∧ h.firstByte &&& 0x0F = h.csrcCount := by
  have hall : ∀ (c : Fin 16) (p x : Bool),
      let b : UInt8 := ((2 : UInt8) <<< 6) ||| (if p then 0x20 else 0) ||| (if x then 0x10 else 0) |||
        UInt8.ofNat c
      (b >>> 6) &&& 0x03 = 2 ∧ ((b &&& 0x20) != 0) = p ∧ ((b &&& 0x10) != 0) = x ∧
        b &&& 0x0F = UInt8.ofNat c := by decide
  have h16 : h.csrcCount.toNat < 16 := by simpa [UInt8.lt_iff_toNat_lt] using hc
  simpa [RtpHeader.firstByte, hv] using hall ⟨h.csrcCount.toNat, h16⟩ h.padding h.extension

theorem secondByte_fields {h : RtpHeader} (hp : h.payloadType < 128) :
    ((h.secondByte &&& 0x80) != 0) = h.marker ∧ h.secondByte &&& 0x7F = h.payloadType := by
  have hall : ∀ (t : Fin 128) (m : Bool),
      let b : UInt8 := (if m then 0x80 else 0) ||| UInt8.ofNat t
      ((b &&& 0x80) != 0) = m ∧ b &&& 0x7F = UInt8.ofNat t := by decide +kernel
  have h128 : h.payloadType.toNat < 128 := by simpa [UInt8.lt_iff_toNat_lt] using hp
  simpa [RtpHeader.secondByte] using hall ⟨h.payloadType.toNat, h128⟩ h.marker

theorem u16FromBeBytes_of_bytes {b0 b1 : UInt8} {n : ℕ} (h : bytes 2 n = [b0,b1]) (hn : n < 2^16) :
    u16FromBeBytes b0 b1 = UInt16.ofNat n := by
  rw [u16FromBeBytes, ← h, value_bytes_of_lt (by simpa using hn)]

theorem u32FromBeBytes_of_bytes {b0 b1 b2 b3 : UInt8} {n : ℕ} (h : bytes 4 n = [b0,b1,b2,b3])
    (hn : n < 2^32) : u32FromBeBytes b0 b1 b2 b3 = UInt32.ofNat n := by
  rw [u32FromBeBytes, ← h, value_bytes_of_lt (by simpa using hn)]

/-- A skipped extension lies between the two positions and has the announced length. -/
theorem skipExtension_sound {buf : List UInt8} {x : Bool} {pos pos' : ℕ}
    (h : skipExtension buf x pos = some pos') (hpos' : pos' ≤ buf.length) :
    ∃ ext, ExtensionBlock x ext ∧ buf.drop pos = ext ++ buf.drop pos' := by
  cases x with
  | false =>
    simp only [skipExtension, Bool.false_eq_true, if_false, Option.some.injEq] at h
    exact ⟨[], rfl, by rw [h]; rfl⟩
  | true =>
    simp only [skipExtension, if_true] at h
    split_ifs at h with hshort
    have hlen : (buf.drop pos).length = buf.length - pos := List.length_drop
    obtain ⟨p0, p1, w0, w1, rest, hrest⟩ :
        ∃ p0 p1 w0 w1 rest, buf.drop pos = p0::p1::w0::w1::rest := by
      match hb : buf.drop pos, hlen with
      | p0::p1::w0::w1::rest, _ => exact ⟨p0, p1, w0, w1, rest, rfl⟩
      | [], hl | [_], hl | [_, _], hl | [_, _, _], hl =>
        simp only [List.length_cons, List.length_nil] at hl
        omega
    have hget (i : ℕ) : buf.getD (pos+i) 0 = (p0::p1::w0::w1::rest).getD i 0 := by
      rw [← hrest, List.getD_eq_getElem?_getD, List.getD_eq_getElem?_getD, List.getElem?_drop]
    rw [hget 2, hget 3] at h
    simp only [List.getD_cons_succ, List.getD_cons_zero, Option.some.injEq] at h
    have hdrop : buf.drop pos' = rest.drop ((u16FromBeBytes w0 w1).toNat*4) := by
      rw [← h, ← List.drop_drop, hrest, Nat.add_comm 4, ← List.drop_drop]
      simp
    refine ⟨[p0,p1] ++ ([w0,w1] ++ rest.take ((u16FromBeBytes w0 w1).toNat*4)), ?_, ?_⟩
    · refine ⟨[p0,p1], rest.take ((u16FromBeBytes w0 w1).toNat*4), (u16FromBeBytes w0 w1).toNat, rfl, UInt16.toNat_lt _, ?_, ?_⟩
      · have hl := congrArg List.length hrest
        simp only [List.length_drop, List.length_cons] at hl
        simp only [List.length_take]
        omega
      · rw [bytes_u16FromBeBytes]
    · rw [hrest, hdrop]
      simp

lemma skipExtension_le {buf : List UInt8} {x : Bool} {pos pos' : ℕ}
    (h : skipExtension buf x pos = some pos') : pos ≤ pos' := by
  unfold skipExtension at h
  split_ifs at h <;> cases h <;> omega

theorem skipExtension_complete {buf ext payload : List UInt8} {x : Bool} {pos : ℕ}
    (hext : ExtensionBlock x ext) (h : buf.drop pos = ext ++ payload) (hpos : pos ≤ buf.length) :
    skipExtension buf x pos = some (pos + ext.length) := by
  have hlen : buf.length = pos + ext.length + payload.length := by
    have := congrArg List.length h
    simp only [List.length_drop, List.length_append] at this
    omega
  cases x with
  | false =>
    rw [ExtensionBlock] at hext
    subst ext
    simp [skipExtension]
  | true =>
    obtain ⟨profile, body, words, hprofile, hwords, hbody, rfl⟩ := hext
    obtain ⟨p0, p1, rfl⟩ := List.length_eq_two.mp hprofile
    obtain ⟨w0, w1, hw⟩ := List.length_eq_two.mp (bytes_length 2 words)
    have hget (i : ℕ) : buf.getD (pos+i) 0 = (p0::p1::w0::w1::(body ++ payload)).getD i 0 := by
      rw [List.getD_eq_getElem?_getD, List.getD_eq_getElem?_getD, ← List.getElem?_drop, h, hw]
      rfl
    have hroom : ¬ pos+4 > buf.length := by
      simp only [hw, List.length_append, List.length_cons] at hlen
      omega
    have hcount : (UInt16.ofNat words).toNat = words := by
      rw [UInt16.toNat_ofNat', Nat.mod_eq_of_lt hwords]
    simp only [skipExtension, if_true, if_neg hroom, hget, List.getD_cons_succ,
      List.getD_cons_zero, u16FromBeBytes_of_bytes hw hwords, hcount]
    simp only [hw, List.length_append, List.length_cons, List.length_nil, hbody]
    congr 1
    omega

/-- The fixed header that the parser reads from twelve bytes. -/
def headerOf (b0 b1 b2 b3 b4 b5 b6 b7 b8 b9 b10 b11 : UInt8) : RtpHeader where
  version := (b0 >>> 6) &&& 0x03
  padding := (b0 &&& 0x20) != 0
  extension := (b0 &&& 0x10) != 0
  csrcCount := b0 &&& 0x0F
  marker := (b1 &&& 0x80) != 0
  payloadType := b1 &&& 0x7F
  sequence := u16FromBeBytes b2 b3
  timestamp := u32FromBeBytes b4 b5 b6 b7
  ssrc := u32FromBeBytes b8 b9 b10 b11

/-- The bit fields of the first two bytes put them back together. -/
theorem firstByte_headerOf (b0 b1 b2 b3 b4 b5 b6 b7 b8 b9 b10 b11 : UInt8) :
    (headerOf b0 b1 b2 b3 b4 b5 b6 b7 b8 b9 b10 b11).firstByte = b0 := by
  have h : ∀ i : Fin 256, (headerOf (UInt8.ofNat i) 0 0 0 0 0 0 0 0 0 0 0).firstByte =
      UInt8.ofNat i := by decide +kernel
  simpa [headerOf, RtpHeader.firstByte] using h ⟨b0.toNat, b0.toNat_lt⟩

theorem secondByte_headerOf (b0 b1 b2 b3 b4 b5 b6 b7 b8 b9 b10 b11 : UInt8) :
    (headerOf b0 b1 b2 b3 b4 b5 b6 b7 b8 b9 b10 b11).secondByte = b1 := by
  have h : ∀ i : Fin 256, (headerOf 0 (UInt8.ofNat i) 0 0 0 0 0 0 0 0 0 0).secondByte =
      UInt8.ofNat i := by decide +kernel
  simpa [headerOf, RtpHeader.secondByte] using h ⟨b1.toNat, b1.toNat_lt⟩

theorem encode_headerOf (b0 b1 b2 b3 b4 b5 b6 b7 b8 b9 b10 b11 : UInt8) :
    (headerOf b0 b1 b2 b3 b4 b5 b6 b7 b8 b9 b10 b11).encode =
      [b0,b1,b2,b3,b4,b5,b6,b7,b8,b9,b10,b11] := by
  rw [RtpHeader.encode, firstByte_headerOf, secondByte_headerOf]
  simp only [headerOf, bytes_u16FromBeBytes, bytes_u32FromBeBytes]
  rfl

theorem headerOf_encode {h : RtpHeader} (hwf : h.WellFormed)
    {b0 b1 b2 b3 b4 b5 b6 b7 b8 b9 b10 b11 : UInt8}
    (he : h.encode = [b0,b1,b2,b3,b4,b5,b6,b7,b8,b9,b10,b11]) :
    headerOf b0 b1 b2 b3 b4 b5 b6 b7 b8 b9 b10 b11 = h := by
  obtain ⟨hv, hp, hx, hc⟩ := firstByte_fields hwf.version hwf.csrcCount
  obtain ⟨hm, ht⟩ := secondByte_fields hwf.payloadType
  obtain ⟨s0, s1, hs⟩ := List.length_eq_two.mp (bytes_length 2 h.sequence.toNat)
  obtain ⟨t0, t1, t2, t3, hts⟩ : ∃ t0 t1 t2 t3, bytes 4 h.timestamp.toNat = [t0,t1,t2,t3] :=
    ⟨_, _, _, _, rfl⟩
  obtain ⟨r0, r1, r2, r3, hr⟩ : ∃ r0 r1 r2 r3, bytes 4 h.ssrc.toNat = [r0,r1,r2,r3] :=
    ⟨_, _, _, _, rfl⟩
  rw [RtpHeader.encode, hs, hts, hr] at he
  simp only [List.cons_append, List.nil_append, List.cons.injEq, and_true] at he
  obtain ⟨rfl, rfl, rfl, rfl, rfl, rfl, rfl, rfl, rfl, rfl, rfl, rfl⟩ := he
  have hseq := u16FromBeBytes_of_bytes hs h.sequence.toNat_lt
  have htime := u32FromBeBytes_of_bytes hts h.timestamp.toNat_lt
  have hssrc := u32FromBeBytes_of_bytes hr h.ssrc.toNat_lt
  rw [UInt16.ofNat_toNat] at hseq
  rw [UInt32.ofNat_toNat] at htime hssrc
  simp only [headerOf, hv, hp, hx, hc, hm, ht, hseq, htime, hssrc]

/-- On at least twelve bytes the parser is the version check, then the two skips. -/
theorem parseRtpPacket_cons (b0 b1 b2 b3 b4 b5 b6 b7 b8 b9 b10 b11 : UInt8) (rest : List UInt8) :
    parseRtpPacket (b0::b1::b2::b3::b4::b5::b6::b7::b8::b9::b10::b11::rest) =
      (let h := headerOf b0 b1 b2 b3 b4 b5 b6 b7 b8 b9 b10 b11
      let buf := h.encode ++ rest
      if h.version ≠ 2 then .error (.unsupportedRtpVersion h.version)
      else
        match skipExtension buf h.extension (12 + h.csrcCount.toNat*4) with
        | none => .error (.packetTooShort buf.length)
        | some pos =>
          if pos > buf.length then .error (.packetTooShort buf.length)
          else .ok ⟨h, buf.drop pos⟩) := by
  simp only [encode_headerOf]
  rfl

theorem headerOf_wellFormed (b0 b1 b2 b3 b4 b5 b6 b7 b8 b9 b10 b11 : UInt8)
    (hv : (headerOf b0 b1 b2 b3 b4 b5 b6 b7 b8 b9 b10 b11).version = 2) :
    (headerOf b0 b1 b2 b3 b4 b5 b6 b7 b8 b9 b10 b11).WellFormed := by
  have hlow : ∀ i : Fin 256, UInt8.ofNat i &&& 0x0F < 16 ∧ UInt8.ofNat i &&& 0x7F < 128 := by
    decide +kernel
  refine ⟨hv, ?_, ?_⟩
  · simpa [headerOf] using (hlow ⟨b0.toNat, b0.toNat_lt⟩).1
  · simpa [headerOf] using (hlow ⟨b1.toNat, b1.toNat_lt⟩).2

theorem parseRtpPacket_short {buf : List UInt8} (h : buf.length < 12) :
    parseRtpPacket buf = .error (.packetTooShort buf.length) := by
  unfold parseRtpPacket
  split
  · simp only [List.length_cons] at h
    omega
  · rfl

/-- A list of at least twelve bytes starts with its fixed header. -/
lemma exists_header {buf : List UInt8} (h : 12 ≤ buf.length) :
    ∃ b0 b1 b2 b3 b4 b5 b6 b7 b8 b9 b10 b11 rest,
      buf = b0::b1::b2::b3::b4::b5::b6::b7::b8::b9::b10::b11::rest := by
  match buf, h with
  | b0::b1::b2::b3::b4::b5::b6::b7::b8::b9::b10::b11::rest, _ =>
    exact ⟨b0, b1, b2, b3, b4, b5, b6, b7, b8, b9, b10, b11, rest, rfl⟩

/-- Whatever the parser accepts is well formed, and it returns the parts. -/
theorem parseRtpPacket_sound {buf : List UInt8} {p : RtpPacket} (h : parseRtpPacket buf = .ok p) :
    IsFormatted buf p := by
  by_cases hlen : buf.length < 12
  · rw [parseRtpPacket_short hlen] at h
    contradiction
  obtain ⟨b0, b1, b2, b3, b4, b5, b6, b7, b8, b9, b10, b11, rest, rfl⟩ :=
    exists_header (not_lt.mp hlen)
  have henc := encode_headerOf b0 b1 b2 b3 b4 b5 b6 b7 b8 b9 b10 b11
  have hwf := headerOf_wellFormed b0 b1 b2 b3 b4 b5 b6 b7 b8 b9 b10 b11
  rw [parseRtpPacket_cons] at h
  generalize headerOf b0 b1 b2 b3 b4 b5 b6 b7 b8 b9 b10 b11 = hd at h henc hwf
  simp only at h
  split_ifs at h with hv
  cases hskip : skipExtension (hd.encode ++ rest) hd.extension (12 + hd.csrcCount.toNat*4) with
  | none => simp [hskip] at h
  | some pos =>
    simp only [hskip] at h
    split_ifs at h with hover
    obtain rfl : p = ⟨hd, (hd.encode ++ rest).drop pos⟩ := by simpa using h.symm
    obtain ⟨ext, hext, hdrop⟩ := skipExtension_sound hskip (not_lt.mp hover)
    refine ⟨hwf (by simpa using hv), rest.take (hd.csrcCount.toNat*4), ext, ?_, hext, ?_⟩
    · have hpos := skipExtension_le hskip
      simp only [List.length_append, RtpHeader.encode_length] at hover
      simp only [List.length_take]
      omega
    · have hrest : rest.drop (hd.csrcCount.toNat*4) = ext ++ (hd.encode ++ rest).drop pos := by
        have hnil : hd.encode.drop (12 + hd.csrcCount.toNat*4) = [] :=
          List.drop_eq_nil_of_le (by rw [RtpHeader.encode_length]; omega)
        rw [← hdrop, List.drop_append, RtpHeader.encode_length, Nat.add_sub_cancel_left, hnil,
          List.nil_append]
      simp only
      rw [← hrest, List.take_append_drop, henc]
      rfl

/-- Every well-formed datagram is accepted, and taken apart as it was put together. -/
theorem parseRtpPacket_complete {buf : List UInt8} {p : RtpPacket} (h : IsFormatted buf p) :
    parseRtpPacket buf = .ok p := by
  obtain ⟨hd, payload⟩ := p
  obtain ⟨hwf, csrcs, ext, hcsrcs, hext, rfl⟩ := h
  simp only at hwf hcsrcs hext ⊢
  obtain ⟨b0, b1, b2, b3, b4, b5, b6, b7, b8, b9, b10, b11, tail, he⟩ :=
    exists_header (show 12 ≤ hd.encode.length by simp)
  obtain rfl : tail = [] := by
    have := congrArg List.length he
    simpa using this
  have hdecode := headerOf_encode hwf he
  have hdrop : (hd.encode ++ (csrcs ++ (ext ++ payload))).drop (12 + hd.csrcCount.toNat*4) =
      ext ++ payload := by
    rw [← List.drop_drop, ← hcsrcs, List.drop_append_of_le_length (by simp)]
    simp [List.drop_eq_nil_of_le]
  have hskip := skipExtension_complete hext hdrop (by simp [hcsrcs])
  have hparse := parseRtpPacket_cons b0 b1 b2 b3 b4 b5 b6 b7 b8 b9 b10 b11
    (csrcs ++ (ext ++ payload))
  rw [hdecode] at hparse
  simp only [hskip] at hparse
  rw [he]
  simp only [List.cons_append, List.nil_append]
  rw [hparse, if_neg (by simp [hwf.version]), if_neg (by simp [hcsrcs]; omega)]
  congr 2
  rw [← List.append_assoc, ← List.append_assoc]
  apply List.drop_left'
  simp [hcsrcs]
  omega

/-- The two version bits of a datagram. -/
def versionBits (buf : List UInt8) : UInt8 := (buf.getD 0 0 >>> 6) &&& 0x03

/-- A rejected datagram is reported by its version if it has a header, by its length
otherwise. -/
theorem parseRtpPacket_rejected {buf : List UInt8} (h : ∀ p, parseRtpPacket buf ≠ .ok p) :
    parseRtpPacket buf = .error (if 12 ≤ buf.length ∧ versionBits buf ≠ 2
      then .unsupportedRtpVersion (versionBits buf) else .packetTooShort buf.length) := by
  by_cases hlen : buf.length < 12
  · rw [parseRtpPacket_short hlen, if_neg (by omega)]
  obtain ⟨b0, b1, b2, b3, b4, b5, b6, b7, b8, b9, b10, b11, rest, rfl⟩ :=
    exists_header (not_lt.mp hlen)
  have henc := encode_headerOf b0 b1 b2 b3 b4 b5 b6 b7 b8 b9 b10 b11
  have hbits : versionBits (b0::b1::b2::b3::b4::b5::b6::b7::b8::b9::b10::b11::rest) =
      (headerOf b0 b1 b2 b3 b4 b5 b6 b7 b8 b9 b10 b11).version := rfl
  have hparse := parseRtpPacket_cons b0 b1 b2 b3 b4 b5 b6 b7 b8 b9 b10 b11 rest
  rw [hbits]
  generalize headerOf b0 b1 b2 b3 b4 b5 b6 b7 b8 b9 b10 b11 = hd at henc hparse ⊢
  simp only [henc] at hparse
  by_cases hv : hd.version = 2
  · rw [if_neg (by simp [hv])]
    simp only [hv, ne_eq, not_true_eq_false, if_false] at hparse
    rw [hparse]
    split
    · rfl
    · next pos hskip =>
      simp only [hskip] at hparse
      split_ifs at hparse ⊢ with hover
      · rfl
      · exact absurd hparse (h _)
  · rw [if_pos ⟨by simp, hv⟩]
    rw [hparse]
    simp only [ne_eq, hv, not_false_eq_true, if_true]

/-- The parser accepts a buffer exactly when it is a fixed header, its CSRC words, its
extension block and a payload, returning that header and payload; every other buffer is
rejected by its version bits or as too short. The padding bit plays no part. -/
theorem parseRtpPacket_accepts_format (buf : List UInt8) :
    (∀ p, parseRtpPacket buf = .ok p ↔ IsFormatted buf p) ∧
    ((∀ p, ¬ IsFormatted buf p) →
      parseRtpPacket buf = .error (if 12 ≤ buf.length ∧ versionBits buf ≠ 2
        then .unsupportedRtpVersion (versionBits buf) else .packetTooShort buf.length)) := by
  have hiff (p : RtpPacket) : parseRtpPacket buf = .ok p ↔ IsFormatted buf p :=
    ⟨parseRtpPacket_sound, parseRtpPacket_complete⟩
  refine ⟨hiff, ?_⟩
  intro h
  exact parseRtpPacket_rejected (fun p hp => h p ((hiff p).mp hp))

end Wsprrs.Rtp
