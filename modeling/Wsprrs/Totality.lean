import Wsprrs.Foundation.Checked
import Wsprrs.Rtp.Format
import Wsprrs.Status.Peek

/-! The parsers of both network streams once more, with every index, slice and position sum
checked: on no datagram does a check fail, and the walks over the fields always end. -/
namespace Wsprrs
open Checked

namespace Status
open BigEndian TagLengthValue

/-- `readTlvLen` with its accesses checked. -/
def readTlvLenChecked (buf : List UInt8) (pos : ℕ) : Checked (Option (ℕ × ℕ)) :=
  if pos ≥ buf.length then .ok none
  else do
    let first ← index buf pos
    let pos ← add pos 1
    if first < 0x80 then .ok (some (first.toNat, pos))
    else
      let n := (first &&& 0x7F).toNat
      if n = 0 ∨ n > 4 then .ok none
      else do
        let last ← add pos n
        if last > buf.length then .ok none
        else do
          let bytes ← slice buf pos last
          .ok (some (bytes.foldl (fun len b => (len <<< 8) ||| b.toNat) 0, last))

/-- One round of the loop of `process_status_packet`. -/
def tlvRound (buf : List UInt8) (s : ℕ × StatusUpdate) : Checked ((ℕ × StatusUpdate) ⊕ StatusUpdate) :=
  if s.1 ≥ buf.length then .ok (.inr s.2)
  else do
    let tag ← index buf s.1
    let pos ← add s.1 1
    if tag = 0 then .ok (.inr s.2)
    else
      match ← readTlvLenChecked buf pos with
      | none => .ok (.inr s.2)
      | some (len, pos) => do
        let last ← add pos len
        if last > buf.length then .ok (.inr s.2)
        else do
          let val ← slice buf pos last
          .ok (.inl (last, s.2.record tag val))

/-- One round of the loop of `peek_ssrc`. -/
def peekRound (buf : List UInt8) (pos : ℕ) : Checked (ℕ ⊕ Option UInt32) :=
  if pos ≥ buf.length then .ok (.inr none)
  else do
    let tag ← index buf pos
    let pos ← add pos 1
    if tag = 0 then .ok (.inr none)
    else
      match ← readTlvLenChecked buf pos with
      | none => .ok (.inr none)
      | some (len, pos) => do
        let last ← add pos len
        if last > buf.length then .ok (.inr none)
        else if tag = TAG_OUTPUT_SSRC then do
          let val ← slice buf pos last
          .ok (.inr (some (decodeU32 val)))
        else .ok (.inl last)

/-- `buf.is_empty() || buf[0] != PKT_STATUS` -/
def notStatus (buf : List UInt8) : Checked Bool :=
  if buf.isEmpty then .ok true
  else do
    let kind ← index buf 0
    .ok (kind != PKT_STATUS)

/-- With as many rounds allowed as the datagram has bytes. -/
def processStatusPacketChecked (buf : List UInt8) (map : ChannelMap) :
    Checked (Option (Option UInt32 × ChannelMap)) := do
  if ← notStatus buf then .ok (some (none, map))
  else
    match ← loop (tlvRound buf) buf.length (1, {}) with
    | none => .ok none
    | some update =>
      match update.ssrc with
      | none => .ok (some (none, map))
      | some ssrc =>
        .ok (some (some ssrc, Function.update map ssrc (some (update.apply ((map ssrc).getD {})))))

def peekSsrcChecked (buf : List UInt8) : Checked (Option (Option UInt32)) := do
  if ← notStatus buf then .ok (some none) else loop (peekRound buf) buf.length 1

theorem notStatus_cons (kind : UInt8) (chain : List UInt8) :
    notStatus (kind::chain) = .ok (kind != PKT_STATUS) := rfl

/-- A length has at most four bytes. -/
theorem readTlvLen_len_lt {buf : List UInt8} {pos len pos' : ℕ}
    (h : readTlvLen buf pos = some (len, pos')) : len < 2^32 := by
  unfold readTlvLen at h
  cases hb : buf[pos]? with
  | none => simp [hb] at h
  | some first =>
    simp only [hb] at h
    split_ifs at h with hshort hbad
    · cases h
      exact lt_trans first.toNat_lt (by decide)
    · cases h
      set n := (first &&& 0x7F).toNat
      have hn : ((buf.drop (pos+1)).take n).length ≤ 4 := by
        rw [List.length_take]
        omega
      rw [foldl_shiftLeft_or]
      calc value ((buf.drop (pos+1)).take n) < 256^((buf.drop (pos+1)).take n).length := value_lt _
        _ ≤ 256^4 := Nat.pow_le_pow_right (by decide) hn
        _ = 2^32 := by decide

/-- What the first walk returns from a position with an accumulator. -/
def collectFrom (buf : List UInt8) (s : ℕ × StatusUpdate) : StatusUpdate :=
  (fields (buf.drop s.1)).foldl (fun u f => u.record f.1 f.2) s.2

section
variable {buf : List UInt8} (hbuf : buf.length < 2^63)
include hbuf

theorem readTlvLenChecked_eq (pos : ℕ) : readTlvLenChecked buf pos = .ok (readTlvLen buf pos) := by
  unfold readTlvLenChecked readTlvLen
  by_cases hpos : pos ≥ buf.length
  · rw [if_pos hpos, List.getElem?_eq_none hpos]
  have hget := List.getElem?_eq_getElem (not_le.mp hpos)
  generalize buf[pos] = first at hget
  rw [if_neg hpos, index_of_getElem? hget, hget, ok_bind, add_ok (by omega), ok_bind]
  simp only
  split_ifs with hshort hn hbad hbad
  · rfl
  · rfl
  · omega
  · rw [add_ok (by omega), ok_bind, if_pos (by omega)]
  · have hlast : pos+1+(first &&& 0x7F).toNat ≤ buf.length := by omega
    rw [add_ok (by omega), ok_bind, if_neg (not_lt.mpr hlast),
      slice_ok (Nat.le_add_right _ _) hlast, ok_bind, Nat.add_sub_cancel_left]

/-- The part the two walks share: up to the value of a field the checked reads are those of
`nextField`, and `after` is told where the value lies. -/
theorem checkedField_eq {α : Type} {stop : Checked α} {after : UInt8 → ℕ → ℕ → Checked α}
    (pos : ℕ) (next : UInt8 × List UInt8 → ℕ → Checked α)
    (hafter : ∀ tag body last, body ≤ last → last ≤ buf.length →
      after tag body last = next (tag, (buf.drop body).take (last - body)) last) :
    (if pos ≥ buf.length then stop
      else do
        let tag ← index buf pos
        let pos ← add pos 1
        if tag = 0 then stop
        else
          match ← readTlvLenChecked buf pos with
          | none => stop
          | some (len, pos) => do
            let last ← add pos len
            if last > buf.length then stop else after tag pos last) =
      match nextField buf pos with
      | none => stop
      | some (f, pos') => next f pos' := by
  unfold nextField
  by_cases hpos : pos ≥ buf.length
  · rw [if_pos hpos, List.getElem?_eq_none hpos]
  have hget := List.getElem?_eq_getElem (not_le.mp hpos)
  generalize buf[pos] = tag at hget
  rw [if_neg hpos, index_of_getElem? hget, hget, ok_bind, add_ok (by omega), ok_bind]
  by_cases htag : tag = 0
  · simp only [if_pos htag]
  simp only [if_neg htag]
  rw [readTlvLenChecked_eq hbuf, ok_bind]
  cases hr : readTlvLen buf (pos+1) with
  | none => rfl
  | some r =>
    obtain ⟨len, body⟩ := r
    have hlen := readTlvLen_len_lt hr
    have hbody := (readTlvLen_bounds hr).2
    simp only
    rw [add_ok (by omega), ok_bind]
    by_cases hover : body+len > buf.length
    · rw [if_pos hover, if_pos hover]
    · rw [if_neg hover, if_neg hover,
        hafter tag body (body+len) (Nat.le_add_right _ _) (not_lt.mp hover), Nat.add_sub_cancel_left]

/-- A round of the first walk records the next field, or stops with what it has. -/
theorem tlvRound_eq (pos : ℕ) (update : StatusUpdate) :
    tlvRound buf (pos, update) = .ok (match nextField buf pos with
      | none => .inr update
      | some (f, pos') => .inl (pos', update.record f.1 f.2)) := by
  refine (checkedField_eq hbuf pos (fun f last => .ok (.inl (last, update.record f.1 f.2))) ?_).trans ?_
  · intro tag body last hle hlast
    rw [slice_ok hle hlast, ok_bind]
  · cases nextField buf pos <;> rfl

/-- A round of the second walk stops at an SSRC as well. -/
theorem peekRound_eq (pos : ℕ) :
    peekRound buf pos = .ok (match nextField buf pos with
      | none => .inr none
      | some (f, pos') =>
        if f.1 = TAG_OUTPUT_SSRC then .inr (some (decodeU32 f.2)) else .inl pos') := by
  refine (checkedField_eq hbuf pos (fun f last => .ok (if f.1 = TAG_OUTPUT_SSRC
    then .inr (some (decodeU32 f.2)) else .inl last)) ?_).trans ?_
  · intro tag body last hle hlast
    simp only
    split_ifs
    · rw [slice_ok hle hlast, ok_bind]
    · rfl
  · cases nextField buf pos <;> rfl

/-- Every round of either walk that goes on does so further along the buffer. -/
theorem tlvRound_advances {s s' : ℕ × StatusUpdate} (h : Continues (tlvRound buf) s s') :
    s.1 < s'.1 ∧ s'.1 ≤ buf.length := by
  obtain ⟨pos, update⟩ := s
  rw [Continues, tlvRound_eq hbuf] at h
  cases hnext : nextField buf pos with
  | none => simp [hnext] at h
  | some r =>
    simp only [hnext, Except.ok.injEq, Sum.inl.injEq] at h
    subst h
    exact ⟨nextField_lt hnext, nextField_le hnext⟩

theorem peekRound_advances {pos pos' : ℕ} (h : Continues (peekRound buf) pos pos') :
    pos < pos' ∧ pos' ≤ buf.length := by
  rw [Continues, peekRound_eq hbuf] at h
  cases hnext : nextField buf pos with
  | none => simp [hnext] at h
  | some r =>
    simp only [hnext] at h
    split_ifs at h with htag
    · simp at h
    · simp only [Except.ok.injEq, Sum.inl.injEq] at h
      subst h
      exact ⟨nextField_lt hnext, nextField_le hnext⟩

/-- The first walk ends, as each round leaves one field fewer of the same fold. -/
theorem loop_tlvRound {fuel : ℕ} {s : ℕ × StatusUpdate} (hfuel : buf.length - s.1 < fuel) :
    loop (tlvRound buf) fuel s = .ok (some (collectFrom buf s)) := by
  have hround (s : ℕ × StatusUpdate) (_ : True) :
      tlvRound buf s = .ok (.inr (collectFrom buf s)) ∨ ∃ s', tlvRound buf s = .ok (.inl s') ∧
        True ∧ buf.length - s'.1 < buf.length - s.1 ∧ collectFrom buf s' = collectFrom buf s := by
    obtain ⟨pos, update⟩ := s
    have htake := takeField_drop buf pos
    rw [tlvRound_eq hbuf]
    cases hnext : nextField buf pos with
    | none =>
      rw [hnext] at htake
      left
      simp only [collectFrom, fields_of_none htake, List.foldl_nil]
    | some r =>
      obtain ⟨f, pos'⟩ := r
      have hlt := nextField_lt hnext
      have hle := nextField_le hnext
      rw [hnext] at htake
      refine Or.inr ⟨_, rfl, trivial, ?_, ?_⟩
      · simp only
        omega
      · simp only [collectFrom, fields_of_some htake, List.foldl_cons]
  exact loop_eq hround trivial hfuel

/-- The second walk ends, with the first SSRC after its position. -/
theorem loop_peekRound {fuel pos : ℕ} (hfuel : buf.length - pos < fuel) :
    loop (peekRound buf) fuel pos = .ok (some (ssrcsIn (fields (buf.drop pos))).head?) := by
  have hround (pos : ℕ) (_ : True) :
      peekRound buf pos = .ok (.inr (ssrcsIn (fields (buf.drop pos))).head?) ∨
      ∃ pos', peekRound buf pos = .ok (.inl pos') ∧ True ∧ buf.length - pos' < buf.length - pos ∧
        (ssrcsIn (fields (buf.drop pos'))).head? = (ssrcsIn (fields (buf.drop pos))).head? := by
    have htake := takeField_drop buf pos
    rw [peekRound_eq hbuf]
    cases hnext : nextField buf pos with
    | none =>
      rw [hnext] at htake
      left
      simp only [fields_of_none htake, ssrcsIn, List.filterMap_nil, List.head?_nil]
    | some r =>
      obtain ⟨f, pos'⟩ := r
      have hlt := nextField_lt hnext
      have hle := nextField_le hnext
      rw [hnext] at htake
      simp only [fields_of_some htake, ssrcsIn, List.filterMap_cons]
      by_cases htag : f.1 = TAG_OUTPUT_SSRC
      · left
        simp only [if_pos htag, List.head?_cons]
      · right
        simp only [if_neg htag]
        exact ⟨pos', rfl, trivial, by omega, rfl⟩
  exact loop_eq hround trivial hfuel

theorem processStatusPacketChecked_eq (map : ChannelMap) :
    processStatusPacketChecked buf map = .ok (some (processStatusPacket buf map)) := by
  cases buf with
  | nil => rfl
  | cons kind chain =>
    rw [processStatusPacketChecked, notStatus_cons, ok_bind, processStatusPacket_eq]
    by_cases hkind : kind = PKT_STATUS
    · have hloop : loop (tlvRound (kind::chain)) (kind::chain).length (1, {}) =
          .ok (some (collect (fields chain))) := loop_tlvRound hbuf (by simp)
      rw [if_neg (by simp [hkind]), hloop, ok_bind]
      simp only [packetSsrc, packetFields, if_pos hkind]
      cases (collect (fields chain)).ssrc <;> rfl
    · rw [if_pos (by simp [hkind]), packetSsrc, packetFields, if_neg hkind]
      rfl

theorem peekSsrcChecked_eq : peekSsrcChecked buf = .ok (some (peekSsrc buf)) := by
  cases buf with
  | nil => rfl
  | cons kind chain =>
    rw [peekSsrcChecked, notStatus_cons, ok_bind, peekSsrc_eq]
    by_cases hkind : kind = PKT_STATUS
    · have hloop : loop (peekRound (kind::chain)) (kind::chain).length 1 =
          .ok (some (ssrcsIn (fields chain)).head?) := loop_peekRound hbuf (by simp)
      rw [if_neg (by simp [hkind]), hloop, packetFields, if_pos hkind]
    · rw [if_pos (by simp [hkind]), packetFields, if_neg hkind]
      rfl

end

end Status

namespace Rtp

/-- `skipExtension` with its accesses checked. -/
def skipExtensionChecked (buf : List UInt8) (extension : Bool) (pos : ℕ) : Checked (Option ℕ) :=
  if extension then do
    let fixed ← add pos 4
    if fixed > buf.length then .ok none
    else do
      let w0 ← index buf (← add pos 2)
      let w1 ← index buf (← add pos 3)
      let extWords := (u16FromBeBytes w0 w1).toNat
      let pos ← add pos (← add 4 (extWords*4))
      .ok (some pos)
  else .ok (some pos)

def parseRtpPacketChecked (buf : List UInt8) : Checked (Except WsprError RtpPacket) :=
  if buf.length < 12 then .ok (.error (.packetTooShort buf.length))
  else do
    let b0 ← index buf 0
    let version := (b0 >>> 6) &&& 0x03
    let padding := (b0 &&& 0x20) != 0
    let extension := (b0 &&& 0x10) != 0
    let csrcCount := b0 &&& 0x0F
    if version ≠ 2 then .ok (.error (.unsupportedRtpVersion version))
    else do
      let b1 ← index buf 1
      let b2 ← index buf 2
      let b3 ← index buf 3
      let b4 ← index buf 4
      let b5 ← index buf 5
      let b6 ← index buf 6
      let b7 ← index buf 7
      let b8 ← index buf 8
      let b9 ← index buf 9
      let b10 ← index buf 10
      let b11 ← index buf 11
      let header : RtpHeader := {
        version, padding, extension, csrcCount
        marker := (b1 &&& 0x80) != 0
        payloadType := b1 &&& 0x7F
        sequence := u16FromBeBytes b2 b3
        timestamp := u32FromBeBytes b4 b5 b6 b7
        ssrc := u32FromBeBytes b8 b9 b10 b11 }
      let pos ← add 12 (csrcCount.toNat*4)
      match ← skipExtensionChecked buf extension pos with
      | none => .ok (.error (.packetTooShort buf.length))
      | some pos =>
        if pos > buf.length then .ok (.error (.packetTooShort buf.length))
        else do
          let payload ← slice buf pos buf.length
          .ok (.ok ⟨header, payload⟩)

theorem skipExtensionChecked_eq (buf : List UInt8) (extension : Bool) {pos : ℕ} (hpos : pos < 2^32) :
    skipExtensionChecked buf extension pos = .ok (skipExtension buf extension pos) := by
  cases extension with
  | false => rfl
  | true =>
    rw [skipExtensionChecked, skipExtension, if_pos rfl, if_pos rfl, add_ok (by omega), ok_bind]
    by_cases hroom : pos+4 > buf.length
    · rw [if_pos hroom, if_pos hroom]
    rw [if_neg hroom, if_neg hroom]
    have hwords := (u16FromBeBytes (buf.getD (pos+2) 0) (buf.getD (pos+3) 0)).toNat_lt
    simp only [add_ok (show pos+2 < 2^64 by omega), add_ok (show pos+3 < 2^64 by omega), ok_bind,
      index_of_lt (show pos+2 < buf.length by omega) 0,
      index_of_lt (show pos+3 < buf.length by omega) 0]
    generalize (u16FromBeBytes (buf.getD (pos+2) 0) (buf.getD (pos+3) 0)).toNat = words at hwords ⊢
    rw [add_ok (by omega), ok_bind, add_ok (by omega), ok_bind]

theorem parseRtpPacketChecked_eq {buf : List UInt8} (hbuf : buf.length < 2^63) :
    parseRtpPacketChecked buf = .ok (parseRtpPacket buf) := by
  by_cases hlen : buf.length < 12
  · rw [parseRtpPacketChecked, if_pos hlen, parseRtpPacket_short hlen]
  rw [parseRtpPacketChecked, if_neg hlen]
  obtain ⟨b0, b1, b2, b3, b4, b5, b6, b7, b8, b9, b10, b11, rest, rfl⟩ :=
    exists_header (not_lt.mp hlen)
  -- The twelve reads of the fixed header succeed by evaluation.
  simp only [index, List.getElem?_cons_zero, List.getElem?_cons_succ, ok_bind, parseRtpPacket]
  split_ifs with hv
  · rfl
  have hcount := (b0 &&& 0x0F).toNat_lt
  rw [add_ok (by omega), ok_bind, skipExtensionChecked_eq _ _ (by omega), ok_bind]
  cases skipExtension _ _ (12 + (b0 &&& 0x0F).toNat*4) with
  | none => rfl
  | some pos =>
    simp only
    split_ifs with hover
    · rfl
    · rw [slice_to_end (not_lt.mp hover), ok_bind]

end Rtp

/-- On every datagram that fits in memory the parsers end and no check of theirs fails, so
that they return what the unchecked ones do; at the head of each loop the position is within
the buffer, and a round that goes on increases it. -/
theorem parsers_total (buf : List UInt8) (hbuf : buf.length < 2^63) :
    (∀ map, Status.processStatusPacketChecked buf map =
      .ok (some (Status.processStatusPacket buf map))) ∧
    Status.peekSsrcChecked buf = .ok (some (Status.peekSsrc buf)) ∧
    Rtp.parseRtpPacketChecked buf = .ok (Rtp.parseRtpPacket buf) ∧
    (buf ≠ [] → ∀ s, Visits (Status.tlvRound buf) (1, {}) s →
      s.1 ≤ buf.length ∧ ∀ s', Continues (Status.tlvRound buf) s s' →
        s.1 < s'.1 ∧ s'.1 ≤ buf.length) ∧
    (buf ≠ [] → ∀ pos, Visits (Status.peekRound buf) 1 pos →
      pos ≤ buf.length ∧ ∀ pos', Continues (Status.peekRound buf) pos pos' →
        pos < pos' ∧ pos' ≤ buf.length) := by
  refine ⟨Status.processStatusPacketChecked_eq hbuf, Status.peekSsrcChecked_eq hbuf,
    Rtp.parseRtpPacketChecked_eq hbuf, ?_, ?_⟩
  · intro hne s hs
    have hinv : s.1 ≤ buf.length := hs.invariant
      (I := fun s => s.1 ≤ buf.length) (fun _ _ _ h => (Status.tlvRound_advances hbuf h).2)
      (List.length_pos_iff.mpr hne)
    exact ⟨hinv, fun _ h => Status.tlvRound_advances hbuf h⟩
  · intro hne pos hpos
    have hinv : pos ≤ buf.length := hpos.invariant
      (I := fun pos => pos ≤ buf.length) (fun _ _ _ h => (Status.peekRound_advances hbuf h).2)
      (List.length_pos_iff.mpr hne)
    exact ⟨hinv, fun _ h => Status.peekRound_advances hbuf h⟩

/-- A value that would end four gigabytes after the datagram. -/
theorem parsers_total_long :
    let buf : List UInt8 := [0, 18,0x84,0xFF,0xFF,0xFF,0xFF, 7]
    buf.length < 2^63 ∧ Status.peekSsrcChecked buf = .ok (some none) := by
  have h := (parsers_total [0, 18,0x84,0xFF,0xFF,0xFF,0xFF, 7] (by decide)).2.1
  refine ⟨by decide, ?_⟩
  rw [h]
  decide

end Wsprrs
