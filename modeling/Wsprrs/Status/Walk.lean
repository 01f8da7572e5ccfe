import Wsprrs.Foundation.TagLengthValue
import Wsprrs.Status.Packet

/-! The position walk of the parser reads exactly the complete fields of the chain, and
the accumulated update holds the last value of each known tag. -/
namespace Wsprrs.Status
open BigEndian TagLengthValue

theorem decodeU32_eq (val : List UInt8) : decodeU32 val = UInt32.ofNat (value val) := by
  apply UInt32.toNat_inj.mp
  rw [decodeU32, UInt64.toNat_toUInt32, toNat_foldl_uInt64, UInt32.toNat_ofNat']
  omega

theorem decodeF64_eq (val : List UInt8) : decodeF64 val = ⟨UInt64.ofNat (value val)⟩ := by
  have h : val.foldl (fun (bits : UInt64) b => (bits <<< 8) ||| b.toUInt64) 0 =
      UInt64.ofNat (value val) := by
    apply UInt64.toNat_inj.mp
    rw [toNat_foldl_uInt64, UInt64.toNat_ofNat']
  cases val with
  | nil => rfl
  | cons b bs => simp only [decodeF64, List.isEmpty_cons, h]; rfl

/-- Reading a length by position is reading it from the remaining bytes. -/
theorem takeLength_drop (buf : List UInt8) (pos : ℕ) :
    takeLength (buf.drop pos) = (readTlvLen buf pos).map (fun r => (r.1, buf.drop r.2)) := by
  by_cases hpos : pos < buf.length
  · rw [List.drop_eq_getElem_cons hpos]
    simp only [takeLength, readTlvLen, List.getElem?_eq_getElem hpos]
    split_ifs with hshort hbad hbad' hbad'
    · rfl
    · rfl
    · simp only [List.length_drop] at hbad
      omega
    · simp only [List.length_drop] at hbad
      omega
    · simp [foldl_shiftLeft_or, List.drop_drop]
  · have hnone : buf[pos]? = none := List.getElem?_eq_none (by omega)
    rw [List.drop_eq_nil_of_le (by omega)]
    simp [takeLength, readTlvLen, hnone]

theorem readTlvLen_bounds {buf : List UInt8} {pos len pos' : ℕ}
    (h : readTlvLen buf pos = some (len, pos')) : pos < pos' ∧ pos' ≤ buf.length := by
  unfold readTlvLen at h
  cases hb : buf[pos]? with
  | none => simp [hb] at h
  | some first =>
    have hpos := (List.getElem?_eq_some_iff.mp hb).1
    simp only [hb] at h
    split_ifs at h with hshort hbad
    · cases h
      omega
    · cases h
      omega

/-- The complete field at a position of the buffer, and the position after it. -/
def nextField (buf : List UInt8) (pos : ℕ) : Option ((UInt8 × List UInt8) × ℕ) :=
  match buf[pos]? with
  | none => none
  | some tag =>
    if tag = 0 then none
    else
      match readTlvLen buf (pos+1) with
      | none => none
      | some (len, pos) =>
        if pos+len > buf.length then none else some ((tag, (buf.drop pos).take len), pos+len)

/-- Reading a field by position is reading it from the remaining bytes. -/
theorem takeField_drop (buf : List UInt8) (pos : ℕ) :
    takeField (buf.drop pos) = (nextField buf pos).map (fun r => (r.1, buf.drop r.2)) := by
  by_cases hpos : pos < buf.length
  · rw [List.drop_eq_getElem_cons hpos]
    simp only [takeField, nextField, List.getElem?_eq_getElem hpos, takeLength_drop]
    split_ifs with htag
    · rfl
    cases hr : readTlvLen buf (pos+1) with
    | none => rfl
    | some r =>
      obtain ⟨len, pos'⟩ := r
      have hbound := (readTlvLen_bounds hr).2
      simp only [Option.map_some, List.length_drop, List.drop_drop]
      by_cases hover : pos' + len > buf.length
      · rw [if_pos hover, if_pos (by omega)]
        rfl
      · rw [if_neg hover, if_neg (by omega)]
        rfl
  · have hnone : buf[pos]? = none := List.getElem?_eq_none (by omega)
    rw [List.drop_eq_nil_of_le (by omega)]
    simp [takeField, nextField, hnone]

theorem nextField_lt {buf : List UInt8} {pos pos' : ℕ} {f : UInt8 × List UInt8}
    (h : nextField buf pos = some (f, pos')) : pos < pos' := by
  unfold nextField at h
  cases hb : buf[pos]? with
  | none => simp [hb] at h
  | some tag =>
    simp only [hb] at h
    split_ifs at h with htag
    cases hr : readTlvLen buf (pos+1) with
    | none => simp [hr] at h
    | some r =>
      have hlt := (readTlvLen_bounds hr).1
      simp only [hr] at h
      split_ifs at h with hover
      cases h
      omega

/-- The position after a field is still one of the buffer. -/
theorem nextField_le {buf : List UInt8} {pos pos' : ℕ} {f : UInt8 × List UInt8}
    (h : nextField buf pos = some (f, pos')) : pos' ≤ buf.length := by
  unfold nextField at h
  cases hb : buf[pos]? with
  | none => simp [hb] at h
  | some tag =>
    simp only [hb] at h
    split_ifs at h with htag
    cases hr : readTlvLen buf (pos+1) with
    | none => simp [hr] at h
    | some r =>
      simp only [hr] at h
      split_ifs at h with hover
      cases h
      exact not_lt.mp hover

/-- One round of the walk. -/
theorem tlvLoop_succ (buf : List UInt8) (fuel pos : ℕ) (update : StatusUpdate) :
    tlvLoop buf (fuel+1) pos update =
      match nextField buf pos with
      | none => update
      | some (f, pos') => tlvLoop buf fuel pos' (update.record f.1 f.2) := by
  simp only [tlvLoop, nextField]
  cases buf[pos]? with
  | none => rfl
  | some tag =>
    simp only
    split_ifs with htag
    · rfl
    cases readTlvLen buf (pos+1) with
    | none => rfl
    | some r =>
      simp only
      split_ifs <;> rfl

/-- Enough fuel makes the walk the fold over the complete fields after `pos`. -/
theorem tlvLoop_eq (buf : List UInt8) (fuel pos : ℕ) (update : StatusUpdate)
    (hfuel : buf.length ≤ pos + fuel) :
    tlvLoop buf fuel pos update =
      (fields (buf.drop pos)).foldl (fun u f => u.record f.1 f.2) update := by
  induction fuel generalizing pos update with
  | zero =>
    have hdrop : buf.drop pos = [] := List.drop_eq_nil_of_le (by omega)
    simp [tlvLoop, hdrop, fields_of_none (show takeField [] = none from rfl)]
  | succ fuel ih =>
    have htake := takeField_drop buf pos
    rw [tlvLoop_succ]
    cases hnext : nextField buf pos with
    | none =>
      rw [hnext] at htake
      simp [fields_of_none htake]
    | some r =>
      obtain ⟨f, pos'⟩ := r
      have hlt := nextField_lt hnext
      rw [hnext] at htake
      rw [fields_of_some htake, List.foldl_cons]
      exact ih pos' _ (by omega)

/-- The tags that the parser knows. -/
def statusTags : List UInt8 :=
  [TAG_OUTPUT_SSRC, TAG_OUTPUT_SAMPRATE, TAG_RADIO_FREQUENCY, TAG_OUTPUT_CHANNELS, TAG_RTP_PT,
    TAG_OUTPUT_ENCODING]

/-- What the walk accumulates over a list of fields. -/
def collect (fs : List (UInt8 × List UInt8)) : StatusUpdate :=
  fs.foldl (fun u f => u.record f.1 f.2) {}

/-- The accumulator holds the last value of each known tag. -/
theorem collect_eq (fs : List (UInt8 × List UInt8)) :
    collect fs =
      { ssrc := (lastValue TAG_OUTPUT_SSRC fs).map decodeU32
        centerFreqHz := (lastValue TAG_RADIO_FREQUENCY fs).map decodeF64
        sampleRateHz := (lastValue TAG_OUTPUT_SAMPRATE fs).map decodeU32
        channels := (lastValue TAG_OUTPUT_CHANNELS fs).map (fun v => (decodeU32 v).toUInt8)
        pt := (lastValue TAG_RTP_PT fs).map (fun v => (decodeU32 v).toUInt8)
        encoding := (lastValue TAG_OUTPUT_ENCODING fs).map (fun v => (decodeU32 v).toUInt8) } := by
  induction fs using List.reverseRecOn with
  | nil => rfl
  | append_singleton fs f ih =>
    obtain ⟨tag, val⟩ := f
    rw [collect, List.foldl_append, List.foldl_cons, List.foldl_nil, ← collect, ih]
    simp only [lastValue_concat]
    unfold StatusUpdate.record
    split_ifs <;> simp_all [TAG_OUTPUT_SSRC, TAG_RADIO_FREQUENCY, TAG_OUTPUT_SAMPRATE,
      TAG_OUTPUT_CHANNELS, TAG_RTP_PT, TAG_OUTPUT_ENCODING]

/-- The fields that a datagram contributes: none unless its type byte says STATUS. -/
def packetFields : List UInt8 → List (UInt8 × List UInt8)
  | [] => []
  | kind::chain => if kind = PKT_STATUS then fields chain else []

/-- The SSRC that a datagram is filed under, the last one in it. -/
def packetSsrc (buf : List UInt8) : Option UInt32 := (collect (packetFields buf)).ssrc

/-- The parser applies the collected update to the entry of the described SSRC. -/
theorem processStatusPacket_eq (buf : List UInt8) (map : ChannelMap) :
    processStatusPacket buf map =
      match packetSsrc buf with
      | none => (none, map)
      | some ssrc => (some ssrc, Function.update map ssrc
          (some ((collect (packetFields buf)).apply ((map ssrc).getD {})))) := by
  cases buf with
  | nil => rfl
  | cons kind chain =>
    by_cases hkind : kind = PKT_STATUS
    · have hloop := tlvLoop_eq (kind::chain) (kind::chain).length 1 {} (by omega)
      have hguard : ¬ ((kind::chain).isEmpty = true ∨ (kind::chain)[0]? ≠ some PKT_STATUS) := by
        simp [hkind]
      simp only [List.drop_succ_cons, List.drop_zero] at hloop
      simp only [processStatusPacket, packetSsrc, packetFields, if_pos hkind, collect, hloop]
      exact if_neg hguard
    · simp [processStatusPacket, packetSsrc, packetFields, hkind, collect]

theorem processStatusPacket_fst (buf : List UInt8) (map : ChannelMap) :
    (processStatusPacket buf map).1 = packetSsrc buf := by
  rw [processStatusPacket_eq]
  cases packetSsrc buf <;> rfl

end Wsprrs.Status
