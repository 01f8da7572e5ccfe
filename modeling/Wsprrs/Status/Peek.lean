import Wsprrs.Status.Walk

/-! The second walk over a status datagram, which stops at the first SSRC, and the log of
the status task, which asks it whose readiness to look up before the update. -/
namespace Wsprrs.Status
open TagLengthValue

/-- The walk of `peekSsrc`; like `tlvLoop`, it consumes a tag in every round. -/
def peekLoop (buf : List UInt8) : ℕ → ℕ → Option UInt32
  | 0, _ => none
  | fuel+1, pos =>
    match buf[pos]? with
    | none => none
    | some tag =>
      let pos := pos+1
      if tag = 0 then none
      else
        match readTlvLen buf pos with
        | none => none
        | some (len, pos) =>
          if pos+len > buf.length then none
          else if tag = TAG_OUTPUT_SSRC then some (decodeU32 ((buf.drop pos).take len))
          else peekLoop buf fuel (pos+len)

/-- Extract the SSRC of a status datagram without a map. -/
def peekSsrc (buf : List UInt8) : Option UInt32 :=
  if buf.isEmpty ∨ buf[0]? ≠ some PKT_STATUS then none else peekLoop buf buf.length 1

/-- What the status task logs about a datagram. -/
inductive StatusLog
  | ignored
  | audioChannelReady (ssrc : UInt32) (info : ChannelInfo)
  | statusUpdate (ssrc : UInt32) (info : ChannelInfo)
  deriving DecidableEq, Repr

/-- The `Ok` arm of the receive loop: a snapshot of readiness, the update, and the log. -/
def receiveStatus (buf : List UInt8) (map : ChannelMap) : ChannelMap × Option StatusLog :=
  let preReady := (peekSsrc buf).map (fun s => (map s).any ChannelInfo.isAudioReady)
  match processStatusPacket buf map with
  | (none, map) => (map, some .ignored)
  | (some ssrc, map) =>
    match map ssrc with
    | none => (map, none)
    | some info =>
      if info.isAudioReady ∧ preReady.getD false = false then
        (map, some (.audioChannelReady ssrc info))
      else (map, some (.statusUpdate ssrc info))

theorem peekLoop_succ (buf : List UInt8) (fuel pos : ℕ) :
    peekLoop buf (fuel+1) pos =
      match nextField buf pos with
      | none => none
      | some (f, pos') =>
        if f.1 = TAG_OUTPUT_SSRC then some (decodeU32 f.2) else peekLoop buf fuel pos' := by
  simp only [peekLoop, nextField]
  cases buf[pos]? with
  | none => rfl
  | some tag =>
    by_cases htag : tag = 0
    · simp only [if_pos htag]
    simp only [if_neg htag]
    cases readTlvLen buf (pos+1) with
    | none => rfl
    | some r =>
      by_cases hover : r.2 + r.1 > buf.length
      · simp only [if_pos hover]
      · simp only [if_neg hover]

/-- The SSRCs that a list of status fields carries, in order. -/
def ssrcsIn (fs : List (UInt8 × List UInt8)) : List UInt32 :=
  fs.filterMap (fun f => if f.1 = TAG_OUTPUT_SSRC then some (decodeU32 f.2) else none)

/-- The second walk finds the first SSRC of the complete fields after `pos`. -/
theorem peekLoop_eq (buf : List UInt8) (fuel pos : ℕ) (hfuel : buf.length ≤ pos + fuel) :
    peekLoop buf fuel pos = (ssrcsIn (fields (buf.drop pos))).head? := by
  induction fuel generalizing pos with
  | zero =>
    have hdrop : buf.drop pos = [] := List.drop_eq_nil_of_le (by omega)
    rw [hdrop, fields_of_none (show takeField [] = none from rfl)]
    rfl
  | succ fuel ih =>
    have htake := takeField_drop buf pos
    rw [peekLoop_succ]
    cases hnext : nextField buf pos with
    | none =>
      rw [hnext] at htake
      rw [fields_of_none htake]
      rfl
    | some r =>
      obtain ⟨f, pos'⟩ := r
      have hlt := nextField_lt hnext
      rw [hnext] at htake
      rw [fields_of_some htake, ssrcsIn, List.filterMap_cons]
      by_cases htag : f.1 = TAG_OUTPUT_SSRC
      · simp only [if_pos htag, List.head?_cons]
      · simp only [if_neg htag]
        exact ih pos' (by omega)

theorem peekSsrc_eq (buf : List UInt8) : peekSsrc buf = (ssrcsIn (packetFields buf)).head? := by
  cases buf with
  | nil => rfl
  | cons kind chain =>
    by_cases hkind : kind = PKT_STATUS
    · have hloop := peekLoop_eq (kind::chain) (kind::chain).length 1 (by omega)
      have hguard : ¬ ((kind::chain).isEmpty = true ∨ (kind::chain)[0]? ≠ some PKT_STATUS) := by
        simp [hkind]
      rw [peekSsrc, if_neg hguard, hloop, packetFields, if_pos hkind]
      rfl
    · simp [peekSsrc, packetFields, hkind, ssrcsIn]

/-- The parser, on the other hand, keeps the last one. -/
theorem packetSsrc_eq (buf : List UInt8) : packetSsrc buf = (ssrcsIn (packetFields buf)).getLast? := by
  have h := map_lastValue Prod.fst Prod.snd TAG_OUTPUT_SSRC decodeU32
    (fun f => if f.1 = TAG_OUTPUT_SSRC then some (decodeU32 f.2) else none) (packetFields buf)
    (fun f _ => rfl)
  rw [packetSsrc, collect_eq, ssrcsIn, ← h, show (packetFields buf).map (fun f => (f.1, f.2)) =
    packetFields buf from List.map_id _]

/-- The status task logs that an audio channel is ready. -/
def LogsReady (buf : List UInt8) (map : ChannelMap) : Prop :=
  ∃ ssrc info, (receiveStatus buf map).2 = some (.audioChannelReady ssrc info)

/-- The datagram takes the SSRC it updates from not ready to ready. -/
def BecomesReady (buf : List UInt8) (map : ChannelMap) : Prop :=
  ∃ ssrc, (processStatusPacket buf map).1 = some ssrc ∧
    (map ssrc).any ChannelInfo.isAudioReady = false ∧
    ((processStatusPacket buf map).2 ssrc).any ChannelInfo.isAudioReady = true

/-- Readiness is logged when the updated entry is ready and the looked-up one was not. -/
theorem logsReady_iff {buf : List UInt8} {ssrc : UInt32} (h : packetSsrc buf = some ssrc)
    (map : ChannelMap) :
    LogsReady buf map ↔
      ((processStatusPacket buf map).2 ssrc).any ChannelInfo.isAudioReady = true ∧
      (peekSsrc buf).any (fun s => (map s).any ChannelInfo.isAudioReady) = false := by
  have hpre : ((peekSsrc buf).map (fun s => (map s).any ChannelInfo.isAudioReady)).getD false =
      (peekSsrc buf).any (fun s => (map s).any ChannelInfo.isAudioReady) := by
    cases peekSsrc buf <;> rfl
  unfold LogsReady receiveStatus
  simp only [processStatusPacket_eq, h, Function.update_self, hpre, Option.any_some]
  split_ifs with hready
  · simp [hready]
  · simp [hready]

theorem becomesReady_iff {buf : List UInt8} {ssrc : UInt32} (h : packetSsrc buf = some ssrc)
    (map : ChannelMap) :
    BecomesReady buf map ↔
      ((processStatusPacket buf map).2 ssrc).any ChannelInfo.isAudioReady = true ∧
      (map ssrc).any ChannelInfo.isAudioReady = false := by
  have hfst : (processStatusPacket buf map).1 = some ssrc := by rw [processStatusPacket_fst, h]
  unfold BecomesReady
  constructor
  · rintro ⟨s, hs, hbefore, hafter⟩
    rw [hfst] at hs
    cases hs
    exact ⟨hafter, hbefore⟩
  · rintro ⟨hafter, hbefore⟩
    exact ⟨ssrc, hfst, hbefore, hafter⟩

/-- The two walks return the same SSRC for every map, with the log that follows from it,
exactly when the first and the last complete SSRC field of the datagram agree. -/
theorem peekSsrc_agrees_iff (buf : List UInt8) :
    (∀ map, peekSsrc buf = (processStatusPacket buf map).1 ∧
      (LogsReady buf map ↔ BecomesReady buf map)) ↔
    (ssrcsIn (packetFields buf)).head? = (ssrcsIn (packetFields buf)).getLast? := by
  rw [← peekSsrc_eq, ← packetSsrc_eq]
  constructor
  · intro h
    rw [(h (fun _ => none)).1, processStatusPacket_fst]
  · intro h map
    refine ⟨by rw [h, processStatusPacket_fst], ?_⟩
    cases hssrc : packetSsrc buf with
    | none =>
      have hlog : ¬ LogsReady buf map := by
        rintro ⟨ssrc, info, hlog⟩
        simp [receiveStatus, processStatusPacket_eq, hssrc] at hlog
      have hnot : ¬ BecomesReady buf map := by
        rintro ⟨ssrc, hs, -⟩
        rw [processStatusPacket_fst, hssrc] at hs
        contradiction
      exact iff_of_false hlog hnot
    | some ssrc => rw [logsReady_iff hssrc, becomesReady_iff hssrc, h, hssrc, Option.any_some]

/-- A datagram that names SSRC 9, then SSRC 7 and what makes it ready. The first walk
returns 9, which is ready already, so that the readiness of 7 is never logged. -/
theorem peekSsrc_disagrees :
    let buf : List UInt8 := [0, 18,1,9, 18,1,7, 20,1,1, 33,8,0x40,0x59,0,0,0,0,0,0, 49,1,1]
    let map : ChannelMap := fun s => if s = 9 then some ⟨0, ⟨0x4059000000000000⟩, 1, 1, 2⟩ else none
    peekSsrc buf = some 9 ∧ (processStatusPacket buf map).1 = some 7 ∧
      BecomesReady buf map ∧ ¬ LogsReady buf map := by
  intro buf map
  have hlog : (receiveStatus buf map).2 =
      some (.statusUpdate 7 ⟨0, ⟨0x4059000000000000⟩, 1, 1, 0⟩) := by decide +kernel
  refine ⟨by decide +kernel, by decide +kernel,
    ⟨7, by decide +kernel, by decide +kernel, by decide +kernel⟩, ?_⟩
  rintro ⟨ssrc, info, h⟩
  rw [hlog] at h
  cases h

end Wsprrs.Status
