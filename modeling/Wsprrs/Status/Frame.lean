import Wsprrs.Status.Walk

/-! What a datagram can do to the channel map, however malformed it is, whether it arrives
once or twice, before or after another one, or cut off at any byte. -/
namespace Wsprrs.Status
open TagLengthValue

/-- Two records differ at most in the fields whose tags are among `tags`. -/
structure OnlyTagged (tags : List UInt8) (old new : ChannelInfo) : Prop where
  centerFreqHz : TAG_RADIO_FREQUENCY ∉ tags → new.centerFreqHz = old.centerFreqHz
  sampleRateHz : TAG_OUTPUT_SAMPRATE ∉ tags → new.sampleRateHz = old.sampleRateHz
  channels : TAG_OUTPUT_CHANNELS ∉ tags → new.channels = old.channels
  pt : TAG_RTP_PT ∉ tags → new.pt = old.pt
  encoding : TAG_OUTPUT_ENCODING ∉ tags → new.encoding = old.encoding

/-- Applying collected fields touches only what their tags name. -/
theorem onlyTagged_apply (fs : List (UInt8 × List UInt8)) (old : ChannelInfo) :
    OnlyTagged (fs.map Prod.fst) old ((collect fs).apply old) := by
  rw [collect_eq]
  constructor <;> intro h <;> simp only [StatusUpdate.apply, lastValue_eq_none h] <;> rfl

theorem apply_apply (update : StatusUpdate) (info : ChannelInfo) :
    update.apply (update.apply info) = update.apply info := by
  obtain ⟨ssrc, freq, rate, channels, pt, encoding⟩ := update
  cases freq <;> cases rate <;> cases channels <;> cases pt <;> cases encoding <;> rfl

/-- The map after a datagram, entry by entry. -/
theorem processStatusPacket_snd (buf : List UInt8) (map : ChannelMap) (s : UInt32) :
    (processStatusPacket buf map).2 s =
      if packetSsrc buf = some s then some ((collect (packetFields buf)).apply ((map s).getD {}))
      else map s := by
  rw [processStatusPacket_eq]
  cases h : packetSsrc buf with
  | none => rw [if_neg (by simp)]
  | some ssrc =>
    simp only
    by_cases hs : ssrc = s
    · subst hs
      rw [if_pos rfl, Function.update_self]
    · rw [if_neg (by simpa using hs), Function.update_of_ne (Ne.symm hs)]

theorem processStatusPacket_idempotent (buf : List UInt8) (map : ChannelMap) :
    (processStatusPacket buf (processStatusPacket buf map).2).2 = (processStatusPacket buf map).2 := by
  funext s
  rw [processStatusPacket_snd, processStatusPacket_snd]
  split_ifs with h
  · rw [Option.getD_some, apply_apply]
  · rfl

/-- Datagrams for different SSRCs, or for none, commute. -/
theorem processStatusPacket_comm {buf buf' : List UInt8}
    (h : packetSsrc buf = none ∨ packetSsrc buf' = none ∨ packetSsrc buf ≠ packetSsrc buf')
    (map : ChannelMap) :
    (processStatusPacket buf' (processStatusPacket buf map).2).2 =
      (processStatusPacket buf (processStatusPacket buf' map).2).2 := by
  funext s
  simp only [processStatusPacket_snd]
  by_cases h1 : packetSsrc buf = some s
  · have h2 : packetSsrc buf' ≠ some s := by
      intro h2
      simp [h1, h2] at h
    simp only [if_pos h1, if_neg h2]
  · simp only [if_neg h1]

/-- Any datagram changes nothing and returns nothing, or changes one entry, and in it only
fields that it carries completely before its first malformed or end point. A repeated
datagram has no further effect, and two that return different SSRCs commute. -/
theorem processStatusPacket_frame :
    (∀ buf map, processStatusPacket buf map = (none, map) ∨
      ∃ s new, (processStatusPacket buf map).1 = some s ∧
        (∀ k, k ≠ s → (processStatusPacket buf map).2 k = map k) ∧
        (processStatusPacket buf map).2 s = some new ∧
        OnlyTagged ((packetFields buf).map Prod.fst) ((map s).getD {}) new) ∧
    (∀ buf map, (processStatusPacket buf (processStatusPacket buf map).2).2 =
      (processStatusPacket buf map).2) ∧
    (∀ buf buf' map, ((processStatusPacket buf map).1 = none ∨ (processStatusPacket buf' map).1 = none ∨
        (processStatusPacket buf map).1 ≠ (processStatusPacket buf' map).1) →
      (processStatusPacket buf' (processStatusPacket buf map).2).2 =
        (processStatusPacket buf (processStatusPacket buf' map).2).2) := by
  refine ⟨?_, processStatusPacket_idempotent, ?_⟩
  · intro buf map
    cases h : packetSsrc buf with
    | none =>
      left
      rw [processStatusPacket_eq, h]
    | some s =>
      right
      refine ⟨s, _, by rw [processStatusPacket_fst, h], ?_, ?_, onlyTagged_apply _ _⟩
      · intro k hk
        rw [processStatusPacket_snd, if_neg (by rw [h]; simpa using hk.symm)]
      · rw [processStatusPacket_snd, if_pos h]
  · intro buf buf' map h
    simp only [processStatusPacket_fst] at h
    exact processStatusPacket_comm h map

/-- A datagram for SSRC 9 with a malformed tail, and one for SSRC 7, in either order. -/
theorem processStatusPacket_frame_malformed :
    let buf : List UInt8 := [0, 18,1,9, 20,2,0x2e,0xe0, 33,0x85,1]
    let buf' : List UInt8 := [0, 49,1,1, 18,1,7, 0, 20,1,1]
    (processStatusPacket buf' (processStatusPacket buf (fun _ => none)).2).2 =
      (processStatusPacket buf (processStatusPacket buf' (fun _ => none)).2).2 := by
  intro buf buf'
  exact processStatusPacket_frame.2.2 buf buf' (fun _ => none)
    (Or.inr (Or.inr (by decide +kernel)))

/-- What one update sets, another sets to the same value. -/
structure StatusUpdate.Within (u v : StatusUpdate) : Prop where
  ssrc : ∀ x, u.ssrc = some x → v.ssrc = some x
  centerFreqHz : ∀ x, u.centerFreqHz = some x → v.centerFreqHz = some x
  sampleRateHz : ∀ x, u.sampleRateHz = some x → v.sampleRateHz = some x
  channels : ∀ x, u.channels = some x → v.channels = some x
  pt : ∀ x, u.pt = some x → v.pt = some x
  encoding : ∀ x, u.encoding = some x → v.encoding = some x

namespace StatusUpdate.Within
variable {u v : StatusUpdate}

/-- A part of an update that has been applied adds nothing. -/
theorem apply_apply (h : u.Within v) (info : ChannelInfo) : u.apply (v.apply info) = v.apply info := by
  have hgetD {α : Type} (x y : Option α) (old : α) (hxy : ∀ a, x = some a → y = some a) :
      x.getD (y.getD old) = y.getD old := by
    cases x with
    | none => rfl
    | some a => rw [hxy a rfl, Option.getD_some, Option.getD_some]
  simp only [StatusUpdate.apply, hgetD _ _ _ h.centerFreqHz, hgetD _ _ _ h.sampleRateHz,
    hgetD _ _ _ h.channels, hgetD _ _ _ h.pt, hgetD _ _ _ h.encoding]

end StatusUpdate.Within

/-- Each field of `part` is as in `old`, or as in `whole`. -/
structure PartOf (old part whole : ChannelInfo) : Prop where
  centerFreqHz : part.centerFreqHz = old.centerFreqHz ∨ part.centerFreqHz = whole.centerFreqHz
  sampleRateHz : part.sampleRateHz = old.sampleRateHz ∨ part.sampleRateHz = whole.sampleRateHz
  channels : part.channels = old.channels ∨ part.channels = whole.channels
  pt : part.pt = old.pt ∨ part.pt = whole.pt
  encoding : part.encoding = old.encoding ∨ part.encoding = whole.encoding

theorem StatusUpdate.Within.partOf {u v : StatusUpdate} (h : u.Within v) (old : ChannelInfo) :
    PartOf old (u.apply old) (v.apply old) := by
  have hgetD {α : Type} (x y : Option α) (a : α) (hxy : ∀ b, x = some b → y = some b) :
      x.getD a = a ∨ x.getD a = y.getD a := by
    cases x with
    | none => exact .inl rfl
    | some b => exact .inr (by rw [hxy b rfl])
  exact ⟨hgetD _ _ _ h.centerFreqHz, hgetD _ _ _ h.sampleRateHz, hgetD _ _ _ h.channels,
    hgetD _ _ _ h.pt, hgetD _ _ _ h.encoding⟩

/-- No tag that the parser knows occurs twice among the complete fields. -/
def TagsOnce (fs : List (UInt8 × List UInt8)) : Prop :=
  ∀ tag ∈ statusTags, (fs.map Prod.fst).count tag ≤ 1

instance (fs : List (UInt8 × List UInt8)) : Decidable (TagsOnce fs) :=
  List.decidableBAll (fun tag => (fs.map Prod.fst).count tag ≤ 1) statusTags

theorem packetFields_mono {p buf : List UInt8} (h : p <+: buf) :
    packetFields p <+: packetFields buf := by
  obtain ⟨rest, rfl⟩ := h
  cases p with
  | nil => exact List.nil_prefix
  | cons kind chain =>
    simp only [List.cons_append, packetFields]
    split_ifs
    · exact fields_mono (List.prefix_append chain rest)
    · exact List.nil_prefix

/-- The first of some fields are within all of them if no known tag is repeated. -/
theorem collect_within {fs gs : List (UInt8 × List UInt8)} (hpre : fs <+: gs) (honce : TagsOnce gs) :
    (collect fs).Within (collect gs) := by
  have hmono {α : Type} (tag : UInt8) (htag : tag ∈ statusTags) (decode : List UInt8 → α) (x : α)
      (hx : (lastValue tag fs).map decode = some x) : (lastValue tag gs).map decode = some x := by
    obtain ⟨v, hv, rfl⟩ := Option.map_eq_some_iff.mp hx
    rw [lastValue_mono hpre (honce tag htag) hv, Option.map_some]
  rw [collect_eq, collect_eq]
  constructor
  · exact hmono _ (by simp [statusTags]) _
  · exact hmono _ (by simp [statusTags]) _
  · exact hmono _ (by simp [statusTags]) _
  · exact hmono _ (by simp [statusTags]) _
  · exact hmono _ (by simp [statusTags]) _
  · exact hmono _ (by simp [statusTags]) _

/-- If a datagram repeats no known tag and a cut-off part of it is accepted, the whole is
accepted for the same SSRC and sets every field that the part sets to the same value, in the
update and in the entry; no other entry is changed, and the part adds nothing to a map that has
seen the whole. -/
theorem processStatusPacket_truncated (buf p : List UInt8) (s : UInt32) (map : ChannelMap)
    (hpre : p <+: buf) (honce : TagsOnce (packetFields buf))
    (hp : (processStatusPacket p map).1 = some s) :
    (processStatusPacket buf map).1 = some s ∧
    (collect (packetFields p)).Within (collect (packetFields buf)) ∧
    (∀ k, k ≠ s → (processStatusPacket p map).2 k = map k ∧ (processStatusPacket buf map).2 k = map k) ∧
    (∃ part whole, (processStatusPacket p map).2 s = some part ∧
      (processStatusPacket buf map).2 s = some whole ∧ PartOf ((map s).getD {}) part whole) ∧
    (processStatusPacket p (processStatusPacket buf map).2).2 = (processStatusPacket buf map).2 := by
  have hwithin := collect_within (packetFields_mono hpre) honce
  rw [processStatusPacket_fst] at hp
  have hbuf : packetSsrc buf = some s := hwithin.ssrc s hp
  refine ⟨by rw [processStatusPacket_fst, hbuf], hwithin, ?_, ?_, ?_⟩
  · intro k hk
    simp [processStatusPacket_snd, hp, hbuf, hk.symm]
  · exact ⟨_, _, by rw [processStatusPacket_snd, if_pos hp], by rw [processStatusPacket_snd, if_pos hbuf],
      hwithin.partOf _⟩
  · funext k
    simp only [processStatusPacket_snd, hp, hbuf]
    split_ifs
    · rw [Option.getD_some, hwithin.apply_apply]
    · rfl

/-- A datagram cut inside a long-form length, after its rate and its SSRC. -/
theorem processStatusPacket_truncated_length :
    let buf : List UInt8 := [0, 20,2,0x2e,0xe0, 18,1,9, 33,0x82,0,8,0x40,0x59,0,0,0,0,0,0, 49,1,1]
    (processStatusPacket buf (fun _ => none)).1 = some 9 ∧
    (collect (packetFields (buf.take 11))).Within (collect (packetFields buf)) ∧
    ∃ part whole, (processStatusPacket (buf.take 11) (fun _ => none)).2 9 = some part ∧
      (processStatusPacket buf (fun _ => none)).2 9 = some whole ∧ PartOf {} part whole := by
  intro buf
  have honce : TagsOnce (packetFields buf) := by decide +kernel
  obtain ⟨hssrc, hwithin, -, hentries, -⟩ := processStatusPacket_truncated buf (buf.take 11) 9
    (fun _ => none) (List.take_prefix 11 buf) honce (by decide +kernel)
  exact ⟨hssrc, hwithin, hentries⟩

end Wsprrs.Status
