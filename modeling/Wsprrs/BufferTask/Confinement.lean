import Wsprrs.BufferTask.Cycle

/-! Which capture durations keep the audio of one cycle out of the window of another, when
a tick is processed in every second. -/
namespace Wsprrs.BufferTask
open Rtp Status

/-- A tick is processed in every half-open second that lies within the run. -/
def Ticked (es : List Event) : Prop :=
  ∀ t : ℤ, (∃ e ∈ es, e.now ≤ t) → (∃ e ∈ es, t + 1000000000 ≤ e.now) →
    ∃ e ∈ es, (∃ order, e.input = .tick order) ∧ t ≤ e.now ∧ e.now < t + 1000000000

/-- The two minutes that begin with `start` contain `now`. -/
def InCycle (start now : ℤ) : Prop :=
  start ≤ now ∧ now < start + 120*1000000000 ∧ evenMinuteBoundary now = start

/-- Samples written at time `now` go into the window of the cycle of `now`. -/
def Action.InCycle (now : ℤ) (a : Action) : Prop :=
  match a.act with
  | .ingested w call => w.Stores call → BufferTask.InCycle w.windowStart now
  | _ => True

/-- What the ticks so far guarantee about an open window. -/
structure Confined (captureSeconds : UInt32) (past : List ChannelEvent) (w : AudioWindow) : Prop where
  opened : ∃ e ∈ past, w.windowStart = evenMinuteBoundary e.now ∧ w.windowStart ≤ e.now ∧
    e.now < w.windowStart + 1000000000*captureSeconds.toNat
  unexpired : ∀ e ∈ past, e.input = .tick → e.now < w.windowStart + 1000000000*captureSeconds.toNat

/-- The admissible events of one channel: the clock starts after the epoch, does not go
back, and no second passes without a tick. -/
structure Paced (past : List ChannelEvent) (e : ChannelEvent) : Prop where
  nonneg : 0 ≤ e.now
  past_le : ∀ e' ∈ past, e'.now ≤ e.now
  ticked : ∀ t, (∃ e' ∈ past, e'.now ≤ t) → t + 1000000000 ≤ e.now →
    ∃ e' ∈ past, e'.input = .tick ∧ t ≤ e'.now ∧ e'.now < t + 1000000000

namespace Confined
variable {captureSeconds : UInt32} {past : List ChannelEvent} {w w' : AudioWindow}
  {e : ChannelEvent}

theorem concat (h : Confined captureSeconds past w) (hstart : w'.windowStart = w.windowStart)
    (htick : e.input = .tick → e.now < w.windowStart + 1000000000*captureSeconds.toNat) :
    Confined captureSeconds (past ++ [e]) w' := by
  obtain ⟨e', he', hopened⟩ := h.opened
  refine ⟨⟨e', by simp [he'], by rw [hstart]; exact hopened⟩, ?_⟩
  intro e'' he'' hinput
  rw [hstart]
  obtain he'' | he'' := List.mem_append.mp he''
  · exact h.unexpired e'' he'' hinput
  · rw [List.mem_singleton.mp he''] at hinput ⊢
    exact htick hinput

/-- A window just opened. -/
theorem of_open {info : ChannelInfo} (hopen : openWindow captureSeconds e.now info = some w)
    (he : Paced past e) (hstart : w'.windowStart = w.windowStart) :
    Confined captureSeconds (past ++ [e]) w' := by
  obtain ⟨hw, hlt⟩ := openWindow_time hopen
  have hle := (evenMinuteBoundary_bounds he.nonneg).1
  have hspan : e.now < w.windowStart + 1000000000*captureSeconds.toNat := by
    simp only [openSpan] at hlt
    omega
  refine ⟨⟨e, by simp, ?_⟩, ?_⟩
  · rw [hstart]
    exact ⟨hw, hw ▸ hle, hspan⟩
  · intro e' he' _
    rw [hstart]
    obtain he' | he' := List.mem_append.mp he'
    · have := he.past_le e' he'
      omega
    · rw [List.mem_singleton.mp he']
      exact hspan

/-- A packet that reaches an open window reaches it within its cycle: otherwise a whole
second after the capture time has passed, and its tick would have sealed the window. -/
theorem inCycle (h : Confined captureSeconds past w) (hsecs : captureSeconds.toNat ≤ 119)
    (he : Paced past e) : InCycle w.windowStart e.now := by
  obtain ⟨e', he', hstart, hle, hlt⟩ := h.opened
  have hbefore := he.past_le e' he'
  have hend : e.now < w.windowStart + 120*1000000000 := by
    by_contra hlate
    obtain ⟨k, hk, htick, hge, -⟩ := he.ticked (w.windowStart + 1000000000*captureSeconds.toNat)
      ⟨e', he', hlt.le⟩ (by omega)
    have hsealed := h.unexpired k hk htick
    omega
  have hgrid := evenMinuteBoundary_grid e'.now
  rw [← hstart] at hgrid
  exact ⟨hle.trans hbefore, hend, evenMinuteBoundary_eq hgrid (hle.trans hbefore) hend⟩

end Confined

theorem confined_step {captureSeconds : UInt32} (hpos : 0 < captureSeconds.toNat)
    {past : List ChannelEvent} {c : Channel} {e : ChannelEvent}
    (h : ∀ w, c.window = some w → Confined captureSeconds past w) (he : Paced past e) :
    ∀ w, (Channel.step captureSeconds c e).1.window = some w →
      Confined captureSeconds (past ++ [e]) w := by
  obtain ⟨fields, hinput, hstep⟩ | ⟨-, hidle, hstep⟩ | ⟨w, -, hwin, hexp, hstep⟩ |
    ⟨w, call, hdel, hstep⟩ := Channel.step_cases captureSeconds c e <;> rw [hstep] <;> intro v hv
  · exact (h v hv).concat rfl (by simp [hinput])
  · refine (h v hv).concat rfl ?_
    intro htick
    have hnot := hidle htick v hv
    by_contra hlate
    rw [(expired_iff hpos e.now v).mpr (by omega)] at hnot
    contradiction
  · contradiction
  · have hstart : v.windowStart = w.windowStart := by
      rw [Channel.feed_window hv, (AudioWindow.ingest_frame w call).1]
    obtain ⟨rtp, lag, info, hinput, -, -, hwin | ⟨-, hopen⟩, -⟩ := Channel.delivery_cases hdel
    · exact (h w hwin).concat hstart (by simp [hinput])
    · exact Confined.of_open hopen he hstart

/-- A packet delivered in a paced run is delivered within the cycle of its window. -/
theorem inCycle_of_delivery {captureSeconds : UInt32} (hsecs : captureSeconds.toNat ≤ 119)
    {past : List ChannelEvent} {c : Channel} {e : ChannelEvent}
    (h : ∀ w, c.window = some w → Confined captureSeconds past w) (he : Paced past e)
    {w : AudioWindow} {call : IngestCall} (hdel : c.delivery captureSeconds e = some (w, call)) :
    InCycle w.windowStart e.now := by
  obtain ⟨rtp, lag, info, -, -, -, hwin | ⟨-, hopen⟩, -⟩ := Channel.delivery_cases hdel
  · exact (h w hwin).inCycle hsecs he
  · obtain ⟨hle, hlt⟩ := evenMinuteBoundary_bounds he.nonneg
    rw [(openWindow_time hopen).1]
    exact ⟨hle, hlt, rfl⟩

/-- What one SSRC sees of a ticked run is paced. -/
theorem paced_of_ticked {cfg : Config} {s : UInt32} {es past rest : List Event} {e : Event}
    {d : ChannelEvent} (hclock : Chronological es) (hepoch : ∀ e ∈ es, 0 ≤ e.now) (htick : Ticked es)
    (hes : es = past ++ e::rest) (hd : focus cfg s e = some d) :
    Paced (past.filterMap (focus cfg s)) d := by
  have hmem : e ∈ es := by simp [hes]
  have hnow := focus_now hd
  refine ⟨by rw [hnow]; exact hepoch e hmem, ?_, ?_⟩
  · intro d' hd'
    obtain ⟨e', he', hfocus⟩ := List.mem_filterMap.mp hd'
    rw [focus_now hfocus, hnow]
    exact hclock.past_le hes e' he'
  · rintro t ⟨d', hd', hle⟩ hge
    obtain ⟨e', he', hfocus⟩ := List.mem_filterMap.mp hd'
    rw [focus_now hfocus] at hle
    rw [hnow] at hge
    obtain ⟨k, hk, ⟨order, hinput⟩, hkt, hlt⟩ := htick t ⟨e', by simp [hes, he'], hle⟩ ⟨e, hmem, hge⟩
    have hpast : k ∈ past := by
      rw [hes, List.mem_append, List.mem_cons] at hk
      obtain hk | rfl | hk := hk
      · exact hk
      · omega
      · have hafter := (hes ▸ hclock : Chronological (past ++ e::rest))
        rw [Chronological, List.pairwise_append, List.pairwise_cons] at hafter
        have := hafter.2.1.1 k hk
        omega
    refine ⟨⟨k.now, .tick⟩, List.mem_filterMap.mpr ⟨k, hpast, ?_⟩, rfl, hkt, hlt⟩
    simp [focus, hinput]

/-- A short capture, ticked every second after the epoch, keeps every cycle to itself. -/
theorem stored_in_own_cycle (cfg : Config) (hsecs : cfg.captureSeconds.toNat ≤ 119)
    {es : List Event} (hclock : Chronological es) (hepoch : ∀ e ∈ es, 0 ≤ e.now) (htick : Ticked es) :
    (machine cfg).Throughout .initial es (fun _ st e => ∀ a ∈ (step cfg st e).2, a.InCycle e.now) := by
  have hpos : 0 < cfg.captureSeconds.toNat := by
    have := cfg.captureSeconds_toNat
    omega
  have hchannel (s : UInt32) : (Channel.machine cfg.captureSeconds).Throughout .initial
      (es.filterMap (focus cfg s)) (fun past c e => ∀ w call,
        c.delivery cfg.captureSeconds e = some (w, call) → InCycle w.windowStart e.now) := by
    have hpaced : (Channel.machine cfg.captureSeconds).Throughout .initial
        (es.filterMap (focus cfg s)) (fun past _ e => Paced past e) :=
      throughout_channel (fun past e rest d hes hd => paced_of_ticked hclock hepoch htick hes hd)
    refine hpaced.of_invariant (I := fun past c _ => ∀ w, c.window = some w →
      Confined cfg.captureSeconds past w) ?_ ?_ ?_
    · intro w hw
      contradiction
    · intro past c out e h he
      exact confined_step hpos h he
    · intro past c out e h he w call hdel
      exact inCycle_of_delivery hsecs h he hdel
  rintro past e rest hes ⟨s, act⟩ ha
  cases act with
  | ingested w call =>
    intro _
    obtain ⟨d, hd, hdel⟩ := ingested_mem_step.mp ha
    have hcycle := throughout_of_channel (hchannel s) hes hd w call hdel
    rwa [focus_now hd] at hcycle
  | _ => trivial

/-- The record that `readyStatus` makes. -/
def readyInfo : ChannelInfo where
  centerFreqHz := ⟨0x4059000000000000⟩
  sampleRateHz := 1
  channels := 1
  encoding := ENC_S16BE

def oneRtp (seq timestamp : UInt8) : RtpPacket where
  header := ⟨2, false, false, 0, false, 122, u16FromBeBytes 0 seq, u32FromBeBytes 0 0 0 timestamp, 9⟩
  payload := [0,7]

theorem parse_onePacket (seq timestamp : UInt8) :
    parseRtpPacket (onePacket seq timestamp) = .ok (oneRtp seq timestamp) := rfl

variable (cfg : Config)

/-- A configuration with the same capture duration that lets every SSRC through. -/
def unfiltered : Config := { cfg with ssrcFilter := none }

theorem focus_readyStatus (t : ℤ) :
    focus (unfiltered cfg) 9 ⟨t, .status readyStatus⟩ = some ⟨t, .status (packetFields readyStatus)⟩ := by
  have h : packetSsrc readyStatus = some 9 := by decide +kernel
  simp [focus, h]

theorem focus_onePacket (t : ℤ) (seq timestamp : UInt8) :
    focus (unfiltered cfg) 9 ⟨t, .rtp (onePacket seq timestamp) 0⟩ =
      some ⟨t, .packet (oneRtp seq timestamp) 0⟩ := by
  simp [focus, parse_onePacket, oneRtp, passesFilter, unfiltered]

/-- The window and the call of a first packet at a time not after its boundary. -/
def firstWindow (n : UInt32) (t : ℤ) : AudioWindow :=
  AudioWindow.new (evenMinuteBoundary t) readyInfo.centerFreqHz 1 n

theorem delivery_first {n : UInt32} (hn : 0 < n.toNat) {t : ℤ} (ht : t ≤ evenMinuteBoundary t) :
    Channel.delivery n ⟨some readyInfo, none⟩ ⟨t, .packet (oneRtp 0 0) 0⟩ =
      some (firstWindow n t, ingestCall readyInfo (oneRtp 0 0) t) := by
  have hready : readyInfo.isAudioReady = true := by decide
  have hopen : openWindow n t readyInfo = some (firstWindow n t) := by
    have hlate : late n t = false := by
      simp only [late, elapsed_eq, Int.toNat_of_nonpos (sub_nonpos.mpr ht), Duration.asSecs,
        decide_eq_false_iff_not]
      omega
    have hlt := n.toNat_lt
    have hfits : 2*(readyInfo.sampleRateHz.toNat*n.toNat) < 2^63 := by
      have hone : readyInfo.sampleRateHz.toNat = 1 := rfl
      rw [hone]
      omega
    rw [openWindow, hlate, AudioWindow.newChecked, if_pos hfits]
    rfl
  simp [Channel.delivery, Option.filter, hready, hopen]

theorem step_readyStatus (n : UInt32) (t : ℤ) :
    Channel.step n .initial ⟨t, .status (packetFields readyStatus)⟩ = (⟨some readyInfo, none⟩, []) := by
  have h : (collect (packetFields readyStatus)).apply {} = readyInfo := by decide +kernel
  simp [Channel.step, Channel.initial, h]

theorem nSamples_oneRtp (seq timestamp : UInt8) (t : ℤ) :
    (ingestCall readyInfo (oneRtp seq timestamp) t).nSamples = 1 := by
  simp [IngestCall.nSamples, ingestCall, oneRtp]

theorem wallOf_first (n : UInt32) {t : ℤ} (ht : t ≤ evenMinuteBoundary t) :
    (firstWindow n t).wallOf (ingestCall readyInfo (oneRtp 0 0) t) = 0 := by
  have helapsed : elapsed t (evenMinuteBoundary t) = 0 := by
    rw [elapsed_eq]
    omega
  change wallSamples (elapsed t (evenMinuteBoundary t)) 1 = 0
  rw [helapsed, wallSamples_zero]

theorem stores_first {n : UInt32} (hn : 0 < n.toNat) {t : ℤ} (ht : t ≤ evenMinuteBoundary t) :
    (firstWindow n t).Stores (ingestCall readyInfo (oneRtp 0 0) t) := by
  have hcap : (firstWindow n t).capacitySamples = n.toNat := by
    change 1*n.toNat = n.toNat
    omega
  have hplace : (firstWindow n t).placement ((firstWindow n t).wallOf
      (ingestCall readyInfo (oneRtp 0 0) t)) (ingestCall readyInfo (oneRtp 0 0) t) = some 0 := by
    rw [wallOf_first n ht, AudioWindow.placement, AudioWindow.locate_first rfl, Nat.zero_min]
  refine ⟨0, hplace, ?_, ?_⟩ <;> rw [nSamples_oneRtp]
  · omega
  · decide

/-- Ticks before the capture time is over leave a channel alone. -/
theorem after_ticks {n : UInt32} (hn : 0 < n.toNat) {c : Channel} {w : AudioWindow}
    (hwin : c.window = some w) (es : List ChannelEvent)
    (hes : ∀ e ∈ es, e.input = .tick ∧ e.now < w.windowStart + 1000000000*n.toNat) :
    (Channel.machine n).after c es = c := by
  induction es with
  | nil => rfl
  | cons e es ih =>
    obtain ⟨hinput, hlt⟩ := hes e (by simp)
    have hidle : expired n e.now w = false := by
      by_contra hexp
      rw [Bool.not_eq_false, expired_iff hn] at hexp
      omega
    have hstep : (Channel.step n c e).1 = c := by
      simp [Channel.step, hinput, hwin, hidle]
    rw [EventMachine.after_cons, Channel.machine_step, hstep]
    exact ih (fun e he => hes e (by simp [he]))

/-- The window that the first packet leaves behind. -/
def firstFed (n : UInt32) (t : ℤ) : AudioWindow :=
  ((firstWindow n t).ingest (ingestCall readyInfo (oneRtp 0 0) t)).1

theorem step_first {n : UInt32} (hn : 0 < n.toNat) {t : ℤ} (ht : t ≤ evenMinuteBoundary t) :
    (Channel.step n ⟨some readyInfo, none⟩ ⟨t, .packet (oneRtp 0 0) 0⟩).1 =
      ⟨some readyInfo, some (firstFed n t)⟩ := by
  obtain ⟨offset, hplace, hfit, -⟩ := stores_first hn ht
  have hok : ((firstWindow n t).ingest (ingestCall readyInfo (oneRtp 0 0) t)).2 = .ok () := by
    rw [AudioWindow.ingest_ok_iff]
    rintro ⟨offset', hplace', hover⟩
    rw [hplace] at hplace'
    cases hplace'
    omega
  simp only [Channel.step, delivery_first hn ht, Channel.feed_ok hok]
  rfl

/-- A second packet one tick of the RTP clock later is stored, whenever it arrives. -/
theorem stores_second {n : UInt32} (hn : 2 ≤ n.toNat) {t : ℤ} (ht : t ≤ evenMinuteBoundary t)
    (t' : ℤ) : (firstFed n t).Stores (ingestCall readyInfo (oneRtp 1 1) t') := by
  obtain ⟨hbase, hstart⟩ := AudioWindow.ingest_first (w := firstWindow n t) rfl
    (ingestCall readyInfo (oneRtp 0 0) t)
  rw [wallOf_first n ht, Nat.zero_min] at hstart
  have hcap : (firstFed n t).capacitySamples = n.toNat := by
    rw [firstFed, (AudioWindow.ingest_frame _ _).2.2.2]
    change 1*n.toNat = n.toNat
    omega
  have hadv : advance (ingestCall readyInfo (oneRtp 0 0) t).rtpTimestamp
      (ingestCall readyInfo (oneRtp 1 1) t').rtpTimestamp = 1 :=
    (by decide : advance (oneRtp 0 0).header.timestamp (oneRtp 1 1).header.timestamp = 1)
  have hloc := AudioWindow.locate_later
    (w := (firstFed n t).noteSeq (ingestCall readyInfo (oneRtp 1 1) t').rtpSeq) hbase
    ((firstFed n t).wallOf (ingestCall readyInfo (oneRtp 1 1) t'))
    (ingestCall readyInfo (oneRtp 1 1) t').rtpTimestamp
  have hplace : (firstFed n t).placement ((firstFed n t).wallOf (ingestCall readyInfo (oneRtp 1 1) t'))
      (ingestCall readyInfo (oneRtp 1 1) t') = some 1 := by
    rw [AudioWindow.placement, hloc, hadv, if_neg (by omega), AudioWindow.noteSeq_startOffset,
      firstFed, hstart]
  refine ⟨1, hplace, ?_, ?_⟩ <;> rw [nSamples_oneRtp]
  · omega
  · decide

theorem delivery_second (n : UInt32) (w : AudioWindow) (t : ℤ) :
    Channel.delivery n ⟨some readyInfo, some w⟩ ⟨t, .packet (oneRtp 1 1) 0⟩ =
      some (w, ingestCall readyInfo (oneRtp 1 1) t) := by
  have hready : readyInfo.isAudioReady = true := by decide
  simp [Channel.delivery, Option.filter, hready]

theorem channel_initial (s : UInt32) : State.initial.channel s = Channel.initial := rfl

/-- Before the epoch every boundary is the epoch: a packet is written ahead of its cycle. -/
theorem before_epoch (t : ℤ) (ht : t < 0) :
    let es : List Event := [⟨t, .status readyStatus⟩, ⟨t, .rtp (onePacket 0 0) 0⟩]
    ¬ (machine (unfiltered cfg)).Throughout .initial es
      (fun _ st e => ∀ a ∈ (step (unfiltered cfg) st e).2, a.InCycle e.now) := by
  intro es h
  have hpos : 0 < cfg.captureSeconds.toNat := by
    have := cfg.captureSeconds_toNat
    omega
  have hboundary := evenMinuteBoundary_of_neg ht
  have hahead : t ≤ evenMinuteBoundary t := by omega
  have hview : ((machine (unfiltered cfg)).after .initial [⟨t, .status readyStatus⟩]).channel 9 =
      ⟨some readyInfo, none⟩ := by
    rw [EventMachine.after_cons, EventMachine.after_nil, machine_step,
      channel_step (focus_readyStatus cfg t), channel_initial, step_readyStatus]
  have hdel : Delivers (unfiltered cfg) ((machine (unfiltered cfg)).after .initial
      [⟨t, .status readyStatus⟩]) ⟨t, .rtp (onePacket 0 0) 0⟩ 9 (firstWindow cfg.captureSeconds t)
      (ingestCall readyInfo (oneRtp 0 0) t) := by
    refine ⟨_, focus_onePacket cfg t 0 0, ?_⟩
    rw [hview]
    exact delivery_first hpos hahead
  have hcycle := h [⟨t, .status readyStatus⟩] ⟨t, .rtp (onePacket 0 0) 0⟩ [] rfl _
    (ingested_mem_step.mpr hdel) (stores_first hpos hahead)
  have hle : evenMinuteBoundary t ≤ t := hcycle.1
  omega

/-- The ticks of the two minutes from `start` on. -/
def cycleTicks (start : ℤ) : List Event :=
  (List.range 120).map (fun i : ℕ => ⟨start + 1000000000*i, .tick .id⟩)

/-- A capture of two minutes or more: no tick has sealed the window when the next cycle
begins, and its first packet goes into the old window. -/
def overrun (start : ℤ) : List Event :=
  [⟨start, .status readyStatus⟩, ⟨start, .rtp (onePacket 0 0) 0⟩] ++ cycleTicks start ++
    [⟨start + 120*1000000000, .rtp (onePacket 1 1) 0⟩]

theorem mem_overrun_now {start : ℤ} {e : Event} (h : e ∈ overrun start) :
    start ≤ e.now ∧ e.now ≤ start + 120*1000000000 := by
  simp only [overrun, cycleTicks, List.mem_append, List.mem_cons, List.mem_map, List.mem_range,
    List.not_mem_nil, or_false] at h
  obtain ((rfl | rfl) | ⟨i, hi, rfl⟩) | rfl := h <;> constructor <;> simp only <;> omega

theorem chronological_overrun (start : ℤ) : Chronological (overrun start) := by
  have hticks : (cycleTicks start).Pairwise (fun e e' => e.now ≤ e'.now) := by
    rw [cycleTicks, List.pairwise_map]
    refine List.pairwise_lt_range.imp ?_
    intro i j hij
    simp only
    omega
  have hfrom : ∀ e ∈ cycleTicks start, start ≤ e.now := by
    intro e he
    exact (mem_overrun_now (by simp [overrun, he])).1
  rw [Chronological, overrun, List.pairwise_append]
  refine ⟨?_, List.pairwise_singleton _ _, ?_⟩
  · simp only [List.cons_append, List.nil_append, List.pairwise_cons, List.mem_cons,
      forall_eq_or_imp]
    exact ⟨⟨le_rfl, hfrom⟩, hfrom, hticks⟩
  · intro e he e' he'
    rw [List.mem_singleton.mp he']
    exact (mem_overrun_now (List.mem_append_left _ he)).2

/-- The ticks of two minutes are enough for a run that lies in them. -/
theorem ticked_of_cycleTicks {start : ℤ} {es : List Event} (hticks : cycleTicks start ⊆ es)
    (hnow : ∀ e ∈ es, start ≤ e.now ∧ e.now ≤ start + 120*1000000000) : Ticked es := by
  rintro t ⟨e, he, hle⟩ ⟨e', he', hge⟩
  have hlow := (hnow e he).1
  have hhigh := (hnow e' he').2
  refine ⟨⟨start + 1000000000*((t - start + 999999999)/1000000000).toNat, .tick .id⟩, hticks ?_, ⟨_, rfl⟩, ?_, ?_⟩
  · have hmem : ((t - start + 999999999)/1000000000).toNat ∈ List.range 120 := by
      rw [List.mem_range]
      omega
    exact List.mem_map.mpr ⟨_, hmem, rfl⟩
  · simp only
    omega
  · simp only
    omega

theorem ticked_overrun (start : ℤ) : Ticked (overrun start) :=
  ticked_of_cycleTicks (fun _ he => by simp [overrun, he]) (fun _ he => mem_overrun_now he)

theorem focus_cycleTicks (start : ℤ) : (cycleTicks start).filterMap (focus (unfiltered cfg) 9) =
    (List.range 120).map (fun i : ℕ => ⟨start + 1000000000*i, .tick⟩) := by
  rw [cycleTicks, List.filterMap_map, ← List.filterMap_eq_map]
  rfl

/-- With a capture of two minutes or more, an overrun on the even-minute grid ends with a
sample of one cycle in the window of another. -/
theorem overrun_leaves_cycle (hlong : 120 ≤ cfg.captureSeconds.toNat) {start : ℤ}
    (hgrid : evenMinuteBoundary start = start) :
    ¬ (machine (unfiltered cfg)).Throughout .initial (overrun start)
      (fun _ st e => ∀ a ∈ (step (unfiltered cfg) st e).2, a.InCycle e.now) := by
  intro h
  have hpos : 0 < cfg.captureSeconds.toNat := by omega
  have hfed : (firstFed cfg.captureSeconds start).windowStart = start := by
    rw [firstFed, (AudioWindow.ingest_frame _ _).1]
    exact hgrid
  let past : List Event := [⟨start, .status readyStatus⟩, ⟨start, .rtp (onePacket 0 0) 0⟩] ++
    cycleTicks start
  let last : Event := ⟨start + 120*1000000000, .rtp (onePacket 1 1) 0⟩
  have hopened : ((machine (unfiltered cfg)).after .initial
      [⟨start, .status readyStatus⟩, ⟨start, .rtp (onePacket 0 0) 0⟩]).channel 9 =
      ⟨some readyInfo, some (firstFed cfg.captureSeconds start)⟩ := by
    rw [EventMachine.after_cons, EventMachine.after_cons, EventMachine.after_nil, machine_step,
      channel_step (focus_onePacket cfg start 0 0), channel_step (focus_readyStatus cfg start),
      channel_initial, step_readyStatus]
    exact step_first hpos hgrid.ge
  have hview : ((machine (unfiltered cfg)).after .initial past).channel 9 =
      ⟨some readyInfo, some (firstFed cfg.captureSeconds start)⟩ := by
    rw [EventMachine.after_append]
    have hticks := (projection (unfiltered cfg) 9).view_after ((machine (unfiltered cfg)).after .initial
      [⟨start, .status readyStatus⟩, ⟨start, .rtp (onePacket 0 0) 0⟩]) (cycleTicks start)
    refine hticks.trans ?_
    change (Channel.machine cfg.captureSeconds).after (((machine (unfiltered cfg)).after .initial
      [⟨start, .status readyStatus⟩, ⟨start, .rtp (onePacket 0 0) 0⟩]).channel 9)
      ((cycleTicks start).filterMap (focus (unfiltered cfg) 9)) = _
    rw [hopened, focus_cycleTicks]
    refine after_ticks hpos rfl _ ?_
    intro e he
    obtain ⟨i, hi, rfl⟩ := List.mem_map.mp he
    rw [List.mem_range] at hi
    refine ⟨rfl, ?_⟩
    rw [hfed]
    simp only
    omega
  have hdel : Delivers (unfiltered cfg) ((machine (unfiltered cfg)).after .initial past) last 9
      (firstFed cfg.captureSeconds start) (ingestCall readyInfo (oneRtp 1 1) last.now) := by
    refine ⟨_, focus_onePacket cfg last.now 1 1, ?_⟩
    rw [hview]
    exact delivery_second _ _ _
  have hcycle := h past last [] rfl _ (ingested_mem_step.mpr hdel)
    (stores_second (by omega) hgrid.ge last.now)
  have hlt : last.now < (firstFed cfg.captureSeconds start).windowStart + 120*1000000000 := hcycle.2.1
  rw [hfed] at hlt
  exact lt_irrefl _ hlt

/-- All windows that one SSRC has had: those sent, in order, and the one that is open. -/
def windowsOf (s : UInt32) (st : State) (out : List Action) : List AudioWindow :=
  sentTo s out ++ (st.windows.lookup s).toList

/-- Windows that are in order and lie on the grid do not overlap. -/
theorem windowsOf_disjoint (cfg : Config) {es : List Event} (hclock : Chronological es)
    (hearly : (machine cfg).Throughout .initial es (NoEarlyOverflow cfg)) (s : UInt32) :
    (windowsOf s ((machine cfg).after .initial es) ((machine cfg).outputs .initial es)).Pairwise
      (fun v w => v.windowStart + 120*1000000000 ≤ w.windowStart) := by
  have hordered := ordered_run cfg es hclock hearly s
  have hopened := allOpened_run cfg es s
  have hincreasing : (windowsOf s ((machine cfg).after .initial es)
      ((machine cfg).outputs .initial es)).Pairwise (fun v w => v.windowStart < w.windowStart) := by
    refine List.pairwise_append.mpr ⟨hordered.increasing, by cases AList.lookup s _ <;> simp, ?_⟩
    intro v hv w hw
    exact hordered.later w (Option.mem_toList.mp hw) v hv
  have hgrid : ∀ w ∈ windowsOf s ((machine cfg).after .initial es)
      ((machine cfg).outputs .initial es), ∃ n : ℕ, w.windowStart = n*(120*1000000000) := by
    intro w hw
    obtain ⟨e, -, hstart⟩ : OpenedAmong (es.filterMap (focus cfg s)) w := by
      obtain hw | hw := List.mem_append.mp hw
      · exact hopened.sent w hw
      · exact hopened.window w (Option.mem_toList.mp hw)
    rw [hstart]
    exact evenMinuteBoundary_grid e.now
  refine hincreasing.imp_of_mem ?_
  intro v w hv hw hlt
  obtain ⟨n, hn⟩ := hgrid v hv
  obtain ⟨m, hm⟩ := hgrid w hw
  omega

/-- On clocks that start at `t₀` and tick every second, all samples are written within the
cycle of their window if and only if the capture is shorter than two minutes and the clock
never reads a time before the epoch. If besides no packet overflows its window early, the
windows of one SSRC do not overlap. -/
theorem stored_in_own_cycle_iff (t₀ : ℤ) :
    ((∀ filter es, Chronological es → (∀ e ∈ es, t₀ ≤ e.now) → Ticked es →
      (machine { cfg with ssrcFilter := filter }).Throughout .initial es (fun _ st e =>
        ∀ a ∈ (step { cfg with ssrcFilter := filter } st e).2, a.InCycle e.now)) ↔
      cfg.captureSeconds.toNat ≤ 119 ∧ 0 ≤ t₀) ∧
    ∀ filter es, Chronological es →
      (machine { cfg with ssrcFilter := filter }).Throughout .initial es
        (NoEarlyOverflow { cfg with ssrcFilter := filter }) → ∀ s,
      (windowsOf s ((machine { cfg with ssrcFilter := filter }).after .initial es)
        ((machine { cfg with ssrcFilter := filter }).outputs .initial es)).Pairwise
        (fun v w => v.windowStart + 120*1000000000 ≤ w.windowStart) := by
  refine ⟨⟨?_, ?_⟩, fun filter es => windowsOf_disjoint { cfg with ssrcFilter := filter }⟩
  · intro h
    constructor
    · by_contra hlong
      let start : ℤ := t₀.toNat*(120*1000000000)
      have hgrid : evenMinuteBoundary start = start :=
        evenMinuteBoundary_eq ⟨t₀.toNat, rfl⟩ le_rfl (by omega)
      have hstart : t₀ ≤ start := by
        simp only [start]
        omega
      refine overrun_leaves_cycle cfg (by omega) hgrid (h none (overrun start)
        (chronological_overrun start) ?_ (ticked_overrun start))
      intro e he
      exact hstart.trans (mem_overrun_now he).1
    · by_contra hneg
      refine before_epoch cfg t₀ (by omega) (h none _ (by simp [Chronological]) (by simp) ?_)
      rintro t ⟨e, he, hle⟩ ⟨e', he', hge⟩
      have hnow : e.now = t₀ ∧ e'.now = t₀ := by
        simp only [List.mem_cons, List.not_mem_nil, or_false] at he he'
        obtain rfl | rfl := he <;> obtain rfl | rfl := he' <;> exact ⟨rfl, rfl⟩
      omega
  · rintro ⟨hsecs, hepoch⟩ filter es hclock hstart htick
    exact stored_in_own_cycle { cfg with ssrcFilter := filter } hsecs hclock (fun e he => hepoch.trans (hstart e he)) htick

/-- A cycle that is reopened after an early overflow, ticked every second. -/
def reopened : List Event :=
  [⟨0, .status readyStatus⟩, ⟨0, .rtp (onePacket 0 0) 0⟩, ⟨0, .tick .id⟩,
    ⟨1000000000, .rtp (onePacket 1 200) 0⟩, ⟨1000000000, .tick .id⟩,
    ⟨2000000000, .rtp (onePacket 2 202) 0⟩] ++ (cycleTicks 0).drop 2

/-- The shortest capture that overruns, 120 seconds, from the epoch on; and the shortest capture
there is, 111 seconds, with two windows of one cycle. -/
theorem overrun_two_minutes :
    (Chronological (overrun 0) ∧ Ticked (overrun 0) ∧
      ¬ (machine ⟨none, 120, by decide⟩).Throughout .initial (overrun 0)
        (fun _ st e => ∀ a ∈ (step ⟨none, 120, by decide⟩ st e).2, a.InCycle e.now)) ∧
    Chronological reopened ∧ Ticked reopened ∧
      ¬ (windowsOf 9 ((machine shortCapture).after .initial reopened)
        ((machine shortCapture).outputs .initial reopened)).Pairwise
          (fun v w => v.windowStart + 120*1000000000 ≤ w.windowStart) := by
  refine ⟨⟨chronological_overrun 0, ticked_overrun 0,
    overrun_leaves_cycle ⟨none, 120, by decide⟩ (by decide) (by decide)⟩, by decide +kernel, ?_,
    by decide +kernel⟩
  refine @ticked_of_cycleTicks 0 reopened ?_ ?_
  · intro e he
    have hsplit : e ∈ (cycleTicks 0).take 2 ++ (cycleTicks 0).drop 2 := by
      rwa [List.take_append_drop]
    obtain he | he := List.mem_append.mp hsplit
    · have htwo : (cycleTicks 0).take 2 = [⟨0, .tick .id⟩, ⟨1000000000, .tick .id⟩] := rfl
      rw [htwo] at he
      simp only [List.mem_cons, List.not_mem_nil, or_false] at he
      obtain rfl | rfl := he <;> simp [reopened]
    · exact List.mem_append_right _ he
  · intro e he
    obtain he | he := List.mem_append.mp he
    · simp only [List.mem_cons, List.not_mem_nil, or_false] at he
      obtain rfl | rfl | rfl | rfl | rfl | rfl := he <;> simp
    · exact mem_overrun_now (by simp [overrun, List.mem_of_mem_drop he])

end Wsprrs.BufferTask
