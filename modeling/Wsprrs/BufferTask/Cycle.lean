import Wsprrs.BufferTask.Channel

/-! The two-minute cycle: when a window is opened, when it is sealed, and why no cycle of an
SSRC is sealed twice unless a packet overflows its window too early. -/
namespace Wsprrs.BufferTask
open Rtp Status

/-- The part of a cycle in which its window may be opened, in nanoseconds. -/
def openSpan (captureSeconds : UInt32) : ℤ := 1000000000*min 120 captureSeconds.toNat

/-- A window is opened at the last boundary, and early enough in the cycle. -/
theorem openWindow_time {captureSeconds : UInt32} {now : ℤ} {info : ChannelInfo} {w : AudioWindow}
    (h : openWindow captureSeconds now info = some w) :
    w.windowStart = evenMinuteBoundary now ∧ now < w.windowStart + openSpan captureSeconds := by
  have hnew := openWindow_eq_new h
  have hstart : w.windowStart = evenMinuteBoundary now := by rw [hnew]; rfl
  refine ⟨hstart, ?_⟩
  have hcycle : now < evenMinuteBoundary now + 120*1000000000 := by
    by_cases hnow : 0 ≤ now
    · exact (evenMinuteBoundary_bounds hnow).2
    · have := evenMinuteBoundary_nonneg now
      omega
  simp only [openWindow, AudioWindow.newChecked] at h
  split_ifs at h with hlate
  simp only [late, Duration.asSecs, elapsed_eq, ge_iff_le, decide_eq_true_eq] at hlate
  rw [hstart, openSpan]
  omega

/-- Expiry is a matter of the clock alone. -/
theorem expired_iff {captureSeconds : UInt32} (hsecs : 0 < captureSeconds.toNat) (now : ℤ)
    (w : AudioWindow) :
    expired captureSeconds now w = true ↔ w.windowStart + 1000000000*captureSeconds.toNat ≤ now := by
  simp only [expired, elapsed_eq, Duration.fromSecs, ge_iff_le, decide_eq_true_eq]
  omega

/-- No packet overflows its window while a window of the same cycle could still be opened. -/
def NoEarlyOverflow (cfg : Config) (_past : List Event) (st : State) (e : Event) : Prop :=
  ∀ s w call, Delivers cfg st e s w call → w.Overflows call →
    w.windowStart + openSpan cfg.captureSeconds ≤ e.now

/-- The same for one action of a step at time `now`. -/
def Action.OnTime (cfg : Config) (now : ℤ) (a : Action) : Prop :=
  match a.act with
  | .ingested w call => w.Overflows call → w.windowStart + openSpan cfg.captureSeconds ≤ now
  | _ => True

instance (cfg : Config) (now : ℤ) : (a : Action) → Decidable (a.OnTime cfg now)
  | ⟨_, .ingested w call⟩ => inferInstanceAs (Decidable
      (w.Overflows call → w.windowStart + openSpan cfg.captureSeconds ≤ now))
  | ⟨_, .opened _⟩ => isTrue trivial
  | ⟨_, .sent _⟩ => isTrue trivial
  | ⟨_, .dropped _⟩ => isTrue trivial

theorem noEarlyOverflow_of_onTime {cfg : Config} {past : List Event} {st : State} {e : Event}
    (h : ∀ a ∈ (step cfg st e).2, a.OnTime cfg e.now) : NoEarlyOverflow cfg past st e :=
  fun _ _ _ hdel => h _ (ingested_mem_step.mpr hdel)

/-- The sent windows of one SSRC are in order, their cycles are over, and the open window
belongs to a later one. -/
structure Ordered (captureSeconds : UInt32) (past : List ChannelEvent) (window : Option AudioWindow)
    (sent : List AudioWindow) : Prop where
  increasing : sent.Pairwise (fun v w => v.windowStart < w.windowStart)
  cycleOver : ∀ v ∈ sent, ∃ e ∈ past, v.windowStart + openSpan captureSeconds ≤ e.now
  later : ∀ w, window = some w → ∀ v ∈ sent, v.windowStart < w.windowStart

namespace Ordered
variable {captureSeconds : UInt32} {past : List ChannelEvent} {window : Option AudioWindow}
  {w w' : AudioWindow} {sent : List AudioWindow}

theorem concat (h : Ordered captureSeconds past window sent) (e : ChannelEvent) :
    Ordered captureSeconds (past ++ [e]) window sent := by
  refine ⟨h.increasing, ?_, h.later⟩
  intro v hv
  obtain ⟨e', he', hle⟩ := h.cycleOver v hv
  exact ⟨e', by simp [he'], hle⟩

/-- A window opened now starts after every cycle that is over. -/
theorem opened (h : Ordered captureSeconds past none sent) {now : ℤ} {info : ChannelInfo}
    (hopen : openWindow captureSeconds now info = some w) (hnow : ∀ e ∈ past, e.now ≤ now) :
    Ordered captureSeconds past (some w) sent := by
  refine ⟨h.increasing, h.cycleOver, ?_⟩
  rintro _ ⟨⟩ v hv
  obtain ⟨e, he, hle⟩ := h.cycleOver v hv
  have hbefore := hnow e he
  have hopened := (openWindow_time hopen).2
  omega

theorem renewed (h : Ordered captureSeconds past (some w) sent)
    (hstart : w'.windowStart = w.windowStart) : Ordered captureSeconds past (some w') sent := by
  refine ⟨h.increasing, h.cycleOver, ?_⟩
  rintro _ ⟨⟩ v hv
  rw [hstart]
  exact h.later w rfl v hv

/-- Sealing a window late enough in its cycle. -/
theorem sealed (h : Ordered captureSeconds past (some w) sent) {e : ChannelEvent} (he : e ∈ past)
    (hlate : w.windowStart + openSpan captureSeconds ≤ e.now) :
    Ordered captureSeconds past none (sent ++ [w]) := by
  refine ⟨?_, ?_, by simp⟩
  · refine List.pairwise_append.mpr ⟨h.increasing, List.pairwise_singleton _ _, ?_⟩
    intro v hv u hu
    rw [List.mem_singleton.mp hu]
    exact h.later w rfl v hv
  · intro v hv
    obtain hv | hv := List.mem_append.mp hv
    · exact h.cycleOver v hv
    · rw [List.mem_singleton.mp hv]
      exact ⟨e, he, hlate⟩

/-- Feeding a window: it stays open, or it is sealed by an overflow that is not early. -/
theorem feed (h : Ordered captureSeconds past (some w) sent) (call : IngestCall) {e : ChannelEvent}
    (he : e ∈ past) (hlate : w.Overflows call → w.windowStart + openSpan captureSeconds ≤ e.now) :
    Ordered captureSeconds past (Channel.feed w call).1
      (sent ++ (Channel.feed w call).2.filterMap WindowAct.sent?) := by
  have hstart := (AudioWindow.ingest_frame w call).1
  have hnext := h.renewed hstart
  cases hres : (w.ingest call).2 with
  | ok u =>
    rw [Channel.feed_ok hres]
    simpa [List.filterMap_cons] using hnext
  | error err =>
    have hover : w.Overflows call := by
      by_contra hfit
      rw [(AudioWindow.ingest_ok_iff w call).mpr hfit] at hres
      contradiction
    rw [Channel.feed_error hres]
    simpa [List.filterMap_cons] using hnext.sealed he (by rw [hstart]; exact hlate hover)

end Ordered

/-- The admissible events of one channel: the clock does not go back, and no early overflow. -/
def Punctual (captureSeconds : UInt32) (past : List ChannelEvent) (c : Channel) (e : ChannelEvent) :
    Prop :=
  (∀ e' ∈ past, e'.now ≤ e.now) ∧
  ∀ w call, c.delivery captureSeconds e = some (w, call) → w.Overflows call →
    w.windowStart + openSpan captureSeconds ≤ e.now

theorem ordered_step {captureSeconds : UInt32} (hsecs : 0 < captureSeconds.toNat)
    {past : List ChannelEvent} {c : Channel} {sent : List AudioWindow} {e : ChannelEvent}
    (h : Ordered captureSeconds past c.window sent) (he : Punctual captureSeconds past c e) :
    Ordered captureSeconds (past ++ [e]) (Channel.step captureSeconds c e).1.window
      (sent ++ (Channel.step captureSeconds c e).2.filterMap WindowAct.sent?) := by
  obtain ⟨hnow, hearly⟩ := he
  have hmem : e ∈ past ++ [e] := by simp
  have hpast := h.concat e
  obtain ⟨fields, -, hstep⟩ | ⟨-, -, hstep⟩ | ⟨w, -, hwin, hexp, hstep⟩ | ⟨w, call, hdel, hstep⟩ :=
    Channel.step_cases captureSeconds c e
  · rw [hstep]
    simpa using hpast
  · rw [hstep]
    simpa using hpast
  · rw [hwin] at hpast
    rw [hstep]
    have hlate := (expired_iff hsecs e.now w).mp hexp
    refine hpast.sealed hmem ?_
    simp only [openSpan]
    omega
  · rw [hstep, List.filterMap_append]
    have hlate := hearly w call hdel
    obtain ⟨rtp, lag, info, -, -, -, hwin | ⟨hwin, hopen⟩, -⟩ := Channel.delivery_cases hdel
    · rw [hwin] at hpast
      have hfed := hpast.feed call hmem hlate
      simpa [hwin] using hfed
    · rw [hwin] at hpast
      have hnow' : ∀ e' ∈ past ++ [e], e'.now ≤ e.now := by
        intro e' he'
        obtain he' | he' := List.mem_append.mp he'
        · exact hnow e' he'
        · rw [List.mem_singleton.mp he']
      have hfed := (hpast.opened hopen hnow').feed call hmem hlate
      simpa [hwin, List.filterMap_cons] using hfed

theorem Chronological.past_le {es past rest : List Event} {e : Event} (h : Chronological es)
    (hes : es = past ++ e::rest) : ∀ e' ∈ past, e'.now ≤ e.now := by
  rw [Chronological, hes, List.pairwise_append] at h
  intro e' he'
  exact h.2.2 e' he' e (by simp)

theorem focus_now {cfg : Config} {s : UInt32} {e : Event} {d : ChannelEvent}
    (h : focus cfg s e = some d) : d.now = e.now := by
  obtain ⟨now, input⟩ := e
  cases input with
  | status buf =>
    simp only [focus] at h
    split_ifs at h
    rw [← Option.some.inj h]
  | rtp buf lag =>
    simp only [focus] at h
    split at h
    · contradiction
    · split_ifs at h
      rw [← Option.some.inj h]
  | tick order => rw [← Option.some.inj h]

/-- The window starts at the boundary before one of the events. -/
def OpenedAmong (past : List ChannelEvent) (w : AudioWindow) : Prop :=
  ∃ e ∈ past, w.windowStart = evenMinuteBoundary e.now

theorem OpenedAmong.concat {past : List ChannelEvent} {w w' : AudioWindow} (h : OpenedAmong past w)
    (hstart : w'.windowStart = w.windowStart) (e : ChannelEvent) : OpenedAmong (past ++ [e]) w' := by
  obtain ⟨e', he', hw⟩ := h
  exact ⟨e', List.mem_append_left _ he', hstart.trans hw⟩

/-- So does the window of a channel, and so do those it has sent. -/
structure AllOpened (past : List ChannelEvent) (window : Option AudioWindow)
    (sent : List AudioWindow) : Prop where
  window : ∀ w, window = some w → OpenedAmong past w
  sent : ∀ w ∈ sent, OpenedAmong past w

theorem allOpened_step {captureSeconds : UInt32} {past : List ChannelEvent} {c : Channel}
    {sent : List AudioWindow} (h : AllOpened past c.window sent) (e : ChannelEvent) :
    AllOpened (past ++ [e]) (Channel.step captureSeconds c e).1.window
      (sent ++ (Channel.step captureSeconds c e).2.filterMap WindowAct.sent?) := by
  have hsent : ∀ w ∈ sent, OpenedAmong (past ++ [e]) w := fun w hw => (h.sent w hw).concat rfl e
  have hwindow : ∀ w, c.window = some w → OpenedAmong (past ++ [e]) w :=
    fun w hw => (h.window w hw).concat rfl e
  obtain ⟨fields, -, hstep⟩ | ⟨-, -, hstep⟩ | ⟨w, -, hwin, -, hstep⟩ | ⟨w, call, hdel, hstep⟩ :=
    Channel.step_cases captureSeconds c e
  · rw [hstep]
    exact ⟨hwindow, by simpa using hsent⟩
  · rw [hstep]
    exact ⟨hwindow, by simpa using hsent⟩
  · rw [hstep]
    refine ⟨by simp, ?_⟩
    intro v hv
    obtain hv | hv := List.mem_append.mp hv
    · exact hsent v hv
    · obtain rfl : v = w := by simpa using hv
      exact hwindow v hwin
  · have hopened : OpenedAmong (past ++ [e]) w := by
      obtain ⟨rtp, lag, info, -, -, -, hwin | ⟨-, hopen⟩, -⟩ := Channel.delivery_cases hdel
      · exact hwindow w hwin
      · exact ⟨e, by simp, (openWindow_time hopen).1⟩
    obtain ⟨e', he', hw⟩ := hopened
    have hfed : OpenedAmong (past ++ [e]) (w.ingest call).1 :=
      ⟨e', he', (AudioWindow.ingest_frame w call).1.trans hw⟩
    have hnone : (if c.window.isNone then [WindowAct.opened w] else []).filterMap
        WindowAct.sent? = [] := by
      split_ifs <;> simp
    rw [hstep, List.filterMap_append, hnone, List.nil_append]
    cases hres : (w.ingest call).2 with
    | ok u =>
      rw [Channel.feed_ok hres]
      refine ⟨?_, by simpa [List.filterMap_cons] using hsent⟩
      rintro _ ⟨⟩
      exact hfed
    | error err =>
      rw [Channel.feed_error hres]
      refine ⟨by simp, ?_⟩
      intro v hv
      obtain hv | hv := List.mem_append.mp hv
      · exact hsent v hv
      · obtain rfl : v = (w.ingest call).1 := by simpa [List.filterMap_cons] using hv
        exact hfed

theorem allOpened_run (cfg : Config) (es : List Event) (s : UInt32) :
    AllOpened (es.filterMap (focus cfg s)) (((machine cfg).after .initial es).windows.lookup s)
      (sentTo s ((machine cfg).outputs .initial es)) := by
  have hall : (Channel.machine cfg.captureSeconds).Throughout .initial
      (es.filterMap (focus cfg s)) (fun _ _ _ => True) := fun _ _ _ _ => trivial
  have hopened := hall.invariant
    (I := fun past c out => AllOpened past c.window (out.filterMap WindowAct.sent?))
    ⟨by simp [Channel.initial], by simp⟩
    (by
      intro past c out e h _
      rw [List.filterMap_append]
      exact allOpened_step h e)
  rw [lookup_after, sentTo_outputs]
  exact hopened

/-- Every window sent starts at the boundary before one of the readings of the clock. -/
theorem sentTo_opened (cfg : Config) (es : List Event) {s : UInt32} {w : AudioWindow}
    (h : w ∈ sentTo s ((machine cfg).outputs .initial es)) :
    ∃ e ∈ es, w.windowStart = evenMinuteBoundary e.now := by
  obtain ⟨d, hd, hw⟩ := (allOpened_run cfg es s).sent w h
  obtain ⟨e, he, hfocus⟩ := List.mem_filterMap.mp hd
  exact ⟨e, he, by rw [← focus_now hfocus, hw]⟩

/-- On a clock that does not go back, and if no packet overflows its window while the cycle
can still be reopened, the windows of one SSRC are in order. -/
theorem ordered_run (cfg : Config) (es : List Event) (hclock : Chronological es)
    (hearly : (machine cfg).Throughout .initial es (NoEarlyOverflow cfg)) (s : UInt32) :
    Ordered cfg.captureSeconds (es.filterMap (focus cfg s))
      (((machine cfg).after .initial es).windows.lookup s)
      (sentTo s ((machine cfg).outputs .initial es)) := by
  have hsecs : 0 < cfg.captureSeconds.toNat := by
    have := cfg.captureSeconds_toNat
    omega
  have hchannel : (Channel.machine cfg.captureSeconds).Throughout .initial
      (es.filterMap (focus cfg s)) (Punctual cfg.captureSeconds) := by
    apply throughout_channel
    intro past e rest d hes hd
    refine ⟨?_, ?_⟩
    · intro d' hd'
      obtain ⟨e', he', hfocus⟩ := List.mem_filterMap.mp hd'
      rw [focus_now hfocus, focus_now hd]
      exact hclock.past_le hes e' he'
    · intro w call hdel hover
      rw [focus_now hd]
      exact hearly past e rest hes s w call ⟨d, hd, hdel⟩ hover
  have hordered := hchannel.invariant
    (I := fun past c out => Ordered cfg.captureSeconds past c.window (out.filterMap WindowAct.sent?))
    ⟨by simp, by simp, by simp [Channel.initial]⟩
    (by
      intro past c out e h he
      rw [List.filterMap_append]
      exact ordered_step hsecs h he)
  rw [lookup_after, sentTo_outputs]
  exact hordered

/-- On a clock that does not go back, and if no packet overflows its window while the cycle
can still be reopened, the windows sent for one SSRC start later and later. -/
theorem sentTo_increasing (cfg : Config) (es : List Event) (hclock : Chronological es)
    (hearly : (machine cfg).Throughout .initial es (NoEarlyOverflow cfg)) (s : UInt32) :
    (sentTo s ((machine cfg).outputs .initial es)).Pairwise
      (fun v w => v.windowStart < w.windowStart) :=
  (ordered_run cfg es hclock hearly s).increasing

/-- Two cycles, the first sealed by a late overflow and the second by the tick. -/
theorem sentTo_increasing_overflow :
    let es : List Event := [⟨0, .status readyStatus⟩, ⟨0, .rtp (onePacket 0 0) 0⟩,
      ⟨115000000000, .rtp (onePacket 1 115) 0⟩, ⟨120000000000, .rtp (onePacket 2 120) 0⟩,
      ⟨231000000000, .tick .id⟩]
    (sentTo 9 ((machine shortCapture).outputs .initial es)).Pairwise
      (fun v w => v.windowStart < w.windowStart) := by
  intro es
  have hlate : (machine shortCapture).EveryStep
      (fun st e => ∀ a ∈ (step shortCapture st e).2, a.OnTime shortCapture e.now) .initial es := by
    decide +kernel
  exact sentTo_increasing shortCapture es (by decide)
    ((EventMachine.everyStep_iff_throughout.mp hlate).mono
      (fun _ _ _ h => noEarlyOverflow_of_onTime h)) 9

/-- A timestamp 200 seconds ahead seals the window in its first second; the next packet opens
a second one for the same cycle, which the tick seals again. -/
theorem sentTo_same_cycle :
    let es : List Event := [⟨0, .status readyStatus⟩, ⟨0, .rtp (onePacket 0 0) 0⟩,
      ⟨1000000000, .rtp (onePacket 1 200) 0⟩, ⟨2000000000, .rtp (onePacket 2 202) 0⟩,
      ⟨111000000000, .tick .id⟩]
    let sent := sentTo 9 ((machine shortCapture).outputs .initial es)
    Chronological es ∧ sent.map (fun w => w.windowStart) = [0, 0] ∧
      ¬ sent.Pairwise (fun v w => v.windowStart < w.windowStart) := by
  intro es sent
  exact ⟨by decide, by decide +kernel, by decide +kernel⟩

end Wsprrs.BufferTask
