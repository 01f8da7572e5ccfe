import Wsprrs.BufferTask.Conservation
import Wsprrs.BufferTask.Cycle

/-! When windows are sealed: at the first tick after their capture time or by the packet that
overflows them, and none is left behind. -/
namespace Wsprrs.BufferTask
open Rtp Status

/-- The end of the capture time of a window. -/
def captureEnd (captureSeconds : UInt32) (w : AudioWindow) : ℤ :=
  w.windowStart + 1000000000*captureSeconds.toNat

/-- No tick so far came after the capture time of the window. -/
def Unexpired (captureSeconds : UInt32) (past : List ChannelEvent) (w : AudioWindow) : Prop :=
  ∀ e ∈ past, e.input = .tick → e.now < captureEnd captureSeconds w

/-- A window is sent by a tick at the end of its capture time or by an overflow, and all ticks
before were too early for it. -/
def SentOnTime (captureSeconds : UInt32) (past : List ChannelEvent) (c : Channel) (e : ChannelEvent) :
    Prop :=
  ∀ w, .sent w ∈ (Channel.step captureSeconds c e).2 → Unexpired captureSeconds past w ∧
    (e.input = .tick ∧ captureEnd captureSeconds w ≤ e.now ∨
      ∃ v call, c.delivery captureSeconds e = some (v, call) ∧ v.Overflows call ∧ w = (v.ingest call).1)

section
variable {captureSeconds : UInt32} {past : List ChannelEvent} {c : Channel} {e : ChannelEvent}
  {w v : AudioWindow}

theorem Unexpired.congr (h : Unexpired captureSeconds past w) (hstart : v.windowStart = w.windowStart) :
    Unexpired captureSeconds past v := by
  intro e he htick
  rw [captureEnd, hstart]
  exact h e he htick

theorem Unexpired.concat (h : Unexpired captureSeconds past w)
    (he : e.input = .tick → e.now < captureEnd captureSeconds w) :
    Unexpired captureSeconds (past ++ [e]) w := by
  intro e' he' htick
  obtain he' | he' := List.mem_append.mp he'
  · exact h e' he' htick
  · obtain rfl := List.mem_singleton.mp he'
    exact he htick

/-- A window that a packet is delivered to has not expired. -/
theorem unexpired_of_delivery (hopen : ∀ w, c.window = some w → Unexpired captureSeconds past w)
    (hnow : ∀ e' ∈ past, e'.now ≤ e.now) {call : IngestCall}
    (hdel : c.delivery captureSeconds e = some (w, call)) : Unexpired captureSeconds past w := by
  obtain ⟨rtp, lag, info, -, -, -, hwin | ⟨-, hnew⟩, -⟩ := Channel.delivery_cases hdel
  · exact hopen w hwin
  · intro e' he' _
    have hbefore := hnow e' he'
    have hlate := (openWindow_time hnew).2
    simp only [openSpan] at hlate
    simp only [captureEnd]
    omega

theorem delivery_not_tick {call : IngestCall} (hdel : c.delivery captureSeconds e = some (w, call)) :
    e.input ≠ .tick := by
  obtain ⟨rtp, lag, info, hinput, -⟩ := Channel.delivery_cases hdel
  rw [hinput]
  simp

/-- A packet makes the task send the window that it overflows. -/
theorem sent_of_delivery {call : IngestCall}
    (h : .sent v ∈ (if c.window.isNone then [.opened w] else []) ++ (Channel.feed w call).2) :
    w.Overflows call ∧ v = (w.ingest call).1 := by
  have hsent : .sent v ∈ (Channel.feed w call).2 := by
    obtain h | h := List.mem_append.mp h
    · split_ifs at h <;> simp at h
    · exact h
  cases hres : (w.ingest call).2 with
  | ok u =>
    rw [Channel.feed_ok hres] at hsent
    simp at hsent
  | error err =>
    rw [Channel.feed_error hres] at hsent
    refine ⟨?_, by simpa using hsent⟩
    by_contra hfit
    rw [(AudioWindow.ingest_ok_iff w call).mpr hfit] at hres
    contradiction

/-- One event keeps the open window unexpired, and what it sends is sent on time. -/
theorem unexpired_step (hsecs : 0 < captureSeconds.toNat)
    (hopen : ∀ w, c.window = some w → Unexpired captureSeconds past w)
    (hnow : ∀ e' ∈ past, e'.now ≤ e.now) :
    (∀ w, (Channel.step captureSeconds c e).1.window = some w →
      Unexpired captureSeconds (past ++ [e]) w) ∧ SentOnTime captureSeconds past c e := by
  unfold SentOnTime
  obtain ⟨fields, hinput, hstep⟩ | ⟨-, hkept, hstep⟩ | ⟨w, hinput, hwin, hexp, hstep⟩ |
    ⟨w, call, hdel, hstep⟩ := Channel.step_cases captureSeconds c e <;> rw [hstep]
  · refine ⟨?_, by simp⟩
    intro w hw
    exact (hopen w hw).concat (by simp [hinput])
  · refine ⟨?_, by simp⟩
    intro w hw
    refine (hopen w hw).concat ?_
    intro htick
    by_contra hlate
    have hexp := (expired_iff hsecs e.now w).mpr (not_lt.mp hlate)
    rw [hkept htick w hw] at hexp
    contradiction
  · refine ⟨by simp, ?_⟩
    intro v hv
    obtain rfl : v = w := by simpa using hv
    exact ⟨hopen v hwin, .inl ⟨hinput, (expired_iff hsecs e.now v).mp hexp⟩⟩
  · have hold := unexpired_of_delivery hopen hnow hdel
    have hstart := (AudioWindow.ingest_frame w call).1
    constructor
    · intro v hv
      rw [Channel.feed_window hv]
      exact (hold.congr hstart).concat (fun htick => absurd htick (delivery_not_tick hdel))
    · intro v hv
      obtain ⟨hover, rfl⟩ := sent_of_delivery hv
      exact ⟨hold.congr hstart, .inr ⟨w, call, hdel, hover, rfl⟩⟩

end

/-- To one SSRC the clock does not go back either. -/
theorem channel_clock (cfg : Config) {es : List Event} (hclock : Chronological es) (s : UInt32) :
    (Channel.machine cfg.captureSeconds).Throughout .initial (es.filterMap (focus cfg s))
      (fun past _ e => ∀ e' ∈ past, e'.now ≤ e.now) := by
  apply throughout_channel
  intro past e rest d hes hd d' hd'
  obtain ⟨e', he', hfocus⟩ := List.mem_filterMap.mp hd'
  rw [focus_now hfocus, focus_now hd]
  exact hclock.past_le hes e' he'

theorem unexpired_run (cfg : Config) {es : List Event} (hclock : Chronological es) (s : UInt32) :
    (∀ w, (((machine cfg).after .initial es).channel s).window = some w →
      Unexpired cfg.captureSeconds (es.filterMap (focus cfg s)) w) ∧
    (Channel.machine cfg.captureSeconds).Throughout .initial (es.filterMap (focus cfg s))
      (SentOnTime cfg.captureSeconds) := by
  have hsecs : 0 < cfg.captureSeconds.toNat := by
    have := cfg.captureSeconds_toNat
    omega
  have hchannel := channel_clock cfg hclock s
  have hview : ((machine cfg).after .initial es).channel s =
      (Channel.machine cfg.captureSeconds).after .initial (es.filterMap (focus cfg s)) :=
    (projection cfg s).view_after .initial es
  rw [hview]
  constructor
  · exact hchannel.invariant
      (I := fun past c _ => ∀ w, c.window = some w → Unexpired cfg.captureSeconds past w)
      (by simp [Channel.initial]) (fun past c out e hopen hnow => (unexpired_step hsecs hopen hnow).1)
  · exact hchannel.of_invariant
      (I := fun past c _ => ∀ w, c.window = some w → Unexpired cfg.captureSeconds past w)
      (by simp [Channel.initial]) (fun past c out e hopen hnow => (unexpired_step hsecs hopen hnow).1)
      (fun past c out e hopen hnow => (unexpired_step hsecs hopen hnow).2)

/-- A tick is a tick to every SSRC. -/
theorem tick_mem_focus {cfg : Config} {es : List Event} {e : Event} {order : IterOrder} (s : UInt32)
    (he : e ∈ es) (htick : e.input = .tick order) :
    (⟨e.now, .tick⟩ : ChannelEvent) ∈ es.filterMap (focus cfg s) := by
  refine List.mem_filterMap.mpr ⟨e, he, ?_⟩
  obtain ⟨now, input⟩ := e
  cases htick
  rfl

theorem focus_tick {cfg : Config} {s : UInt32} {e : Event} {d : ChannelEvent}
    (h : focus cfg s e = some d) (hd : d.input = .tick) : ∃ order, e.input = .tick order := by
  obtain ⟨now, input⟩ := e
  cases input with
  | status buf =>
    simp only [focus] at h
    split_ifs at h
    rw [← Option.some.inj h] at hd
    contradiction
  | rtp buf lag =>
    simp only [focus] at h
    split at h
    · contradiction
    · split_ifs at h
      rw [← Option.some.inj h] at hd
      contradiction
  | tick order => exact ⟨order, rfl⟩

/-- The log from a moment on at which the window `w` is open: it is given packets until it is sent,
or it is still open at the end. -/
theorem outputs_open (captureSeconds : UInt32) {c : Channel} {w : AudioWindow} (hw : c.window = some w)
    (es : List ChannelEvent) :
    (∃ calls log, (Channel.machine captureSeconds).outputs c es =
      feedLog w calls ++ .sent (w.ingestAll calls).1 :: log) ∨
    ∃ calls, ((Channel.machine captureSeconds).after c es).window = some (w.ingestAll calls).1 := by
  induction es generalizing c w with
  | nil => exact .inr ⟨[], hw⟩
  | cons e es ih =>
    simp only [EventMachine.outputs_cons, EventMachine.after_cons, Channel.machine_step]
    obtain ⟨fields, -, hstep⟩ | ⟨-, -, hstep⟩ | ⟨v, -, hv, -, hstep⟩ | ⟨v, call, hdel, hstep⟩ :=
      Channel.step_cases captureSeconds c e
    · rw [hstep]
      exact ih hw
    · rw [hstep]
      exact ih hw
    · rw [hw] at hv
      cases hv
      rw [hstep]
      exact .inl ⟨[], _, rfl⟩
    · obtain ⟨rtp, lag, info, -, -, -, hv | ⟨hnone, -⟩, -⟩ := Channel.delivery_cases hdel
      · rw [hw] at hv
        cases hv
        rw [hstep, hw]
        cases hres : (w.ingest call).2 with
        | error err =>
          rw [Channel.feed_error hres]
          exact .inl ⟨[call], _, rfl⟩
        | ok u =>
          rw [Channel.feed_ok hres]
          obtain ⟨calls, log, hlog⟩ | ⟨calls, hopen⟩ := ih (c := { c with window := some (w.ingest call).1 }) rfl
          · refine .inl ⟨call::calls, log, ?_⟩
            rw [hlog]
            rfl
          · exact .inr ⟨call::calls, hopen⟩
      · rw [hw] at hnone
        contradiction

/-- The log from a packet on that is handed to the window `w`. -/
theorem outputs_delivered {captureSeconds : UInt32} {c : Channel} {e : ChannelEvent} {w : AudioWindow}
    {call : IngestCall} (hdel : c.delivery captureSeconds e = some (w, call)) (es : List ChannelEvent) :
    (∃ calls log, (Channel.machine captureSeconds).outputs c (e::es) =
      (if c.window.isNone then [.opened w] else []) ++ feedLog w (call::calls) ++
        .sent (w.ingestAll (call::calls)).1 :: log) ∨
    ∃ calls, ((Channel.machine captureSeconds).after c (e::es)).window =
      some (w.ingestAll (call::calls)).1 := by
  have hstep := Channel.step_delivery hdel
  simp only [EventMachine.outputs_cons, EventMachine.after_cons, Channel.machine_step, hstep]
  cases hres : (w.ingest call).2 with
  | error err =>
    rw [Channel.feed_error hres]
    refine .inl ⟨[], (Channel.machine captureSeconds).outputs { c with window := none } es, ?_⟩
    rw [List.append_assoc, List.append_assoc]
    rfl
  | ok u =>
    rw [Channel.feed_ok hres]
    obtain ⟨calls, log, hlog⟩ | ⟨calls, hopen⟩ := outputs_open captureSeconds
      (c := { c with window := some (w.ingest call).1 }) rfl es
    · refine .inl ⟨calls, log, ?_⟩
      rw [hlog, List.append_assoc, List.append_assoc]
      rfl
    · exact .inr ⟨calls, hopen⟩

/-- An opening stands at the head of the output of a packet. -/
theorem step_opened {captureSeconds : UInt32} {c : Channel} {e : ChannelEvent} {w : AudioWindow}
    {o o' : List WindowAct} (h : (Channel.step captureSeconds c e).2 = o ++ .opened w :: o') :
    ∃ call, c.delivery captureSeconds e = some (w, call) ∧ c.window = none ∧ o = [] := by
  obtain ⟨fields, -, hstep⟩ | ⟨-, -, hstep⟩ | ⟨v, -, -, -, hstep⟩ | ⟨v, call, hdel, hstep⟩ :=
    Channel.step_cases captureSeconds c e <;> rw [hstep] at h
  · simp at h
  · simp at h
  · cases o <;> simp at h
  · have hfeed (w : AudioWindow) : .opened w ∉ (Channel.feed v call).2 := by
      cases hres : (v.ingest call).2 with
      | ok u => simp [Channel.feed_ok hres]
      | error err => simp [Channel.feed_error hres]
    cases hwin : c.window with
    | some u =>
      rw [hwin] at h
      exact absurd (h ▸ by simp : .opened w ∈ (Channel.feed v call).2) (hfeed w)
    | none =>
      rw [hwin] at h
      cases o with
      | nil =>
        cases (List.cons.inj h).1
        exact ⟨call, hdel, rfl, rfl⟩
      | cons act o =>
        have htail : (Channel.feed v call).2 = o ++ .opened w :: o' := (List.cons.inj h).2
        exact absurd (htail ▸ by simp : .opened w ∈ (Channel.feed v call).2) (hfeed w)

/-- What follows an opening in the log, unless the window is still open at the end. -/
theorem outputs_opened {captureSeconds : UInt32} {es : List ChannelEvent} {w : AudioWindow}
    {before after : List WindowAct}
    (h : (Channel.machine captureSeconds).outputs .initial es = before ++ .opened w :: after) :
    (∃ calls log, after = feedLog w calls ++ .sent (w.ingestAll calls).1 :: log) ∨
    ∃ calls, ((Channel.machine captureSeconds).after .initial es).window =
      some (w.ingestAll calls).1 := by
  obtain ⟨past, e, rest, o, o', rfl, hstep, -, rfl⟩ := EventMachine.outputs_split h
  obtain ⟨call, hdel, hnone, rfl⟩ := step_opened hstep
  rw [EventMachine.after_append]
  obtain ⟨calls, log, hlog⟩ | ⟨calls, hopen⟩ := outputs_delivered hdel rest
  · rw [EventMachine.outputs_cons, hstep, hnone] at hlog
    exact .inl ⟨call::calls, log, (List.cons.inj hlog).2⟩
  · exact .inr ⟨call::calls, hopen⟩

/-- On a clock that does not go back: what is sent is sent by the first tick at or after the end
of its capture time, or by a packet that overflows it before such a tick; and if the task survives
the run, no window outlasts a tick at or after the end of its capture time: in the log of its SSRC
its opening is followed by the packets it was given and by its sending, with what they made of it. -/
theorem sealed_on_time (cfg : Config) (es : List Event) (hclock : Chronological es) (s : UInt32) :
    (∀ past e rest, es = past ++ e::rest → ∀ w,
      ⟨s, .sent w⟩ ∈ (step cfg ((machine cfg).after .initial past) e).2 →
        (∀ e' ∈ past, ∀ order, e'.input = .tick order → e'.now < captureEnd cfg.captureSeconds w) ∧
        ((∃ order, e.input = .tick order) ∧ captureEnd cfg.captureSeconds w ≤ e.now ∨
          ∃ v call, Delivers cfg ((machine cfg).after .initial past) e s v call ∧
            v.Overflows call ∧ w = (v.ingest call).1)) ∧
    (∀ st out, (task cfg).run .initial es = some (st, out) → ∀ w before after,
      out.filterMap (Action.on s) = before ++ .opened w :: after → ∀ e ∈ es, ∀ order,
        e.input = .tick order → captureEnd cfg.captureSeconds w ≤ e.now →
          ∃ calls log, after = feedLog w calls ++ .sent (w.ingestAll calls).1 :: log) := by
  obtain ⟨hopen, hsent⟩ := unexpired_run cfg hclock s
  constructor
  · intro past e rest hes w hw
    have hpick : (step cfg ((machine cfg).after .initial past) e).2.filterMap (Action.on s) = _ :=
      (projection cfg s).pick_step ((machine cfg).after .initial past) e
    have hmem : .sent w ∈ (step cfg ((machine cfg).after .initial past) e).2.filterMap (Action.on s) :=
      List.mem_filterMap.mpr ⟨_, hw, Action.on_self s _⟩
    rw [hpick] at hmem
    cases hd : focus cfg s e with
    | none => simp [projection, hd] at hmem
    | some d =>
      simp only [projection, hd, Option.toList_some, EventMachine.outputs_cons,
        EventMachine.outputs_nil, List.append_nil] at hmem
      obtain ⟨hbefore, hcause⟩ := throughout_of_channel hsent hes hd w hmem
      refine ⟨?_, ?_⟩
      · intro e' he' order htick
        exact hbefore _ (tick_mem_focus s he' htick) rfl
      · obtain ⟨htick, hlate⟩ | ⟨v, call, hdel, hover, hw⟩ := hcause
        · exact .inl ⟨focus_tick hd htick, by rwa [focus_now hd] at hlate⟩
        · exact .inr ⟨v, call, ⟨d, hd, hdel⟩, hover, hw⟩
  · intro st out hrun w before after hlog e he order htick hlate
    obtain ⟨-, rfl⟩ := FallibleMachine.run_total hrun
    have hview : ((machine cfg).after .initial es).channel s =
        (Channel.machine cfg.captureSeconds).after .initial (es.filterMap (focus cfg s)) :=
      (projection cfg s).view_after .initial es
    have hchannel : (Channel.machine cfg.captureSeconds).outputs .initial
        (es.filterMap (focus cfg s)) = before ++ .opened w :: after :=
      ((projection cfg s).pick_outputs .initial es).symm.trans hlog
    obtain hfed | ⟨calls, hcalls⟩ := outputs_opened hchannel
    · exact hfed
    · rw [← hview] at hcalls
      have hbefore := hopen _ hcalls _ (tick_mem_focus s he htick) rfl
      have hstart : (w.ingestAll calls).1.windowStart = w.windowStart :=
        (AudioWindow.ingestAll_frame w calls).1
      simp only [captureEnd, hstart] at hbefore hlate
      omega

/-- A tick one second before the end of the capture time leaves the window open, and the next
one seals it. -/
theorem sealed_on_time_tick :
    let es : List Event := [⟨0, .status readyStatus⟩, ⟨0, .rtp (onePacket 0 0) 0⟩,
      ⟨110000000000, .tick .id⟩, ⟨111000000000, .tick .id⟩]
    ∃ st out, (task shortCapture).run .initial es = some (st, out) ∧
      (sentTo 9 out).map (fun w => w.windowStart) = [0] ∧
      ∀ w before after, out.filterMap (Action.on 9) = before ++ .opened w :: after →
        captureEnd 111 w ≤ 111000000000 →
          ∃ calls log, after = feedLog w calls ++ .sent (w.ingestAll calls).1 :: log := by
  intro es
  have hgo : ((task shortCapture).run .initial es).any
      (fun r => (sentTo 9 r.2).map (fun w => w.windowStart) = [0]) := by decide +kernel
  obtain ⟨⟨st, out⟩, hrun, hsent⟩ := (Option.any_eq_true _ _).mp hgo
  refine ⟨st, out, hrun, by simpa using hsent, ?_⟩
  intro w before after hlog hend
  exact (sealed_on_time shortCapture es (by decide) 9).2 st out hrun w before after hlog
    ⟨111000000000, .tick .id⟩ (by simp [es]) .id rfl hend

end Wsprrs.BufferTask
