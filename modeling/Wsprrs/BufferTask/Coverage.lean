import Wsprrs.BufferTask.Confinement
import Wsprrs.BufferTask.Reports
import Wsprrs.BufferTask.Timely

/-! No cycle is missed: with ticks every second and a capture of less than two minutes, the cycles
for which windows are sent are those in which packets were heard in time. -/
namespace Wsprrs.BufferTask
open Rtp Status

/-- A packet of a ready channel, in the cycle that begins with `start` and before its capture time
is over; `call` is what it is ingested as. -/
def HeardIn (cfg : Config) (s : UInt32) (start : ℤ) (st : State) (e : Event) (call : IngestCall) : Prop :=
  ∃ buf lag rtp info, e.input = .rtp buf lag ∧ parseRtpPacket buf = .ok rtp ∧ rtp.header.ssrc = s ∧
    passesFilter cfg s = true ∧ st.channelMap s = some info ∧ info.isAudioReady = true ∧
    evenMinuteBoundary e.now = start ∧ e.now < start + 1000000000*cfg.captureSeconds.toNat ∧
    call = ingestCall info rtp (e.now + lag)

/-- Within the capture time a window can be opened, unless `AudioWindow::new` panics. -/
theorem openWindow_of_early {captureSeconds : UInt32} (hpos : 0 < captureSeconds.toNat) {now : ℤ}
    {info : ChannelInfo} (h : now < evenMinuteBoundary now + 1000000000*captureSeconds.toNat)
    (hpanic : openPanics captureSeconds now info = false) :
    ∃ w, openWindow captureSeconds now info = some w := by
  have hlate : late captureSeconds now = false := by
    simp only [late, Duration.asSecs, elapsed_eq, decide_eq_false_iff_not]
    omega
  cases hopen : openWindow captureSeconds now info with
  | none => simp [openPanics, hlate, hopen] at hpanic
  | some w => exact ⟨w, rfl⟩

section
variable {cfg : Config} {es : List Event} {s : UInt32}

/-- A packet heard in time is delivered to the window of its cycle: an older window would have been
sealed by the ticks, and a new one is opened if the task survives that. -/
theorem delivers_of_heard (hsecs : cfg.captureSeconds.toNat ≤ 119) (hclock : Chronological es)
    (hepoch : ∀ e ∈ es, 0 ≤ e.now) (htick : Ticked es) {past rest : List Event} {e : Event}
    (hes : es = past ++ e::rest) {start : ℤ} {call : IngestCall}
    (h : HeardIn cfg s start ((machine cfg).after .initial past) e call)
    (hgo : (stepChecked cfg ((machine cfg).after .initial past) e).isSome) :
    ∃ w, Delivers cfg ((machine cfg).after .initial past) e s w call ∧ w.windowStart = start := by
  have hpos : 0 < cfg.captureSeconds.toNat := by
    have := cfg.captureSeconds_toNat
    omega
  obtain ⟨buf, lag, rtp, info, hinput, hparse, hssrc, hpass, hinfo, hready, hstart, hearly, rfl⟩ := h
  have hd : focus cfg s e = some ⟨e.now, .packet rtp lag⟩ := by
    simp [focus, hinput, hparse, hssrc, hpass]
  have hpaced : (Channel.machine cfg.captureSeconds).Throughout .initial
      (es.filterMap (focus cfg s)) (fun past _ e => Paced past e) :=
    throughout_channel (fun past e rest d hes hd => paced_of_ticked hclock hepoch htick hes hd)
  have hconfined := hpaced.of_invariant
    (I := fun past c _ => ∀ w, c.window = some w → Confined cfg.captureSeconds past w)
    (Q := fun past c _ => ∀ w, c.window = some w → Confined cfg.captureSeconds past w)
    (by simp [Channel.initial]) (fun past c out e h he => confined_step hpos h he)
    (fun past c out e h _ => h)
  have hopen := throughout_of_channel hconfined hes hd
  have he := throughout_of_channel hpaced hes hd
  have hchannel : (((machine cfg).after .initial past).channel s).info = some info := hinfo
  cases hwin : (((machine cfg).after .initial past).channel s).window with
  | some w =>
    refine ⟨w, ⟨_, hd, ?_⟩, ?_⟩
    · simp [Channel.delivery, hchannel, hready, hwin, Option.filter]
    · rw [← hstart, ((hopen w hwin).inCycle hsecs he).2.2]
  | none =>
    rw [← hstart] at hearly
    have hpanic : openPanics cfg.captureSeconds e.now info = false := by
      have hquiet := (stepChecked_isSome_iff cfg _ e).mp hgo s _ hd
      simpa [Channel.panics, hchannel, hready, hwin, Option.filter] using hquiet
    obtain ⟨w, hopened⟩ := openWindow_of_early hpos hearly hpanic
    refine ⟨w, ⟨_, hd, ?_⟩, (openWindow_time hopened).1.trans hstart⟩
    simp [Channel.delivery, hchannel, hready, hwin, Option.filter, hopened]

/-- The log of an SSRC from the step on in which a packet is handed to its window, if a tick at or
after the end of the capture time of this window follows. -/
theorem log_of_delivers (hclock : Chronological es) {past rest : List Event} {e : Event}
    (hes : es = past ++ e::rest) {w : AudioWindow} {call : IngestCall}
    (hdel : Delivers cfg ((machine cfg).after .initial past) e s w call) {tick : Event}
    {order : IterOrder} (hmem : tick ∈ es) (hinput : tick.input = .tick order)
    (hlate : captureEnd cfg.captureSeconds w ≤ tick.now) :
    ∃ opened calls log, (opened = [] ∨ opened = [.opened w]) ∧
      ((machine cfg).outputs ((machine cfg).after .initial past) (e::rest)).filterMap (Action.on s) =
        opened ++ feedLog w (call::calls) ++ .sent (w.ingestAll (call::calls)).1 :: log := by
  obtain ⟨d, hd, hdel⟩ := hdel
  have hopened := (unexpired_run cfg hclock s).1
  have hout := (projection cfg s).pick_outputs ((machine cfg).after .initial past) (e::rest)
  have hview := (projection cfg s).view_after ((machine cfg).after .initial past) (e::rest)
  rw [(projection cfg s).filterMap_cons, show (projection cfg s).focus e = some d from hd,
    Option.toList_some, List.singleton_append] at hout hview
  rw [← EventMachine.after_append, ← hes] at hview
  obtain ⟨calls, log, hlog⟩ | ⟨calls, hcalls⟩ :=
    outputs_delivered hdel (rest.filterMap (projection cfg s).focus)
  · refine ⟨_, calls, log, ?_, hout.trans hlog⟩
    split_ifs
    · exact .inr rfl
    · exact .inl rfl
  · have hwindow := (congrArg Channel.window hview).trans hcalls
    have hbefore := hopened _ hwindow _ (tick_mem_focus s hmem hinput) rfl
    have hstart : (w.ingestAll (call::calls)).1.windowStart = w.windowStart :=
      (AudioWindow.ingestAll_frame w (call::calls)).1
    simp only [captureEnd, hstart] at hbefore hlate
    omega

/-- With a capture of less than two minutes, on a clock that starts after the epoch, does not go
back and ticks every second: once the capture time of a cycle is over, every packet that was heard
in it in time, in a run that the task survives, was handed to a window of this cycle, and the log
goes on with what else was handed to it and with its sending; and only a packet heard in time makes
the task send a window of the cycle. -/
theorem cycles_captured (cfg : Config) (hsecs : cfg.captureSeconds.toNat ≤ 119) (es : List Event)
    (hclock : Chronological es) (hepoch : ∀ e ∈ es, 0 ≤ e.now) (htick : Ticked es) (s : UInt32)
    (start : ℤ) (hover : ∃ e ∈ es, (∃ order, e.input = .tick order) ∧
      start + 1000000000*cfg.captureSeconds.toNat ≤ e.now) :
    (∀ past e rest st out st' out' call, es = past ++ e::rest →
      (task cfg).run .initial past = some (st, out) → (task cfg).run st (e::rest) = some (st', out') →
        HeardIn cfg s start st e call →
          ∃ w opened calls log, Delivers cfg st e s w call ∧ w.windowStart = start ∧
            (opened = [] ∨ opened = [.opened w]) ∧ out'.filterMap (Action.on s) =
              opened ++ feedLog w (call::calls) ++ .sent (w.ingestAll (call::calls)).1 :: log) ∧
    ∀ w ∈ sentTo s ((machine cfg).outputs .initial es), w.windowStart = start →
      ∃ past e rest call, es = past ++ e::rest ∧
        HeardIn cfg s start ((machine cfg).after .initial past) e call := by
  constructor
  · intro past e rest st out st' out' call hes hpast hrest hheard
    obtain ⟨tick, hmem, ⟨order, hinput⟩, hlate⟩ := hover
    obtain ⟨rfl, -⟩ := FallibleMachine.run_total hpast
    have hgo := FallibleMachine.steps_of_run hrest [] e rest rfl
    obtain ⟨w, hdel, hstart⟩ := delivers_of_heard hsecs hclock hepoch htick hes hheard hgo
    obtain ⟨opened, calls, log, hopened, hlog⟩ := log_of_delivers hclock hes hdel hmem hinput
      (by rw [captureEnd, hstart]; exact hlate)
    obtain ⟨-, rfl⟩ := FallibleMachine.run_total hrest
    exact ⟨w, opened, calls, log, hdel, hstart, hopened, hlog⟩
  · rintro w hw rfl
    obtain ⟨past, e, rest, buf, lag, rtp, info, hes, hinput, hparse, hssrc, hpass, hinfo, hready,
      hstart, hspan, -, -⟩ := sentTo_entry cfg es hw
    refine ⟨past, e, rest, _, hes, buf, lag, rtp, info, hinput, hparse, hssrc, hpass, hinfo, hready,
      hstart.symm, ?_, rfl⟩
    simp only [openSpan] at hspan
    omega

end

/-- One packet at the beginning of a cycle: its window is sent in this cycle. -/
theorem cycles_captured_once :
    ∃ st out st' out' w opened calls log,
      (task shortCapture).run .initial [⟨0, .status readyStatus⟩] = some (st, out) ∧
      (task shortCapture).run st ((overrun 0).drop 1) = some (st', out') ∧ w.windowStart = 0 ∧
      out'.filterMap (Action.on 9) = opened ++ feedLog w (ingestCall readyInfo (oneRtp 0 0) 0 :: calls) ++
        .sent (w.ingestAll (ingestCall readyInfo (oneRtp 0 0) 0 :: calls)).1 :: log := by
  have htick : (⟨111000000000, .tick .id⟩ : Event) ∈ overrun 0 := by
    refine List.mem_append_left _ (List.mem_append_right _ (List.mem_map.mpr ⟨111, by decide, ?_⟩))
    norm_num
  have hgo : ((task shortCapture).run .initial [⟨0, .status readyStatus⟩]).any (fun r =>
      r.1.channelMap 9 = some readyInfo ∧ ((task shortCapture).run r.1 ((overrun 0).drop 1)).isSome) := by
    decide +kernel
  obtain ⟨⟨st, out⟩, hst, hready⟩ := (Option.any_eq_true _ _).mp hgo
  obtain ⟨hinfo, hrest⟩ := of_decide_eq_true hready
  obtain ⟨⟨st', out'⟩, hst'⟩ := Option.isSome_iff_exists.mp hrest
  obtain ⟨w, opened, calls, log, -, hstart, -, hlog⟩ := (cycles_captured shortCapture (by decide)
    (overrun 0) (chronological_overrun 0) (fun e he => (mem_overrun_now he).1) (ticked_overrun 0) 9 0
    ⟨_, htick, ⟨_, rfl⟩, by decide⟩).1 [⟨0, .status readyStatus⟩] ⟨0, .rtp (onePacket 0 0) 0⟩ _ st out
    st' out' _ rfl hst hst' ⟨onePacket 0 0, 0, oneRtp 0 0, readyInfo, rfl, parse_onePacket 0 0,
      by decide, by decide, hinfo, by decide, by decide, by decide, rfl⟩
  exact ⟨st, out, st', out', w, opened, calls, log, hst, hst', hstart, hlog⟩

end Wsprrs.BufferTask
