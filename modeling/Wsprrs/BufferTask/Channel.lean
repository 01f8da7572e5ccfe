import Wsprrs.Buffer.Ingest
import Wsprrs.BufferTask.Model
import Wsprrs.Status.Walk

/-! One SSRC on its own: a machine over that SSRC's fields, packets and ticks, and the proof
that the whole task behaves to each SSRC like that machine. -/
namespace Wsprrs.BufferTask
open Rtp Status

/-- All that the task keeps about one SSRC. -/
structure Channel where
  info : Option ChannelInfo
  window : Option AudioWindow

def Channel.initial : Channel := ⟨none, none⟩

inductive ChannelInput
  | status (fields : List (UInt8 × List UInt8))
  | packet (rtp : RtpPacket) (lag : ℕ)
  | tick

structure ChannelEvent where
  now : ℤ
  input : ChannelInput

theorem openWindow_eq_new {captureSeconds : UInt32} {now : ℤ} {info : ChannelInfo} {w : AudioWindow}
    (h : openWindow captureSeconds now info = some w) :
    w = AudioWindow.new (evenMinuteBoundary now) info.centerFreqHz info.sampleRateHz captureSeconds := by
  simp only [openWindow, AudioWindow.newChecked] at h
  split_ifs at h
  exact (Option.some.inj h).symm

namespace Channel

/-- The window a packet goes to and the call it becomes, if it is not skipped. -/
def delivery (captureSeconds : UInt32) (c : Channel) (e : ChannelEvent) :
    Option (AudioWindow × IngestCall) :=
  match e.input with
  | .packet rtp lag =>
    (c.info.filter ChannelInfo.isAudioReady).bind (fun info =>
      (c.window <|> openWindow captureSeconds e.now info).map (fun window =>
        (window, ingestCall info rtp (e.now + lag))))
  | _ => none

/-- Ingesting one packet, and sealing the window if it overflows. -/
def feed (window : AudioWindow) (call : IngestCall) : Option AudioWindow × List WindowAct :=
  let r := window.ingest call
  match r.2 with
  | .ok () => (some r.1, [.ingested window call])
  | .error _ => (none, [.ingested window call, .sent r.1])

def step (captureSeconds : UInt32) (c : Channel) (e : ChannelEvent) : Channel × List WindowAct :=
  match e.input with
  | .status fields => ({ c with info := some ((collect fields).apply (c.info.getD {})) }, [])
  | .packet _ _ =>
    match c.delivery captureSeconds e with
    | none => (c, [])
    | some (window, call) =>
      let r := feed window call
      ({ c with window := r.1 }, (if c.window.isNone then [.opened window] else []) ++ r.2)
  | .tick =>
    match c.window with
    | some window =>
      if expired captureSeconds e.now window then ({ c with window := none }, [.sent window])
      else (c, [])
    | none => (c, [])

def machine (captureSeconds : UInt32) : EventMachine Channel ChannelEvent WindowAct :=
  ⟨step captureSeconds⟩

@[simp] theorem machine_step (captureSeconds : UInt32) :
    (machine captureSeconds).step = step captureSeconds := rfl

/-- The packet makes the task panic: it would open a window that is too large. -/
def panics (captureSeconds : UInt32) (c : Channel) (e : ChannelEvent) : Bool :=
  match e.input with
  | .packet _ _ =>
    c.window.isNone && (c.info.filter ChannelInfo.isAudioReady).any (openPanics captureSeconds e.now)
  | _ => false

theorem feed_ok {w : AudioWindow} {call : IngestCall} (h : (w.ingest call).2 = .ok ()) :
    feed w call = (some (w.ingest call).1, [.ingested w call]) := by
  simp only [feed, h]

theorem feed_error {w : AudioWindow} {call : IngestCall} {err : WsprError}
    (h : (w.ingest call).2 = .error err) :
    feed w call = (none, [.ingested w call, .sent (w.ingest call).1]) := by
  simp only [feed, h]

theorem feed_window {w v : AudioWindow} {call : IngestCall} (h : (feed w call).1 = some v) :
    v = (w.ingest call).1 := by
  cases hres : (w.ingest call).2 with
  | ok u =>
    rw [feed_ok hres] at h
    exact (Option.some.inj h).symm
  | error err =>
    rw [feed_error hres] at h
    contradiction

/-- A delivered packet belongs to a ready channel; it goes to the open window, or to a new
one if there is none. -/
theorem delivery_cases {captureSeconds : UInt32} {c : Channel} {e : ChannelEvent} {w : AudioWindow}
    {call : IngestCall} (h : c.delivery captureSeconds e = some (w, call)) :
    ∃ rtp lag info, e.input = .packet rtp lag ∧ c.info = some info ∧ info.isAudioReady = true ∧
      (c.window = some w ∨ c.window = none ∧ openWindow captureSeconds e.now info = some w) ∧
      call = ingestCall info rtp (e.now + lag) := by
  obtain ⟨now, input⟩ := e
  cases input with
  | status fields => simp [delivery] at h
  | tick => simp [delivery] at h
  | packet rtp lag =>
    simp only [delivery, Option.bind_eq_some_iff, Option.filter_eq_some_iff, Option.map_eq_some_iff,
      Prod.mk.injEq] at h
    obtain ⟨info, ⟨hinfo, hready⟩, v, hv, rfl, rfl⟩ := h
    refine ⟨rtp, lag, info, rfl, hinfo, hready, ?_, rfl⟩
    cases hwin : c.window with
    | none => exact Or.inr ⟨rfl, by simpa [hwin] using hv⟩
    | some u => exact Or.inl (by simpa [hwin] using hv)

/-- A packet is given to a window exactly when it is delivered. -/
theorem ingested_mem_step {captureSeconds : UInt32} {c : Channel} {e : ChannelEvent}
    {w : AudioWindow} {call : IngestCall} :
    .ingested w call ∈ (step captureSeconds c e).2 ↔ c.delivery captureSeconds e = some (w, call) := by
  obtain ⟨now, input⟩ := e
  cases input with
  | status fields => simp [step, delivery]
  | tick =>
    simp only [step, delivery]
    split
    · split_ifs <;> simp
    · simp
  | packet rtp lag =>
    have hfeed (v : AudioWindow) (k : IngestCall) :
        .ingested w call ∈ (feed v k).2 ↔ (v, k) = (w, call) := by
      cases hres : (v.ingest k).2 with
      | ok u => simp [feed_ok hres, eq_comm]
      | error err => simp [feed_error hres, eq_comm]
    simp only [step]
    cases hdel : c.delivery captureSeconds ⟨now, .packet rtp lag⟩ with
    | none => simp
    | some d =>
      have hnot : .ingested w call ∉ (if c.window.isNone then [WindowAct.opened d.1] else []) := by
        split_ifs <;> simp
      simp only [List.mem_append, hnot, false_or, hfeed, Option.some.injEq]

/-- All that one event can do to a channel. -/
theorem step_cases (captureSeconds : UInt32) (c : Channel) (e : ChannelEvent) :
    (∃ fields, e.input = .status fields ∧ step captureSeconds c e =
      ({ c with info := some ((collect fields).apply (c.info.getD {})) }, [])) ∨
    ((∀ fields, e.input ≠ .status fields) ∧
      (e.input = .tick → ∀ w, c.window = some w → expired captureSeconds e.now w = false) ∧
      step captureSeconds c e = (c, [])) ∨
    (∃ w, e.input = .tick ∧ c.window = some w ∧ expired captureSeconds e.now w = true ∧
      step captureSeconds c e = ({ c with window := none }, [.sent w])) ∨
    (∃ w call, c.delivery captureSeconds e = some (w, call) ∧ step captureSeconds c e =
      ({ c with window := (feed w call).1 },
        (if c.window.isNone then [.opened w] else []) ++ (feed w call).2)) := by
  obtain ⟨now, input⟩ := e
  cases input with
  | status fields => exact Or.inl ⟨fields, rfl, rfl⟩
  | tick =>
    cases hwin : c.window with
    | none => exact Or.inr (Or.inl ⟨by simp, by simp, by simp [step, hwin]⟩)
    | some w =>
      cases hexp : expired captureSeconds now w with
      | false => exact Or.inr (Or.inl ⟨by simp, by simp [hexp], by simp [step, hwin, hexp]⟩)
      | true => exact Or.inr (Or.inr (Or.inl ⟨w, rfl, rfl, hexp, by simp [step, hwin, hexp]⟩))
  | packet rtp lag =>
    cases hdel : c.delivery captureSeconds ⟨now, .packet rtp lag⟩ with
    | none => exact Or.inr (Or.inl ⟨by simp, by simp, by simp [step, hdel]⟩)
    | some d => exact Or.inr (Or.inr (Or.inr ⟨d.1, d.2, rfl, by simp [step, hdel]⟩))

theorem step_delivery {captureSeconds : UInt32} {c : Channel} {e : ChannelEvent} {w : AudioWindow}
    {call : IngestCall} (h : c.delivery captureSeconds e = some (w, call)) :
    step captureSeconds c e = ({ c with window := (feed w call).1 },
      (if c.window.isNone then [.opened w] else []) ++ (feed w call).2) := by
  obtain ⟨rtp, lag, info, hinput, -⟩ := delivery_cases h
  simp only [step, hinput, h]

end Channel

/-- Actions on the windows of one SSRC. -/
def Action.on (s : UInt32) (a : Action) : Option WindowAct :=
  if a.ssrc = s then some a.act else none

theorem Action.on_self (s : UInt32) (act : WindowAct) : Action.on s ⟨s, act⟩ = some act := if_pos rfl

theorem Action.on_ne {s ssrc : UInt32} (h : ssrc ≠ s) (act : WindowAct) :
    Action.on s ⟨ssrc, act⟩ = none := if_neg h

/-- All that concerns one SSRC in an event. -/
def focus (cfg : Config) (s : UInt32) (e : Event) : Option ChannelEvent :=
  match e.input with
  | .status buf =>
    if packetSsrc buf = some s then some ⟨e.now, .status (packetFields buf)⟩ else none
  | .rtp buf lag =>
    match parseRtpPacket buf with
    | .error _ => none
    | .ok rtp =>
      if rtp.header.ssrc = s ∧ passesFilter cfg s then some ⟨e.now, .packet rtp lag⟩ else none
  | .tick _ => some ⟨e.now, .tick⟩

theorem focus_status {cfg : Config} {s : UInt32} {e : Event} {d : ChannelEvent}
    {fs : List (UInt8 × List UInt8)} (h : focus cfg s e = some d) (hd : d.input = .status fs) :
    ∃ buf, e.input = .status buf ∧ packetSsrc buf = some s ∧ fs = packetFields buf := by
  obtain ⟨now, input⟩ := e
  cases input with
  | status buf =>
    simp only [focus] at h
    split_ifs at h with hs
    rw [← Option.some.inj h] at hd
    exact ⟨buf, rfl, hs, (ChannelInput.status.inj hd).symm⟩
  | rtp buf lag =>
    simp only [focus] at h
    split at h
    · contradiction
    · split_ifs at h
      rw [← Option.some.inj h] at hd
      contradiction
  | tick order =>
    rw [← Option.some.inj h] at hd
    contradiction

def State.channel (s : UInt32) (st : State) : Channel := ⟨st.channelMap s, st.windows.lookup s⟩

section Seal
variable (windows : Windows) (s : UInt32)

theorem sealWindow_self :
    (sealWindow windows s).1.lookup s = none ∧
    (sealWindow windows s).2 = (windows.lookup s).toList.map (fun w => ⟨s, .sent w⟩) := by
  unfold sealWindow
  cases h : windows.lookup s with
  | none => exact ⟨h, rfl⟩
  | some window => exact ⟨AList.lookup_erase s windows, rfl⟩

theorem sealWindow_ne {ssrc : UInt32} (h : ssrc ≠ s) :
    (sealWindow windows ssrc).1.lookup s = windows.lookup s ∧
    (sealWindow windows ssrc).2.filterMap (Action.on s) = [] := by
  unfold sealWindow
  cases windows.lookup ssrc with
  | none => exact ⟨rfl, rfl⟩
  | some window =>
    refine ⟨AList.lookup_erase_ne h.symm, ?_⟩
    simp [Action.on_ne h]

theorem filterMap_sent (o : Option AudioWindow) :
    (o.toList.map (fun w => (⟨s, .sent w⟩ : Action))).filterMap (Action.on s) =
      o.toList.map WindowAct.sent := by
  cases o <;> simp [Action.on_self]

/-- Sealing a list of distinct SSRCs concerns those in the list, and each of them once. -/
theorem sealAll_at (l : List UInt32) (hl : l.Nodup) :
    (sealAll windows l).1.lookup s = (if s ∈ l then none else windows.lookup s) ∧
    (sealAll windows l).2.filterMap (Action.on s) =
      (if s ∈ l then (windows.lookup s).toList.map WindowAct.sent else []) := by
  induction l generalizing windows with
  | nil => simp [sealAll]
  | cons ssrc rest ih =>
    obtain ⟨hnot, hrest⟩ := List.nodup_cons.mp hl
    obtain ⟨ihlookup, ihacts⟩ := ih (sealWindow windows ssrc).1 hrest
    simp only [sealAll, List.filterMap_append, ihlookup, ihacts]
    by_cases h : ssrc = s
    · subst h
      obtain ⟨hlookup, hacts⟩ := sealWindow_self windows ssrc
      rw [if_neg hnot, if_neg hnot, if_pos (by simp), if_pos (by simp), hlookup, hacts,
        filterMap_sent]
      exact ⟨rfl, List.append_nil _⟩
    · obtain ⟨hlookup, hacts⟩ := sealWindow_ne windows s h
      simp [hlookup, hacts, Ne.symm h]

theorem mem_expiredSsrcs (cfg : Config) (now : ℤ) (order : IterOrder) :
    s ∈ expiredSsrcs cfg now order windows ↔
      (windows.lookup s).any (expired cfg.captureSeconds now) = true := by
  have hkeys : s ∈ order.1 windows.keys ↔ s ∈ windows.keys := (order.2 windows.keys).mem_iff
  constructor
  · intro h
    exact (List.mem_filter.mp h).2
  · intro h
    refine List.mem_filter.mpr ⟨hkeys.mpr ?_, h⟩
    exact AList.lookup_isSome.mp (Option.isSome_of_any h)

theorem nodup_expiredSsrcs (cfg : Config) (now : ℤ) (order : IterOrder) :
    (expiredSsrcs cfg now order windows).Nodup :=
  ((order.2 windows.keys).nodup_iff.mpr windows.keys_nodup).filter _

end Seal

theorem handleTick_at (cfg : Config) (now : ℤ) (order : IterOrder) (windows : Windows)
    (map : ChannelMap) (s : UInt32) :
    Channel.step cfg.captureSeconds (State.channel s ⟨map, windows⟩) ⟨now, .tick⟩ =
      (State.channel s ⟨map, (handleTick cfg now order windows).1⟩,
        (handleTick cfg now order windows).2.filterMap (Action.on s)) := by
  obtain ⟨hlookup, hacts⟩ := sealAll_at windows s _ (nodup_expiredSsrcs windows cfg now order)
  have hmem := mem_expiredSsrcs windows s cfg now order
  simp only [handleTick, State.channel, hlookup, hacts, hmem, Channel.step]
  cases windows.lookup s with
  | none => rfl
  | some window =>
    simp only [Option.any_some]
    split_ifs <;> rfl

/-- After a packet has been ingested, the arms for its result act on its SSRC alone; the
arm that drops the window is never taken. -/
theorem afterIngest_at (windows : Windows) (ssrc : UInt32) (window : AudioWindow)
    (call : IngestCall) :
    let r := window.ingest call
    let rs := afterIngest (windows.insert ssrc r.1) ssrc r.1 r.2
    rs.1.lookup ssrc = (Channel.feed window call).1 ∧
    WindowAct.ingested window call :: rs.2.filterMap (Action.on ssrc) = (Channel.feed window call).2 ∧
    ∀ s, ssrc ≠ s → rs.1.lookup s = windows.lookup s ∧ rs.2.filterMap (Action.on s) = [] := by
  intro r rs
  have hne (s : UInt32) (h : ssrc ≠ s) : (windows.insert ssrc r.1).lookup s = windows.lookup s :=
    AList.lookup_insert_ne h.symm
  cases hres : r.2 with
  | ok u =>
    have hrs : rs = (windows.insert ssrc r.1, []) := by simp only [rs, hres, afterIngest]
    rw [hrs, Channel.feed_ok hres]
    exact ⟨AList.lookup_insert _, rfl, fun s h => ⟨hne s h, rfl⟩⟩
  | error err =>
    have hover := AudioWindow.ingest_error hres
    have hrs : rs = sealWindow (windows.insert ssrc r.1) ssrc := by
      simp only [rs, hres, hover, afterIngest]
    obtain ⟨hlookup, hacts⟩ := sealWindow_self (windows.insert ssrc r.1) ssrc
    rw [hrs, Channel.feed_error hres]
    refine ⟨hlookup, ?_, fun s h => ?_⟩
    · rw [hacts, filterMap_sent, AList.lookup_insert]
      rfl
    · obtain ⟨hlookup', hacts'⟩ := sealWindow_ne (windows.insert ssrc r.1) s h
      exact ⟨hlookup'.trans (hne s h), hacts'⟩

section Packet
variable {buf : List UInt8} {rtp : RtpPacket} {ssrc : UInt32} {cfg : Config}

/-- A packet that is not skipped: its window is created if need be and then fed. -/
theorem handlePacket_delivery (hparse : parseRtpPacket buf = .ok rtp)
    (hssrc : rtp.header.ssrc = ssrc) (hfilter : passesFilter cfg ssrc = true) (now : ℤ) (lag : ℕ)
    (map : ChannelMap) (windows : Windows) :
    (handlePacket cfg now lag map windows buf).getD (windows, []) =
      match (State.channel ssrc ⟨map, windows⟩).delivery cfg.captureSeconds ⟨now, .packet rtp lag⟩ with
      | none => (windows, [])
      | some (window, call) =>
        let fresh := (windows.lookup ssrc).isNone
        let r := window.ingest call
        let rs := afterIngest ((if fresh then windows.insert ssrc window else windows).insert ssrc r.1)
          ssrc r.1 r.2
        (rs.1, (if fresh then [⟨ssrc, .opened window⟩] else []) ++ ⟨ssrc, .ingested window call⟩ :: rs.2) := by
  subst hssrc
  simp only [handlePacket, hparse, hfilter, Channel.delivery, getOrOpen, State.channel]
  cases hinfo : map rtp.header.ssrc with
  | none => rfl
  | some info =>
    cases hready : info.isAudioReady with
    | false => simp [Option.filter, hready]
    | true =>
      cases hwin : windows.lookup rtp.header.ssrc with
      | some window => simp [Option.filter, hready]
      | none =>
        cases hopen : openWindow cfg.captureSeconds now info with
        | none =>
          cases hlate : late cfg.captureSeconds now <;>
            simp [Option.filter, hready, hopen, openPanics, hlate]
        | some window => simp [Option.filter, hready, hopen, openPanics]

/-- To every other SSRC the packet is invisible; its own sees what the channel machine does. -/
theorem handlePacket_at (hparse : parseRtpPacket buf = .ok rtp)
    (hssrc : rtp.header.ssrc = ssrc) (hfilter : passesFilter cfg ssrc = true) (now : ℤ) (lag : ℕ)
    (map : ChannelMap) (windows : Windows) :
    let r := (handlePacket cfg now lag map windows buf).getD (windows, [])
    Channel.step cfg.captureSeconds (State.channel ssrc ⟨map, windows⟩) ⟨now, .packet rtp lag⟩ =
      (State.channel ssrc ⟨map, r.1⟩, r.2.filterMap (Action.on ssrc)) ∧
    ∀ s, ssrc ≠ s → r.1.lookup s = windows.lookup s ∧ r.2.filterMap (Action.on s) = [] := by
  rw [handlePacket_delivery hparse hssrc hfilter]
  simp only [Channel.step]
  cases hdel : (State.channel ssrc ⟨map, windows⟩).delivery cfg.captureSeconds
      ⟨now, .packet rtp lag⟩ with
  | none => exact ⟨rfl, fun s h => ⟨rfl, rfl⟩⟩
  | some d =>
    obtain ⟨window, call⟩ := d
    obtain ⟨hself, hacts, hne⟩ := afterIngest_at
      (if (windows.lookup ssrc).isNone then windows.insert ssrc window else windows) ssrc window call
    have hopened (s : UInt32) : (if (windows.lookup ssrc).isNone then
        [(⟨ssrc, .opened window⟩ : Action)] else []).filterMap (Action.on s) =
        if ssrc = s then (if (windows.lookup ssrc).isNone then [.opened window] else []) else [] := by
      by_cases h : ssrc = s <;> split_ifs <;> simp [Action.on, h]
    refine ⟨?_, fun s h => ?_⟩
    · simp only [State.channel, List.filterMap_append, List.filterMap_cons, hopened, if_true,
        Action.on_self, hself, hacts]
      rfl
    · obtain ⟨hlookup, hquiet⟩ := hne s h
      simp only [List.filterMap_append, List.filterMap_cons, hopened, if_neg h, Action.on_ne h]
      refine ⟨hlookup.trans ?_, hquiet⟩
      split_ifs
      · exact AList.lookup_insert_ne (Ne.symm h)
      · rfl

theorem handlePacket_rejected (h : passesFilter cfg rtp.header.ssrc = false)
    (hparse : parseRtpPacket buf = .ok rtp) (now : ℤ) (lag : ℕ) (map : ChannelMap)
    (windows : Windows) : handlePacket cfg now lag map windows buf = some (windows, []) := by
  simp only [handlePacket, hparse, h, if_true]

theorem handlePacket_isSome_iff (hparse : parseRtpPacket buf = .ok rtp)
    (hfilter : passesFilter cfg rtp.header.ssrc = true) (now : ℤ) (lag : ℕ) (map : ChannelMap)
    (windows : Windows) :
    (handlePacket cfg now lag map windows buf).isSome ↔
      (State.channel rtp.header.ssrc ⟨map, windows⟩).panics cfg.captureSeconds
        ⟨now, .packet rtp lag⟩ = false := by
  simp only [handlePacket, hparse, hfilter, Channel.panics, State.channel]
  cases map rtp.header.ssrc with
  | none => simp
  | some info =>
    cases hready : info.isAudioReady with
    | false => simp [hready, Option.filter]
    | true =>
      simp only [Option.filter, hready, if_true, Option.any_some]
      cases hpanic : (windows.lookup rtp.header.ssrc).isNone &&
          openPanics cfg.captureSeconds now info with
      | true => simp
      | false => cases getOrOpen cfg now info windows rtp.header.ssrc <;> simp

end Packet

theorem step_rtp (cfg : Config) (map : ChannelMap) (windows : Windows) (now : ℤ) (buf : List UInt8)
    (lag : ℕ) :
    let r := (handlePacket cfg now lag map windows buf).getD (windows, [])
    step cfg ⟨map, windows⟩ ⟨now, .rtp buf lag⟩ = (⟨map, r.1⟩, r.2) := by
  simp only [step, stepChecked]
  cases handlePacket cfg now lag map windows buf <;> rfl

theorem step_status (cfg : Config) (st : State) (now : ℤ) (buf : List UInt8) :
    step cfg st ⟨now, .status buf⟩ =
      ({ st with channelMap := (processStatusPacket buf st.channelMap).2 }, []) := rfl

/-- One event as one SSRC sees it. -/
theorem step_at (cfg : Config) (s : UInt32) (st : State) (e : Event) :
    (State.channel s (step cfg st e).1, (step cfg st e).2.filterMap (Action.on s)) =
      match focus cfg s e with
      | none => (State.channel s st, [])
      | some d => Channel.step cfg.captureSeconds (State.channel s st) d := by
  obtain ⟨map, windows⟩ := st
  obtain ⟨now, input⟩ := e
  cases input with
  | status buf =>
    simp only [step_status, focus, processStatusPacket_eq, State.channel]
    cases h : packetSsrc buf with
    | none => rfl
    | some ssrc =>
      by_cases hs : ssrc = s
      · subst hs
        simp [Channel.step]
      · simp [hs, Function.update_of_ne (Ne.symm hs)]
  | rtp buf lag =>
    simp only [step_rtp, focus]
    cases hparse : parseRtpPacket buf with
    | error err => simp [handlePacket, hparse]
    | ok rtp =>
      cases hfilter : passesFilter cfg rtp.header.ssrc with
      | false =>
        rw [handlePacket_rejected hfilter hparse]
        have hnot : ¬ (rtp.header.ssrc = s ∧ passesFilter cfg s = true) := by
          rintro ⟨rfl, h⟩
          simp [hfilter] at h
        simp [if_neg hnot]
      | true =>
        obtain ⟨hself, hne⟩ := handlePacket_at hparse rfl hfilter now lag map windows
        by_cases hs : rtp.header.ssrc = s
        · subst hs
          simp [hfilter, hself]
        · obtain ⟨hlookup, hacts⟩ := hne s hs
          simp [hs, hlookup, hacts, State.channel]
  | tick order => exact (handleTick_at cfg now order windows map s).symm

theorem channel_step {cfg : Config} {s : UInt32} {st : State} {e : Event} {d : ChannelEvent}
    (hd : focus cfg s e = some d) :
    (step cfg st e).1.channel s = (Channel.step cfg.captureSeconds (st.channel s) d).1 := by
  have h := congrArg Prod.fst (step_at cfg s st e)
  rw [hd] at h
  exact h

theorem channel_step_none {cfg : Config} {s : UInt32} {st : State} {e : Event}
    (hd : focus cfg s e = none) : (step cfg st e).1.channel s = st.channel s := by
  have h := congrArg Prod.fst (step_at cfg s st e)
  rw [hd] at h
  exact h

/-- The whole task, seen by one SSRC, is the channel machine. -/
def projection (cfg : Config) (s : UInt32) :
    (machine cfg).Projection (Channel.machine cfg.captureSeconds) where
  view := State.channel s
  focus := focus cfg s
  pick := Action.on s
  view_step st e := by
    cases hf : focus cfg s e with
    | none => exact channel_step_none hf
    | some d => exact channel_step hf
  pick_step st e := by
    have h := congrArg Prod.snd (step_at cfg s st e)
    cases hf : focus cfg s e with
    | none =>
      rw [hf] at h
      exact h
    | some d =>
      rw [hf] at h
      exact h.trans (List.append_nil _).symm

/-- A law of the task at the events of one SSRC is a law of its channel machine. -/
theorem throughout_channel {cfg : Config} {s : UInt32} {es : List Event}
    {P : List ChannelEvent → Channel → ChannelEvent → Prop}
    (h : ∀ past e rest d, es = past ++ e::rest → focus cfg s e = some d →
      P (past.filterMap (focus cfg s)) (((machine cfg).after .initial past).channel s) d) :
    (Channel.machine cfg.captureSeconds).Throughout .initial (es.filterMap (focus cfg s)) P :=
  (projection cfg s).throughout (fun past e rest hes d hd => h past e rest d hes hd)

theorem throughout_of_channel {cfg : Config} {s : UInt32} {es : List Event}
    {P : List ChannelEvent → Channel → ChannelEvent → Prop}
    (h : (Channel.machine cfg.captureSeconds).Throughout .initial (es.filterMap (focus cfg s)) P)
    {past rest : List Event} {e : Event} {d : ChannelEvent} (hes : es = past ++ e::rest)
    (hd : focus cfg s e = some d) :
    P (past.filterMap (focus cfg s)) (((machine cfg).after .initial past).channel s) d := by
  have hrun : (machine cfg).Throughout .initial es (fun past st e => ∀ d, focus cfg s e = some d →
      P (past.filterMap (focus cfg s)) (st.channel s) d) :=
    (projection cfg s).throughout_of_focus (s := State.initial) h
  exact hrun past e rest hes d hd

/-- A step panics exactly if it does so for one of the SSRCs it concerns. -/
theorem stepChecked_isSome_iff (cfg : Config) (st : State) (e : Event) :
    (stepChecked cfg st e).isSome ↔
      ∀ s d, focus cfg s e = some d → (st.channel s).panics cfg.captureSeconds d = false := by
  obtain ⟨now, input⟩ := e
  cases input with
  | status buf =>
    refine iff_of_true rfl ?_
    intro s d hd
    simp only [focus] at hd
    split_ifs at hd
    rw [← Option.some.inj hd]
    rfl
  | tick order =>
    refine iff_of_true rfl ?_
    intro s d hd
    rw [← Option.some.inj hd]
    rfl
  | rtp buf lag =>
    simp only [stepChecked, Option.isSome_map, focus]
    cases hparse : parseRtpPacket buf with
    | error err => simp [handlePacket, hparse]
    | ok rtp =>
      have hfocus (s : UInt32) (d : ChannelEvent) : (if rtp.header.ssrc = s ∧ passesFilter cfg s then
          some (⟨now, .packet rtp lag⟩ : ChannelEvent) else none) = some d ↔
          (rtp.header.ssrc = s ∧ passesFilter cfg s) ∧ ⟨now, .packet rtp lag⟩ = d := by
        simp
      simp only [hfocus]
      cases hfilter : passesFilter cfg rtp.header.ssrc with
      | false =>
        rw [handlePacket_rejected hfilter hparse]
        refine iff_of_true rfl ?_
        rintro s d ⟨⟨rfl, hpass⟩, -⟩
        rw [hfilter] at hpass
        contradiction
      | true =>
        rw [handlePacket_isSome_iff hparse hfilter]
        constructor
        · rintro h s d ⟨⟨rfl, -⟩, rfl⟩
          exact h
        · intro h
          exact h _ _ ⟨⟨rfl, hfilter⟩, rfl⟩

/-- The task survives a run exactly if no SSRC makes it panic. -/
theorem run_isSome_iff (cfg : Config) (es : List Event) :
    ((task cfg).run .initial es).isSome ↔ ∀ s, (Channel.machine cfg.captureSeconds).Throughout
      .initial (es.filterMap (focus cfg s)) (fun _ c d => c.panics cfg.captureSeconds d = false) := by
  constructor
  · intro h s
    obtain ⟨r, hr⟩ := Option.isSome_iff_exists.mp h
    apply throughout_channel
    intro past e rest d hes hd
    exact (stepChecked_isSome_iff cfg _ e).mp (FallibleMachine.steps_of_run hr past e rest hes) s d hd
  · intro h
    have hsteps : (machine cfg).Throughout .initial es (fun _ st e => (stepChecked cfg st e).isSome) := by
      intro past e rest hes
      rw [stepChecked_isSome_iff]
      intro s d hd
      exact throughout_of_channel (h s) hes hd
    rw [show (task cfg).run .initial es = some _ from FallibleMachine.run_of_steps hsteps]
    rfl

/-- A packet for `s` passes the filter and the readiness check, and is handed to the window
`w` as `call`. -/
def Delivers (cfg : Config) (st : State) (e : Event) (s : UInt32) (w : AudioWindow)
    (call : IngestCall) : Prop :=
  ∃ d, focus cfg s e = some d ∧ (st.channel s).delivery cfg.captureSeconds d = some (w, call)

theorem ingested_mem_step {cfg : Config} {st : State} {e : Event} {s : UInt32} {w : AudioWindow}
    {call : IngestCall} :
    ⟨s, .ingested w call⟩ ∈ (step cfg st e).2 ↔ Delivers cfg st e s w call := by
  have hstep := (projection cfg s).pick_step st e
  have hmem : (⟨s, .ingested w call⟩ : Action) ∈ (step cfg st e).2 ↔
      .ingested w call ∈ (step cfg st e).2.filterMap (Action.on s) := by
    rw [List.mem_filterMap]
    constructor
    · intro h
      exact ⟨_, h, Action.on_self s _⟩
    · rintro ⟨⟨ssrc, act⟩, h, ha⟩
      unfold Action.on at ha
      split_ifs at ha with hs
      cases ha
      subst hs
      exact h
  rw [hmem, show (step cfg st e).2.filterMap (Action.on s) = _ from hstep, Delivers]
  cases hd : focus cfg s e with
  | none => simp [projection, hd]
  | some d => simp [projection, hd, Channel.ingested_mem_step]

def WindowAct.sent? : WindowAct → Option AudioWindow
  | .sent window => some window
  | _ => none

@[simp] theorem WindowAct.sent?_sent (w : AudioWindow) : (WindowAct.sent w).sent? = some w := rfl
@[simp] theorem WindowAct.sent?_opened (w : AudioWindow) : (WindowAct.opened w).sent? = none := rfl
@[simp] theorem WindowAct.sent?_ingested (w : AudioWindow) (call : IngestCall) :
    (WindowAct.ingested w call).sent? = none := rfl

/-- The open window of one SSRC is that of its channel machine. -/
theorem lookup_after (cfg : Config) (s : UInt32) (es : List Event) :
    ((machine cfg).after .initial es).windows.lookup s =
      ((Channel.machine cfg.captureSeconds).after .initial (es.filterMap (focus cfg s))).window :=
  congrArg Channel.window ((projection cfg s).view_after .initial es)

/-- The windows sent for one SSRC are those that its channel machine sends. -/
theorem sentTo_outputs (cfg : Config) (s : UInt32) (es : List Event) :
    sentTo s ((machine cfg).outputs .initial es) =
      ((Channel.machine cfg.captureSeconds).outputs .initial
        (es.filterMap (focus cfg s))).filterMap WindowAct.sent? := by
  have hrun : ((machine cfg).outputs .initial es).filterMap (Action.on s) =
      (Channel.machine cfg.captureSeconds).outputs .initial (es.filterMap (focus cfg s)) :=
    (projection cfg s).pick_outputs .initial es
  rw [← hrun, sentTo, List.filterMap_filterMap]
  congr 1
  funext a
  obtain ⟨ssrc, act⟩ := a
  by_cases h : ssrc = s
  · subst h
    rw [Action.on_self]
    cases act <;> simp [WindowAct.sent?]
  · rw [Action.on_ne h]
    cases act <;> simp [h]

end Wsprrs.BufferTask
