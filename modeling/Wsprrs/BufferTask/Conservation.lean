import Wsprrs.BufferTask.Channel

/-! What becomes of every window: the log of one SSRC is a sequence of complete episodes,
each from a window's creation to its sending, and possibly one that is still open. -/
namespace Wsprrs
namespace AudioWindow

theorem ingestAll_frame (w : AudioWindow) (calls : List IngestCall) :
    (w.ingestAll calls).1.windowStart = w.windowStart ∧
    (w.ingestAll calls).1.centerFreqHz = w.centerFreqHz ∧
    (w.ingestAll calls).1.sampleRateHz = w.sampleRateHz := by
  induction calls generalizing w with
  | nil => exact ⟨rfl, rfl, rfl⟩
  | cons call calls ih =>
    obtain ⟨hstart, hfreq, hrate, -⟩ := ingest_frame w call
    obtain ⟨hstart', hfreq', hrate'⟩ := ih (w.ingest call).1
    exact ⟨hstart'.trans hstart, hfreq'.trans hfreq, hrate'.trans hrate⟩

theorem ingestAll_concat (w : AudioWindow) (calls : List IngestCall) (call : IngestCall) :
    (w.ingestAll (calls ++ [call])).1 = ((w.ingestAll calls).1.ingest call).1 := by
  induction calls generalizing w with
  | nil => rfl
  | cons c calls ih => exact ih (w.ingest c).1

end AudioWindow

namespace BufferTask
open Rtp Status

/-- The log of a window that is given packets one after the other. -/
def feedLog (w : AudioWindow) : List IngestCall → List WindowAct
  | [] => []
  | call::calls => .ingested w call :: feedLog (w.ingest call).1 calls

theorem feedLog_concat (w : AudioWindow) (calls : List IngestCall) (call : IngestCall) :
    feedLog w (calls ++ [call]) = feedLog w calls ++ [.ingested (w.ingestAll calls).1 call] := by
  induction calls generalizing w with
  | nil => rfl
  | cons c calls ih =>
    simp only [List.cons_append, feedLog, ih]
    rfl

/-- One window: the values it was created with, and the packets routed to it so far. -/
structure Episode where
  windowStart : ℤ
  centerFreqHz : F64
  sampleRateHz : UInt32
  calls : List IngestCall

namespace Episode
variable (captureSeconds : UInt32) (ep : Episode)

def created : AudioWindow :=
  AudioWindow.new ep.windowStart ep.centerFreqHz ep.sampleRateHz captureSeconds

/-- What the calls routed to the window have made of it. -/
def contents : AudioWindow := ((ep.created captureSeconds).ingestAll ep.calls).1

def openLog : List WindowAct := .opened (ep.created captureSeconds) :: feedLog (ep.created captureSeconds) ep.calls
def sentLog : List WindowAct := ep.openLog captureSeconds ++ [.sent (ep.contents captureSeconds)]

end Episode

/-- The log is made of the complete episodes `closed` and the open one, if any, which has
produced the window that is open. -/
structure Accounted (captureSeconds : UInt32) (log : List WindowAct) (window : Option AudioWindow)
    (closed : List Episode) (current : Option Episode) : Prop where
  log_eq : log = closed.flatMap (Episode.sentLog captureSeconds) ++
    current.toList.flatMap (Episode.openLog captureSeconds)
  window_eq : window = current.map (Episode.contents captureSeconds)

namespace Accounted
variable {captureSeconds : UInt32} {log : List WindowAct} {window : Option AudioWindow}
  {w : AudioWindow} {closed : List Episode} {current : Option Episode}

theorem opened (h : Accounted captureSeconds log none closed current) (ep : Episode)
    (hcalls : ep.calls = []) :
    Accounted captureSeconds (log ++ [.opened (ep.created captureSeconds)])
      (some (ep.created captureSeconds)) closed (some ep) := by
  have hcurrent : current = none := by simpa using h.window_eq
  refine ⟨?_, ?_⟩
  · rw [h.log_eq, hcurrent]
    simp [Episode.openLog, hcalls, feedLog]
  · simp [Episode.contents, hcalls, AudioWindow.ingestAll]

theorem ingested (h : Accounted captureSeconds log (some w) closed current) (call : IngestCall) :
    ∃ next, Accounted captureSeconds (log ++ [.ingested w call]) (some (w.ingest call).1) closed
      (some next) := by
  obtain ⟨ep, rfl, hw⟩ := Option.map_eq_some_iff.mp h.window_eq.symm
  refine ⟨{ ep with calls := ep.calls ++ [call] }, ?_, ?_⟩
  · rw [h.log_eq, ← hw]
    simp only [Option.toList_some, List.flatMap_singleton, Episode.openLog, Episode.created,
      feedLog_concat, Episode.contents, List.append_assoc, List.cons_append]
  · rw [← hw]
    simp only [Option.map_some, Episode.contents, Episode.created, AudioWindow.ingestAll_concat]

theorem sent (h : Accounted captureSeconds log (some w) closed current) :
    ∃ ep, Accounted captureSeconds (log ++ [.sent w]) none (closed ++ [ep]) none := by
  obtain ⟨ep, rfl, hw⟩ := Option.map_eq_some_iff.mp h.window_eq.symm
  refine ⟨ep, ?_, rfl⟩
  rw [h.log_eq, ← hw]
  simp [Episode.sentLog]

/-- An accounted log never throws a window away. -/
theorem not_dropped (h : Accounted captureSeconds log window closed current) (w : AudioWindow) :
    .dropped w ∉ log := by
  have hfeed (v : AudioWindow) (calls : List IngestCall) : .dropped w ∉ feedLog v calls := by
    induction calls generalizing v with
    | nil => simp [feedLog]
    | cons c calls ih => simpa [feedLog] using ih (v.ingest c).1
  rw [h.log_eq]
  simp [Episode.sentLog, Episode.openLog, hfeed]

end Accounted

/-- Feeding a window continues its episode, and completes it if the window is sealed. -/
theorem accounted_feed {captureSeconds : UInt32} {log : List WindowAct} {w : AudioWindow}
    {closed : List Episode} {current : Option Episode}
    (h : Accounted captureSeconds log (some w) closed current) (call : IngestCall) :
    ∃ closed' current', Accounted captureSeconds (log ++ (Channel.feed w call).2)
      (Channel.feed w call).1 closed' current' := by
  obtain ⟨next, hnext⟩ := h.ingested call
  cases hres : (w.ingest call).2 with
  | ok u =>
    rw [Channel.feed_ok hres]
    exact ⟨closed, some next, hnext⟩
  | error err =>
    obtain ⟨ep, hep⟩ := hnext.sent
    rw [Channel.feed_error hres]
    exact ⟨closed ++ [ep], none, by simpa using hep⟩

/-- One event keeps the account. -/
theorem accounted_step {captureSeconds : UInt32} {log : List WindowAct} {c : Channel}
    {closed : List Episode} {current : Option Episode}
    (h : Accounted captureSeconds log c.window closed current) (e : ChannelEvent) :
    ∃ closed' current', Accounted captureSeconds (log ++ (Channel.step captureSeconds c e).2)
      (Channel.step captureSeconds c e).1.window closed' current' := by
  obtain ⟨fields, -, hstep⟩ | ⟨-, -, hstep⟩ | ⟨w, -, hwin, -, hstep⟩ | ⟨w, call, hdel, hstep⟩ :=
    Channel.step_cases captureSeconds c e
  · rw [hstep]
    exact ⟨closed, current, by simpa using h⟩
  · rw [hstep]
    exact ⟨closed, current, by simpa using h⟩
  · rw [hwin] at h
    obtain ⟨ep, hep⟩ := h.sent
    rw [hstep]
    exact ⟨closed ++ [ep], none, hep⟩
  · obtain ⟨rtp, lag, info, -, -, -, hwin | ⟨hwin, hopen⟩, -⟩ := Channel.delivery_cases hdel
    · rw [hwin] at h
      rw [hstep, hwin]
      exact accounted_feed h call
    · let ep : Episode := ⟨evenMinuteBoundary e.now, info.centerFreqHz, info.sampleRateHz, []⟩
      have hw : w = ep.created captureSeconds := openWindow_eq_new hopen
      rw [hwin] at h
      have hopened := h.opened ep rfl
      rw [← hw] at hopened
      rw [hstep, hwin]
      simpa using accounted_feed hopened call

theorem accounted_run (captureSeconds : UInt32) (es : List ChannelEvent) :
    ∃ closed current, Accounted captureSeconds ((Channel.machine captureSeconds).outputs .initial es)
      ((Channel.machine captureSeconds).after .initial es).window closed current := by
  induction es using List.reverseRecOn with
  | nil => exact ⟨[], none, rfl, rfl⟩
  | append_singleton es e ih =>
    obtain ⟨closed, current, h⟩ := ih
    simpa using accounted_step h e

/-- The log of one SSRC is accounted for after every run. -/
theorem accounted (cfg : Config) (es : List Event) (s : UInt32) :
    ∃ closed current, Accounted cfg.captureSeconds
      (((machine cfg).outputs .initial es).filterMap (Action.on s))
      (((machine cfg).after .initial es).windows.lookup s) closed current := by
  obtain ⟨closed, current, h⟩ := accounted_run cfg.captureSeconds (es.filterMap (focus cfg s))
  have hlog : ((machine cfg).outputs .initial es).filterMap (Action.on s) =
      (Channel.machine cfg.captureSeconds).outputs .initial (es.filterMap (focus cfg s)) :=
    (projection cfg s).pick_outputs .initial es
  have hview : State.channel s ((machine cfg).after .initial es) =
      (Channel.machine cfg.captureSeconds).after .initial (es.filterMap (focus cfg s)) :=
    (projection cfg s).view_after .initial es
  rw [← hlog, ← hview] at h
  exact ⟨closed, current, h⟩

/-- In every run that the task survives and for every SSRC, the windows created are those of a
list of complete episodes, each sent once with what its own packets made of it, and of the one
that is open, which has not been sent. The arm that drops a window is never taken. -/
theorem windows_conserved (cfg : Config) (es : List Event) (st : State) (out : List Action)
    (hrun : (task cfg).run .initial es = some (st, out)) :
    (∀ a ∈ out, ∀ w, a.act ≠ .dropped w) ∧
    ∀ s, ∃ closed current, Accounted cfg.captureSeconds (out.filterMap (Action.on s))
      (st.windows.lookup s) closed current := by
  obtain ⟨rfl, rfl⟩ := FallibleMachine.run_total hrun
  refine ⟨?_, accounted cfg es⟩
  rintro ⟨s, act⟩ ha w rfl
  obtain ⟨closed, current, h⟩ := accounted cfg es s
  exact h.not_dropped w (List.mem_filterMap.mpr ⟨_, ha, Action.on_self s _⟩)

/-- Two windows of SSRC 9, the first sealed by a packet that overflows it. -/
theorem windows_conserved_overflow :
    let es : List Event := [⟨0, .status readyStatus⟩, ⟨0, .rtp (onePacket 0 0) 0⟩,
      ⟨115000000000, .rtp (onePacket 1 115) 0⟩, ⟨120000000000, .rtp (onePacket 2 120) 0⟩]
    ∃ r, (task shortCapture).run .initial es = some r ∧ (sentTo 9 r.2).length = 1 ∧
      ∃ closed current, Accounted 111 (r.2.filterMap (Action.on 9)) (r.1.windows.lookup 9) closed
        current := by
  intro es
  have hgo : ((task shortCapture).run .initial es).any (fun r => (sentTo 9 r.2).length = 1) := by
    decide +kernel
  obtain ⟨r, hr, hsent⟩ := (Option.any_eq_true _ _).mp hgo
  exact ⟨r, hr, by simpa using hsent, (windows_conserved shortCapture es r.1 r.2 hr).2 9⟩

end BufferTask
end Wsprrs
