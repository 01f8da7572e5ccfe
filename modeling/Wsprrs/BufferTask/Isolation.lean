import Wsprrs.BufferTask.Channel

/-! No SSRC is influenced by the traffic of another, nor by the SSRC filter that lets it
through. -/
namespace Wsprrs.BufferTask
open Rtp Status

/-- A tick, or a datagram that its parser accepts as one of `s`. -/
def Concerns (s : UInt32) (e : Event) : Bool :=
  match e.input with
  | .status buf => (processStatusPacket buf (fun _ => none)).1 == some s
  | .rtp buf _ =>
    match parseRtpPacket buf with
    | .ok rtp => rtp.header.ssrc == s
    | .error _ => false
  | .tick _ => true

theorem concerns_of_focus {cfg : Config} {s : UInt32} {e : Event} {d : ChannelEvent}
    (h : focus cfg s e = some d) : Concerns s e = true := by
  obtain ⟨now, input⟩ := e
  cases input with
  | status buf =>
    simp only [focus] at h
    split_ifs at h with hs
    simp [Concerns, processStatusPacket_fst, hs]
  | rtp buf lag =>
    simp only [focus] at h
    cases hparse : parseRtpPacket buf with
    | error err => simp [hparse] at h
    | ok rtp =>
      simp only [hparse] at h
      split_ifs at h with hs
      simp [Concerns, hparse, hs.1]
  | tick order => rfl

/-- Erasing what does not concern `s` leaves what `s` sees. -/
theorem filterMap_focus_filter (cfg : Config) (s : UInt32) (es : List Event) :
    (es.filter (Concerns s)).filterMap (focus cfg s) = es.filterMap (focus cfg s) := by
  rw [List.filterMap_filter]
  congr 1
  funext e
  cases h : focus cfg s e with
  | none => simp
  | some d => simp [concerns_of_focus h]

theorem focus_filter {cfg : Config} (h : cfg.ssrcFilter = none) (s : UInt32) :
    focus { cfg with ssrcFilter := some s } s = focus cfg s := by
  funext e
  simp [focus, passesFilter, h]

/-- An SSRC that is given no packets does not make the task panic. -/
theorem not_panics_of_no_packet {captureSeconds : UInt32} {ds : List ChannelEvent}
    (h : ∀ d ∈ ds, ∀ rtp lag, d.input ≠ .packet rtp lag) :
    (Channel.machine captureSeconds).Throughout .initial ds
      (fun _ c d => c.panics captureSeconds d = false) := by
  rintro past ⟨now, input⟩ rest rfl
  cases input with
  | packet rtp lag => exact absurd rfl (h ⟨now, .packet rtp lag⟩ (by simp) rtp lag)
  | status fields => rfl
  | tick => rfl

/-- A packet of one SSRC does not concern another. -/
theorem no_packet_of_concerns {cfg : Config} {s ssrc : UInt32} (hne : ssrc ≠ s) {e : Event}
    {d : ChannelEvent} (hs : Concerns s e = true) (hd : focus cfg ssrc e = some d) (rtp : RtpPacket)
    (lag : ℕ) : d.input ≠ .packet rtp lag := by
  obtain ⟨now, input⟩ := e
  cases input with
  | status buf =>
    simp only [focus] at hd
    split_ifs at hd
    rw [← Option.some.inj hd]
    simp
  | tick order =>
    rw [← Option.some.inj hd]
    simp
  | rtp buf lag' =>
    simp only [focus, Concerns] at hd hs
    cases hparse : parseRtpPacket buf with
    | error err => simp [hparse] at hd
    | ok packet =>
      simp only [hparse, beq_iff_eq] at hd hs
      rw [if_neg (fun h => hne (h.1.symm.trans hs))] at hd
      contradiction

/-- Nor does it pass the filter for another. -/
theorem no_packet_of_filter {cfg : Config} {s ssrc : UInt32} (hne : ssrc ≠ s) {e : Event}
    {d : ChannelEvent} (hd : focus { cfg with ssrcFilter := some s } ssrc e = some d) (rtp : RtpPacket)
    (lag : ℕ) : d.input ≠ .packet rtp lag := by
  obtain ⟨now, input⟩ := e
  cases input with
  | status buf =>
    simp only [focus] at hd
    split_ifs at hd
    rw [← Option.some.inj hd]
    simp
  | tick order =>
    rw [← Option.some.inj hd]
    simp
  | rtp buf lag' =>
    simp only [focus, passesFilter] at hd
    cases hparse : parseRtpPacket buf with
    | error err => simp [hparse] at hd
    | ok packet => simp [hparse, hne] at hd

/-- A run that the task survives, and another one in which `s` sees the same and no other SSRC
sees any packets: the task survives that too, and sends the same windows for `s`. -/
theorem sentTo_of_focus_eq {cfg cfg' : Config} {s : UInt32} {es es' : List Event}
    {r : State × List Action} (hrun : (task cfg).run .initial es = some r)
    (hsecs : cfg'.captureSeconds = cfg.captureSeconds)
    (hsame : es'.filterMap (focus cfg' s) = es.filterMap (focus cfg s))
    (hquiet : ∀ ssrc, ssrc ≠ s → ∀ d ∈ es'.filterMap (focus cfg' ssrc), ∀ rtp lag,
      d.input ≠ .packet rtp lag) :
    ∃ r', (task cfg').run .initial es' = some r' ∧ sentTo s r.2 = sentTo s r'.2 := by
  have hgo : ((task cfg').run .initial es').isSome := by
    rw [run_isSome_iff, hsecs]
    intro ssrc
    by_cases hssrc : ssrc = s
    · rw [hssrc, hsame]
      exact (run_isSome_iff cfg es).mp (by rw [hrun]; rfl) s
    · exact not_panics_of_no_packet (hquiet ssrc hssrc)
  obtain ⟨r', hr'⟩ := Option.isSome_iff_exists.mp hgo
  refine ⟨r', hr', ?_⟩
  rw [(FallibleMachine.run_total hrun).2, (FallibleMachine.run_total hr').2]
  exact (sentTo_outputs cfg s es).trans (by rw [← hsame, ← hsecs]; exact (sentTo_outputs cfg' s es').symm)

/-- In a run that the task survives, the windows sent for `s` are the same if all that does not
concern `s` is erased from the run, and, where there is no filter, the same if the filter lets
only `s` through. The task survives those runs too. -/
theorem sentTo_isolated (cfg : Config) (s : UInt32) (es : List Event) (r : State × List Action)
    (hrun : (task cfg).run .initial es = some r) :
    (∃ r', (task cfg).run .initial (es.filter (Concerns s)) = some r' ∧
      sentTo s r.2 = sentTo s r'.2) ∧
    (cfg.ssrcFilter = none → ∃ r', (task { cfg with ssrcFilter := some s }).run .initial es = some r' ∧
      sentTo s r.2 = sentTo s r'.2) := by
  constructor
  · refine sentTo_of_focus_eq hrun rfl (filterMap_focus_filter _ s es) ?_
    intro ssrc hne d hd
    obtain ⟨e, he, hfocus⟩ := List.mem_filterMap.mp hd
    exact no_packet_of_concerns hne (List.mem_filter.mp he).2 hfocus
  · intro hnone
    have hsame : es.filterMap (focus { cfg with ssrcFilter := some s } s) =
        es.filterMap (focus cfg s) := by rw [focus_filter hnone]
    refine sentTo_of_focus_eq hrun rfl hsame ?_
    intro ssrc hne d hd
    obtain ⟨e, -, hfocus⟩ := List.mem_filterMap.mp hd
    exact no_packet_of_filter hne hfocus

/-- A packet of SSRC 7, which is not ready, and the window of SSRC 9. -/
theorem sentTo_isolated_two :
    let es : List Event := [⟨0, .status readyStatus⟩, ⟨0, .rtp (onePacket 0 0) 0⟩,
      ⟨0, .rtp [0x80,122,0,0, 0,0,0,0, 0,0,0,7, 0,7] 0⟩, ⟨111000000000, .tick .id⟩]
    ∃ r, (task shortCapture).run .initial es = some r ∧ (sentTo 9 r.2).length = 1 ∧
      (∃ r', (task shortCapture).run .initial (es.filter (Concerns 9)) = some r' ∧
        sentTo 9 r.2 = sentTo 9 r'.2) ∧
      ∃ r', (task { shortCapture with ssrcFilter := some 9 }).run .initial es = some r' ∧
        sentTo 9 r.2 = sentTo 9 r'.2 := by
  intro es
  have hgo : ((task shortCapture).run .initial es).any (fun r => (sentTo 9 r.2).length = 1) := by
    decide +kernel
  obtain ⟨r, hr, hsent⟩ := (Option.any_eq_true _ _).mp hgo
  obtain ⟨herased, hfiltered⟩ := sentTo_isolated shortCapture 9 es r hr
  exact ⟨r, hr, by simpa using hsent, herased, hfiltered rfl⟩

end Wsprrs.BufferTask
