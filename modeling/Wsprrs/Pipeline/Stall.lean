import Wsprrs.Pipeline.Flow

/-! Whether the buffer task ever waits for spot output: it does where more windows are to be
sent, while a result is being handled, than the window channel can take. -/
namespace Wsprrs.BufferTask
open Rtp Pipeline

/-- Distinct SSRCs that all have a window are sealed one by one. -/
theorem sealedBy_sealAll (windows : Windows) {l : List UInt32} (hl : l.Nodup)
    (hmem : ∀ s ∈ l, (windows.lookup s).isSome) : (sealedBy (sealAll windows l).2).length = l.length := by
  induction l generalizing windows with
  | nil => rfl
  | cons ssrc rest ih =>
    obtain ⟨hnot, hrest⟩ := List.nodup_cons.mp hl
    obtain ⟨window, hwin⟩ := Option.isSome_iff_exists.mp (hmem ssrc (by simp))
    have hsealed : sealWindow windows ssrc = (windows.erase ssrc, [⟨ssrc, .sent window⟩]) := by
      simp only [sealWindow, hwin]
    have hkept : ∀ s ∈ rest, ((windows.erase ssrc).lookup s).isSome := by
      intro s hs
      have hne : s ≠ ssrc := by
        rintro rfl
        exact hnot hs
      rw [AList.lookup_erase_ne hne]
      exact hmem s (List.mem_cons_of_mem _ hs)
    have htail := ih (windows.erase ssrc) hrest hkept
    simp only [sealAll, hsealed, sealedBy_append, List.length_append, htail, List.length_cons]
    simp [sealedBy, Nat.add_comm]

/-- A tick seals the windows that have expired. -/
theorem sealedBy_tick (cfg : Config) (st : State) (now : ℤ) (order : IterOrder) :
    (sealedBy (step cfg st ⟨now, .tick order⟩).2).length =
      (expiredSsrcs cfg now order st.windows).length := by
  refine sealedBy_sealAll st.windows (nodup_expiredSsrcs st.windows cfg now order) ?_
  intro s hs
  exact Option.isSome_of_any ((mem_expiredSsrcs st.windows s cfg now order).mp hs)

/-- A packet seals the window that it overflows, if it is delivered to one. -/
theorem sealedBy_packet (cfg : Config) (st : State) (now : ℤ) (buf : List UInt8) (lag : ℕ) :
    let e : Event := ⟨now, .rtp buf lag⟩
    (sealedBy (step cfg st e).2).length = 1 ∧
        (∃ s w call, Delivers cfg st e s w call ∧ w.Overflows call) ∨
      sealedBy (step cfg st e).2 = [] ∧ ∀ s w call, Delivers cfg st e s w call → ¬ w.Overflows call := by
  intro e
  obtain ⟨map, windows⟩ := st
  simp only [← ingested_mem_step, e, step_rtp]
  cases hparse : parseRtpPacket buf with
  | error err =>
    right
    simp [handlePacket, hparse, sealedBy]
  | ok rtp =>
    cases hfilter : passesFilter cfg rtp.header.ssrc with
    | false =>
      right
      simp [handlePacket_rejected hfilter hparse, sealedBy]
    | true =>
      simp only [handlePacket_delivery hparse rfl hfilter]
      cases (State.channel rtp.header.ssrc ⟨map, windows⟩).delivery cfg.captureSeconds
          ⟨now, .packet rtp lag⟩ with
      | none => exact .inr ⟨rfl, by simp⟩
      | some d =>
        obtain ⟨window, call⟩ := d
        have hopened : sealedBy (if (windows.lookup rtp.header.ssrc).isNone then
            [⟨rtp.header.ssrc, .opened window⟩] else []) = [] := by
          split_ifs <;> rfl
        cases hres : (window.ingest call).2 with
        | ok u =>
          have hfit := (AudioWindow.ingest_ok_iff window call).mp hres
          refine .inr ⟨?_, ?_⟩
          · rw [sealedBy_append, hopened, hres]
            rfl
          · intro s w k hmem
            obtain ⟨-, rfl, rfl⟩ : s = rtp.header.ssrc ∧ w = window ∧ k = call := by
              simpa [hres, afterIngest] using hmem
            exact hfit
        | error err =>
          have hover : window.Overflows call := by
            by_contra hfit
            rw [(AudioWindow.ingest_ok_iff window call).mpr hfit] at hres
            contradiction
          refine .inl ⟨?_, rtp.header.ssrc, window, call, by simp, hover⟩
          rw [sealedBy_append, hopened, hres, AudioWindow.ingest_error hres]
          simp [afterIngest, sealWindow, sealedBy]

/-- An event makes the task seal no more than `room` windows: those that have expired at a
tick, and the one that a packet overflows. -/
def SealsAtMost (cfg : Config) (st : State) (e : Event) (room : ℕ) : Prop :=
  (∀ order, e.input = .tick order → (expiredSsrcs cfg e.now order st.windows).length ≤ room) ∧
  (∀ s w call, Delivers cfg st e s w call → w.Overflows call → 1 ≤ room)

theorem sealsAtMost_iff (cfg : Config) (st : State) (e : Event) (room : ℕ) :
    SealsAtMost cfg st e room ↔ (sealedBy (step cfg st e).2).length ≤ room := by
  obtain ⟨now, input⟩ := e
  cases input with
  | status buf =>
    have hquiet : ∀ s w call, ¬ Delivers cfg st ⟨now, .status buf⟩ s w call := by
      simp [← ingested_mem_step, step_status]
    simp [SealsAtMost, hquiet, step_status, sealedBy]
  | tick order =>
    have hquiet : ∀ s w call, ¬ Delivers cfg st ⟨now, .tick order⟩ s w call := by
      simp [Delivers, focus, Channel.delivery]
    rw [sealedBy_tick]
    simp [SealsAtMost, hquiet]
  | rtp buf lag =>
    obtain ⟨hone, s, w, call, hdel, hover⟩ | ⟨hnone, hfit⟩ := sealedBy_packet cfg st now buf lag
    · rw [hone]
      constructor
      · intro h
        exact h.2 s w call hdel hover
      · intro h
        exact ⟨by simp, fun _ _ _ _ _ => h⟩
    · rw [hnone]
      refine iff_of_true ⟨by simp, ?_⟩ (Nat.zero_le room)
      intro s w call hdel hover
      exact absurd hover (hfit s w call hdel)

end Wsprrs.BufferTask

namespace Wsprrs.Pipeline
open Shutdown DecodeTask

/-- The decode task is inside the output handling of a result. -/
def writing (st : State) : Bool :=
  match st.output.phase with
  | .writing .. => true
  | _ => false

/-- The buffer task is suspended in a send to the full channel, and the decode task is inside
the output handling of the result of an earlier window. -/
def Stalled (st : State) : Prop :=
  st.sealing ≠ [] ∧ st.output.winQueue.length = WINDOW_CHAN_CAP ∧ writing st = true

instance (st : State) : Decidable (Stalled st) := inferInstanceAs (Decidable (_ ∧ _ ∧ _))

/-- At `select!`, with no window queued and a successful decode to take. -/
def takesResult (st : DecodeTask.State) : Bool :=
  st.phase = .selecting && st.winQueue.isEmpty && !st.winClosed &&
    match st.spotQueue with
    | (_,.ok _)::_ => true
    | _ => false

/-- The windows that the buffer task seals while a result is being handled fit into the room
left in the channel, and those still to be sent when a result is taken fit into the channel. -/
def Fits (cfg : Config) (st : State) : Event → Prop
  | .capture d => captures st d = true → writing st = true →
      BufferTask.SealsAtMost cfg st.capture d (WINDOW_CHAN_CAP - st.output.winQueue.length)
  | .advance => takesResult st.output = true → st.sealing.length ≤ WINDOW_CHAN_CAP
  | _ => True

/-- While a result is being handled, all that is to be sent fits into the channel. -/
def RoomLeft (st : State) : Prop :=
  writing st = true → st.output.winQueue.length + st.sealing.length ≤ WINDOW_CHAN_CAP

section
variable (cfg : Config) (sinks : Sinks) (toJson : WsprSpot → Except Text Text)
  {past : List Event} {st : State} {out : List Action}

theorem RoomLeft.not_stalled (h : RoomLeft st) : ¬ Stalled st := by
  rintro ⟨hseal, hfull, hwriting⟩
  have hsum := h hwriting
  have hpos := List.length_pos_iff.mpr hseal
  omega

/-- A send moves a window from what is to be sent into the channel. -/
theorem step_send (h : Flow past st out) {window : AudioWindow} {rest : List AudioWindow}
    (hseal : st.sealing = window::rest) (hroom : st.output.winQueue.length < WINDOW_CHAN_CAP) :
    (step cfg sinks toJson st .send).1 =
      { st with sealing := rest,
                output := { st.output with winQueue := st.output.winQueue ++ [window] } } := by
  obtain ⟨hopen, hrun⟩ := h.running (by simp [hseal])
  have hstep : DecodeTask.step sinks toJson st.output (.arrive window) =
      ({ st.output with winQueue := st.output.winQueue ++ [window] }, []) := by
    rw [DecodeTask.step, if_neg (by simp [hopen, hrun])]
  simp [step, hseal, hroom, outputStep, hstep, receivedBy]

theorem roomLeft_capture (h : Flow past st out) (hroom : RoomLeft st) {d : BufferTask.Event}
    (hfits : Fits cfg st (.capture d)) : RoomLeft (step cfg sinks toJson st (.capture d)).1 := by
  by_cases hcan : captures st d = true
  · rw [step, if_pos hcan]
    rintro (hwriting : writing st = true)
    have hfit := (BufferTask.sealsAtMost_iff _ _ _ _).mp (hfits hcan hwriting)
    have hbound := h.bounded
    have hold := hroom hwriting
    obtain ⟨now, input⟩ := d
    simp only [List.length_append]
    cases input with
    | status buf => simpa [BufferTask.step_status, sealedBy] using hold
    | rtp buf lag =>
      have hnil : st.sealing.length = 0 := by simp_all [captures]
      omega
    | tick order =>
      have hnil : st.sealing.length = 0 := by simp_all [captures]
      omega
  · rw [step, if_neg hcan]
    exact hroom

theorem roomLeft_advance (hroom : RoomLeft st) (hfits : Fits cfg st .advance) :
    RoomLeft (step cfg sinks toJson st .advance).1 := by
  intro hwriting
  simp only [step, outputStep, DecodeTask.step] at hwriting ⊢
  cases hphase : st.output.phase with
  | returned => simp [writing, DecodeTask.advance, hphase] at hwriting
  | writing id rest spots windowStart =>
    have hold := hroom (by simp [writing, hphase])
    cases rest with
    | nil => simp [writing, DecodeTask.advance, hphase] at hwriting
    | cons spot rest => simpa [DecodeTask.advance, hphase] using hold
  | selecting =>
    cases hwin : st.output.winQueue with
    | cons window rest => simp [writing, DecodeTask.advance, poll, hphase, hwin] at hwriting
    | nil =>
      cases hclosed : st.output.winClosed with
      | true => simp [writing, DecodeTask.advance, poll, hphase, hwin, hclosed] at hwriting
      | false =>
        cases hqueue : st.output.spotQueue with
        | nil => simp [writing, DecodeTask.advance, poll, hphase, hwin, hclosed, hqueue] at hwriting
        | cons p rest =>
          obtain ⟨id, result⟩ := p
          cases result with
          | error e =>
            simp [writing, DecodeTask.advance, poll, takeResult, hphase, hwin, hclosed, hqueue]
              at hwriting
          | ok r =>
            have hfit := hfits (by simp [takesResult, hphase, hwin, hclosed, hqueue])
            simpa [DecodeTask.advance, poll, takeResult, hphase, hwin, hclosed, hqueue] using hfit

/-- A step that fits leaves room. -/
theorem roomLeft_step (h : Flow past st out) (hroom : RoomLeft st) {e : Event}
    (hfits : Fits cfg st e) : RoomLeft (step cfg sinks toJson st e).1 := by
  cases e with
  | capture d => exact roomLeft_capture cfg sinks toJson h hroom hfits
  | advance => exact roomLeft_advance cfg sinks toJson hroom hfits
  | send =>
    cases hseal : st.sealing with
    | nil => simpa [step, hseal] using hroom
    | cons window rest =>
      by_cases hlt : st.output.winQueue.length < WINDOW_CHAN_CAP
      · rw [step_send cfg sinks toJson h hseal hlt]
        rintro (hwriting : writing st = true)
        have hold := hroom hwriting
        rw [hseal, List.length_cons] at hold
        simp only [List.length_append, List.length_singleton]
        omega
      · simpa [step, hseal, hlt] using hroom
  | complete id outcome =>
    cases hwin : st.spawned[id]? with
    | none => simpa [step, hwin] using hroom
    | some window =>
      simp only [step, hwin, outputStep, DecodeTask.step]
      split_ifs <;> exact hroom
  | leave =>
    by_cases hseal : st.sealing = []
    · simp only [step, if_pos hseal, outputStep, DecodeTask.step]
      exact hroom
    · simpa [step, hseal] using hroom

/-- With more to be sent than fits, sending alone leads to a stall. -/
theorem stalled_of_sends (h : Flow past st out) (hwriting : writing st = true)
    (hover : WINDOW_CHAN_CAP < st.output.winQueue.length + st.sealing.length) :
    ∃ n, Stalled ((machine cfg sinks toJson).after st (List.replicate n .send)) := by
  induction hk : WINDOW_CHAN_CAP - st.output.winQueue.length generalizing st past out with
  | zero =>
    have hbound := h.bounded
    refine ⟨0, ?_, ?_, hwriting⟩
    · rw [List.replicate_zero, EventMachine.after_nil, ← List.length_pos_iff]
      omega
    · rw [List.replicate_zero, EventMachine.after_nil]
      omega
  | succ k ih =>
    cases hseal : st.sealing with
    | nil =>
      rw [hseal, List.length_nil] at hover
      omega
    | cons window rest =>
      rw [hseal, List.length_cons] at hover
      have hsend := step_send cfg sinks toJson h hseal (by omega)
      have hnext := flow_step cfg sinks toJson h .send
      rw [hsend] at hnext
      obtain ⟨n, hn⟩ := ih hnext hwriting
        (by simp only [List.length_append, List.length_singleton]; omega)
        (by simp only [List.length_append, List.length_singleton]; omega)
      refine ⟨n + 1, ?_⟩
      rw [List.replicate_succ, EventMachine.after_cons, machine_step, hsend]
      exact hn

/-- A step that does not fit leaves more to be sent than fits while a result is handled. -/
theorem over_of_not_fits {e : Event} (h : ¬ Fits cfg st e) :
    writing (step cfg sinks toJson st e).1 = true ∧
      WINDOW_CHAN_CAP < (step cfg sinks toJson st e).1.output.winQueue.length +
        (step cfg sinks toJson st e).1.sealing.length := by
  cases e with
  | capture d =>
    simp only [Fits, Classical.not_imp, BufferTask.sealsAtMost_iff, not_le] at h
    obtain ⟨hcan, hwriting, hover⟩ := h
    rw [step, if_pos hcan]
    refine ⟨hwriting, ?_⟩
    simp only [List.length_append]
    omega
  | advance =>
    simp only [Fits, Classical.not_imp, not_le] at h
    obtain ⟨htakes, hover⟩ := h
    simp only [takesResult, Bool.and_eq_true, decide_eq_true_eq, List.isEmpty_iff,
      Bool.not_eq_true'] at htakes
    obtain ⟨⟨⟨hphase, hwin⟩, hclosed⟩, hqueue⟩ := htakes
    cases hq : st.output.spotQueue with
    | nil => simp [hq] at hqueue
    | cons p rest =>
      obtain ⟨id, result⟩ := p
      cases result with
      | error e => simp [hq] at hqueue
      | ok r =>
        simp only [step, outputStep, DecodeTask.step, DecodeTask.advance, hphase, poll, hwin, hclosed,
          hq, takeResult, writing]
        refine ⟨rfl, ?_⟩
        simpa [hwin] using hover
  | send => exact absurd trivial h
  | complete id outcome => exact absurd trivial h
  | leave => exact absurd trivial h

theorem roomLeft_run {es : List Event}
    (h : (machine cfg sinks toJson).EveryStep (Fits cfg) .initial es) :
    RoomLeft ((machine cfg sinks toJson).after .initial es) := by
  induction es using List.reverseRecOn with
  | nil =>
    intro hwriting
    contradiction
  | append_singleton es e ih =>
    obtain ⟨hes, he⟩ := EventMachine.everyStep_concat.mp h
    have hflow := flow_run cfg sinks toJson es
    simpa using roomLeft_step cfg sinks toJson hflow (ih hes) he

theorem everyStep_sends (n : ℕ) (st : State) :
    (machine cfg sinks toJson).EveryStep (Fits cfg) st (List.replicate n .send) := by
  induction n generalizing st with
  | zero => trivial
  | succ n ih => exact ⟨trivial, ih _⟩

end

/-- A run in which every step fits never stalls, nor do its beginnings however many sends
follow them; one with a step that does not fit stalls if after it only sends follow. -/
theorem neverStalled_iff (cfg : Config) (sinks : Sinks) (toJson : WsprSpot → Except Text Text)
    (es : List Event) :
    (∀ past rest n, es = past ++ rest →
      ¬ Stalled ((machine cfg sinks toJson).after .initial (past ++ List.replicate n .send))) ↔
    (machine cfg sinks toJson).EveryStep (Fits cfg) .initial es := by
  constructor
  · intro h
    rw [EventMachine.everyStep_iff_throughout]
    intro past e rest hes
    by_contra hnot
    obtain ⟨hwriting, hover⟩ := over_of_not_fits cfg sinks toJson hnot
    have hflow := flow_step cfg sinks toJson (flow_run cfg sinks toJson past) e
    obtain ⟨n, hn⟩ := stalled_of_sends cfg sinks toJson hflow hwriting hover
    refine h (past ++ [e]) rest n (by simp [hes]) ?_
    simpa using hn
  · rintro h past rest n rfl
    have hpast := (EventMachine.everyStep_append.mp h).1
    exact (roomLeft_run cfg sinks toJson
      (EventMachine.everyStep_append.mpr ⟨hpast, everyStep_sends cfg sinks toJson n _⟩)).not_stalled

/-- A status datagram that makes an SSRC ready at one sample per second. -/
def readyStatusOf (ssrc : UInt8) : List UInt8 :=
  [0, 18,1,ssrc, 20,1,1, 33,8,0x40,0x59,0,0,0,0,0,0, 49,1,1, 107,1,2]

def onePacketOf (ssrc seq timestamp : UInt8) : List UInt8 :=
  [0x80,122,0,seq, 0,0,0,timestamp, 0,0,0,ssrc, 0,7]

def nineBands : List UInt8 := [1,2,3,4,5,6,7,8,9]

def firstCycle : List Event :=
  [.capture ⟨3720000000000, .rtp (onePacketOf 1 0 0) 0⟩, .capture ⟨3831000000000, .tick .id⟩,
    .send, .advance,
    .complete 0
      (.file "K5ABC 1f0b -26 0.5 5.366191 WA5DXP EL49 37 0 0.25 1 1 0 0 28 5 13".toList),
    .advance]

/-- One band in the first cycle and nine in the second. The spot of the first cycle is still
being written when the second one is sealed. -/
def slowWrite : List Event :=
  nineBands.map (fun s => Event.capture ⟨3720000000000, .status (readyStatusOf s)⟩) ++ (firstCycle ++
    (nineBands.map (fun s => Event.capture ⟨3840000000000, .rtp (onePacketOf s 1 120) 0⟩) ++
      Event.capture ⟨3951000000000, .tick .id⟩ :: List.replicate 8 Event.send))

/-- Eight windows fill the channel and the ninth waits for the write to end. -/
theorem neverStalled_fails :
    let sinks : DecodeTask.Sinks := { outFile := true, chTable := none }
    let st := (machine BufferTask.shortCapture sinks (fun _ => .ok oneSpotJson)).after .initial
      slowWrite
    Stalled st ∧ st.sealing.length = 1 := by
  decide +kernel

end Wsprrs.Pipeline
