import Wsprrs.BufferTask.Cycle
import Wsprrs.DecodeTask.Delivery
import Wsprrs.Pipeline.Model

/-! The way of a window through the system: it is opened at a boundary of the clock, sealed,
sent and received once and in order, and decoded under the number it was received with. -/
namespace Wsprrs.DecodeTask

/-- What one step does with the window channel: a window is received under the next number,
or one may be queued, and a result comes in only if a decode was completed with it. -/
theorem step_channel (sinks : Sinks) (toJson : WsprSpot → Except Text Text) (st : State) (e : Event) :
    (∃ window rest, e = .advance ∧ st.winQueue = window::rest ∧ step sinks toJson st e =
      ({ st with winQueue := rest, decoding := st.decoding ++ [st.nextId], nextId := st.nextId + 1 },
        [.received st.nextId window])) ∨
    ((step sinks toJson st e).1.nextId = st.nextId ∧
      (∀ id window, .received id window ∉ (step sinks toJson st e).2) ∧
      (∀ id result, .decoded id result ∈ (step sinks toJson st e).2 → e = .complete id result) ∧
      (step sinks toJson st e).1.winQueue = st.winQueue ++
        match e with
        | .arrive window => if st.winClosed ∨ st.phase = .returned then [] else [window]
        | _ => []) := by
  cases e with
  | arrive window =>
    right
    by_cases hclosed : st.winClosed ∨ st.phase = .returned
    · simp [step, hclosed]
    · simp [step, hclosed]
  | close => simp [step]
  | complete id result =>
    right
    by_cases hid : id ∈ st.decoding
    · by_cases hret : st.phase = .returned <;> simp [step, hid, hret]
    · simp [step, hid]
  | advance =>
    cases hphase : st.phase with
    | returned => simp [step, advance, hphase]
    | writing id rest spots windowStart => cases rest <;> simp [step, advance, hphase]
    | selecting =>
      cases hwin : st.winQueue with
      | cons window rest =>
        refine .inl ⟨window, rest, rfl, rfl, ?_⟩
        simp only [step, advance, hphase, poll, hwin]
      | nil =>
        right
        simp only [step, advance, hphase, poll, hwin]
        split_ifs with hclosed
        · simp
        cases st.spotQueue with
        | nil => simp [hwin]
        | cons p rest =>
          obtain ⟨id, result⟩ := p
          cases result <;> simp [takeResult]

theorem step_winClosed (sinks : Sinks) (toJson : WsprSpot → Except Text Text) (st : State) (e : Event) :
    (step sinks toJson st e).1.winClosed = true ↔ st.winClosed = true ∨ e = .close := by
  cases e with
  | arrive window => by_cases hclosed : st.winClosed ∨ st.phase = .returned <;> simp [step, hclosed]
  | close => simp [step]
  | complete id result =>
    by_cases hid : id ∈ st.decoding
    · by_cases hret : st.phase = .returned <;> simp [step, hid, hret]
    · simp [step, hid]
  | advance =>
    cases hphase : st.phase with
    | returned => simp [step, advance, hphase]
    | writing id rest spots windowStart => cases rest <;> simp [step, advance, hphase]
    | selecting =>
      simp only [step, advance, hphase, poll]
      cases st.winQueue with
      | cons window rest => simp
      | nil =>
        by_cases hclosed : st.winClosed = true
        · simp [hclosed]
        cases st.spotQueue with
        | nil => simp [hclosed]
        | cons p rest =>
          obtain ⟨id, result⟩ := p
          cases result <;> simp [hclosed, takeResult]

/-- The task returns only once the window channel is closed. -/
theorem winClosed_of_returned (sinks : Sinks) (toJson : WsprSpot → Except Text Text) {st : State}
    {e : Event} (hrun : st.phase ≠ .returned) (h : (step sinks toJson st e).1.phase = .returned) :
    st.winClosed = true := by
  cases hleave : leaves st e with
  | false => exact absurd h (step_of_stays sinks toJson hleave hrun).1
  | true =>
    cases e with
    | arrive window => contradiction
    | close => contradiction
    | complete id result => contradiction
    | advance =>
      simp only [leaves, Bool.and_eq_true] at hleave
      exact hleave.2

end Wsprrs.DecodeTask

namespace Wsprrs.Pipeline
open Shutdown

section
variable (cfg : Config) (sinks : DecodeTask.Sinks) (toJson : WsprSpot → Except Text Text)

/-- What is queued by an event of the decode task. -/
def arrived : DecodeTask.Event → List AudioWindow
  | .arrive window => [window]
  | _ => []

/-- All that one step does: a step of the buffer task, one of the decode task, or nothing. -/
theorem step_cases (st : State) (e : Event) :
    (∃ d, e = .capture d ∧ captures st d = true ∧ captureFocus st e = some d ∧
      outputFocus st e = none ∧ step cfg sinks toJson st e =
        ({ st with capture := (BufferTask.step cfg st.capture d).1,
                   sealing := st.sealing ++ sealedBy (BufferTask.step cfg st.capture d).2 },
          (BufferTask.step cfg st.capture d).2.map Action.captured)) ∨
    (∃ d rest, captureFocus st e = none ∧ outputFocus st e = some d ∧
      st.sealing = arrived d ++ rest ∧ (arrived d ≠ [] → st.output.winQueue.length < WINDOW_CHAN_CAP) ∧
      (d = .close → st.sealing = []) ∧
      (∀ id result, d = .complete id result → ∃ window outcome, e = .complete id outcome ∧
        st.spawned[id]? = some window ∧ result = spawnedDecode window outcome) ∧
      step cfg sinks toJson st e = outputStep sinks toJson { st with sealing := rest } d) ∨
    (captureFocus st e = none ∧ outputFocus st e = none ∧ step cfg sinks toJson st e = (st, [])) := by
  cases e with
  | capture d =>
    by_cases hcan : captures st d = true
    · exact .inl ⟨d, rfl, hcan, if_pos hcan, rfl, if_pos hcan⟩
    · exact .inr (.inr ⟨if_neg hcan, rfl, if_neg hcan⟩)
  | send =>
    cases hseal : st.sealing with
    | nil => exact .inr (.inr ⟨rfl, by simp [outputFocus, hseal], by simp [step, hseal]⟩)
    | cons window rest =>
      by_cases hroom : st.output.winQueue.length < WINDOW_CHAN_CAP
      · exact .inr (.inl ⟨.arrive window, rest, rfl, by simp [outputFocus, hseal, hroom], rfl,
          fun _ => hroom, nofun, nofun, by simp only [step, hseal, if_pos hroom]⟩)
      · exact .inr (.inr ⟨rfl, by simp [outputFocus, hseal, hroom], by simp [step, hseal, hroom]⟩)
  | complete id outcome =>
    cases hwin : st.spawned[id]? with
    | none => exact .inr (.inr ⟨rfl, by simp [outputFocus, hwin], by simp [step, hwin]⟩)
    | some window =>
      refine .inr (.inl ⟨.complete id (spawnedDecode window outcome), st.sealing, rfl,
        by simp [outputFocus, hwin], rfl, nofun, nofun, ?_, by simp only [step, hwin]⟩)
      rintro _ _ ⟨⟩
      exact ⟨window, outcome, rfl, hwin, rfl⟩
  | advance => exact .inr (.inl ⟨.advance, st.sealing, rfl, rfl, rfl, nofun, nofun, nofun, rfl⟩)
  | leave =>
    by_cases hseal : st.sealing = []
    · exact .inr (.inl ⟨.close, st.sealing, rfl, if_pos hseal, rfl, nofun, fun _ => hseal, nofun,
        if_pos hseal⟩)
    · exact .inr (.inr ⟨rfl, if_neg hseal, if_neg hseal⟩)

/-- The decode task in a run of the system is in a run of its own. -/
def outputComponent :
    EventMachine.Component (machine cfg sinks toJson) (DecodeTask.machine sinks toJson) where
  view := State.output
  focus := outputFocus
  pick := Action.output?
  view_step := by
    intro st e
    obtain ⟨d, -, -, -, hfocus, hstep⟩ | ⟨d, rest, -, hfocus, -, -, -, -, hstep⟩ | ⟨-, hfocus, hstep⟩ :=
      step_cases cfg sinks toJson st e <;> rw [machine_step, hstep, hfocus] <;> rfl
  pick_step := by
    intro st e
    obtain ⟨d, -, -, -, hfocus, hstep⟩ | ⟨d, rest, -, hfocus, -, -, -, -, hstep⟩ | ⟨-, hfocus, hstep⟩ :=
      step_cases cfg sinks toJson st e
    · rw [machine_step, hstep, hfocus, filterMap_output_captured]
      rfl
    · rw [machine_step, hstep, hfocus, outputStep, filterMap_output_map]
      simp
    · rw [machine_step, hstep, hfocus]
      rfl

/-- So is the buffer task. -/
def captureComponent : EventMachine.Component (machine cfg sinks toJson) (BufferTask.machine cfg) where
  view := State.capture
  focus := captureFocus
  pick := Action.captured?
  view_step := by
    intro st e
    obtain ⟨d, -, -, hfocus, -, hstep⟩ | ⟨d, rest, hfocus, -, -, -, -, -, hstep⟩ | ⟨hfocus, -, hstep⟩ :=
      step_cases cfg sinks toJson st e <;> rw [machine_step, hstep, hfocus] <;> rfl
  pick_step := by
    intro st e
    obtain ⟨d, -, -, hfocus, -, hstep⟩ | ⟨d, rest, hfocus, -, -, -, -, -, hstep⟩ | ⟨hfocus, -, hstep⟩ :=
      step_cases cfg sinks toJson st e
    · rw [machine_step, hstep, hfocus, filterMap_captured_map]
      simp
    · rw [machine_step, hstep, hfocus, outputStep, filterMap_captured_output]
      rfl
    · rw [machine_step, hstep, hfocus]
      rfl

/-- Where the windows are: every window handed over so far was received, is queued or is still
to be sent, in this order; the received ones are numbered, and each result is that of the decode
of the window with its number. -/
structure Flow (past : List Event) (st : State) (out : List Action) : Prop where
  conserved : sealedBy (out.filterMap Action.captured?) =
    st.spawned ++ st.output.winQueue ++ st.sealing
  bounded : st.output.winQueue.length ≤ WINDOW_CHAN_CAP
  closed : st.output.winClosed = true → st.sealing = []
  returned : st.output.phase = .returned → st.output.winClosed = true
  numbered : st.output.nextId = st.spawned.length
  received : ∀ id window, .output (.received id window) ∈ out ↔ st.spawned[id]? = some window
  decoded : ∀ id result, .output (.decoded id result) ∈ out → ∃ window outcome,
    st.spawned[id]? = some window ∧ .complete id outcome ∈ past ∧ result = spawnedDecode window outcome

end

section
variable {cfg : Config} {sinks : DecodeTask.Sinks} {toJson : WsprSpot → Except Text Text}
  {past : List Event} {st : State} {out : List Action}

theorem flow_initial : Flow [] .initial [] := by
  constructor <;> simp [State.initial, DecodeTask.State.initial, sealedBy]

theorem sealedBy_append (as bs : List BufferTask.Action) :
    sealedBy (as ++ bs) = sealedBy as ++ sealedBy bs := List.filterMap_append

theorem getElem?_concat_eq_some {α : Type} {xs : List α} {x y : α} {i : ℕ} :
    (xs ++ [x])[i]? = some y ↔ xs[i]? = some y ∨ i = xs.length ∧ y = x := by
  obtain hlt | rfl | hgt := lt_trichotomy i xs.length
  · rw [List.getElem?_append_left hlt, or_iff_left (fun h => hlt.ne h.1)]
  · simp [eq_comm]
  · rw [List.getElem?_eq_none (by simp; omega), List.getElem?_eq_none hgt.le]
    simp
    omega

namespace Flow

/-- Something is still to be sent only while the decode task is there to receive it. -/
theorem running (h : Flow past st out) (hseal : st.sealing ≠ []) :
    st.output.winClosed = false ∧ st.output.phase ≠ .returned := by
  have hopen : st.output.winClosed ≠ true := fun hclosed => hseal (h.closed hclosed)
  exact ⟨by simpa using hopen, fun hret => hopen (h.returned hret)⟩

theorem concat (h : Flow past st out) (e : Event) : Flow (past ++ [e]) st out := by
  refine ⟨h.conserved, h.bounded, h.closed, h.returned, h.numbered, h.received, ?_⟩
  intro id result hmem
  obtain ⟨window, outcome, hwin, hcomplete, hresult⟩ := h.decoded id result hmem
  exact ⟨window, outcome, hwin, List.mem_append_left _ hcomplete, hresult⟩

/-- Sealing adds to what is to be sent. -/
theorem capture (h : Flow past st out) (d : BufferTask.Event) (hcan : captures st d = true) :
    Flow past
      { st with capture := (BufferTask.step cfg st.capture d).1,
                sealing := st.sealing ++ sealedBy (BufferTask.step cfg st.capture d).2 }
      (out ++ (BufferTask.step cfg st.capture d).2.map Action.captured) := by
  have hquiet (a : DecodeTask.Action) :
      .output a ∉ (BufferTask.step cfg st.capture d).2.map Action.captured := by simp
  refine ⟨?_, h.bounded, ?_, h.returned, h.numbered, ?_, ?_⟩
  · rw [List.filterMap_append, filterMap_captured_map, sealedBy_append, h.conserved,
      List.append_assoc]
  · rintro (hclosed : st.output.winClosed = true)
    obtain ⟨now, input⟩ := d
    cases input with
    | status buf => simpa [BufferTask.step_status, sealedBy] using h.closed hclosed
    | rtp buf lag => simp [captures, hclosed] at hcan
    | tick order => simp [captures, hclosed] at hcan
  · intro id window
    rw [List.mem_append, or_iff_left (hquiet _)]
    exact h.received id window
  · intro id result hmem
    rw [List.mem_append, or_iff_left (hquiet _)] at hmem
    exact h.decoded id result hmem

/-- A window is received under the next number. -/
theorem receive (h : Flow past st out) {window : AudioWindow} {rest : List AudioWindow}
    (hqueue : st.output.winQueue = window::rest) {output : DecodeTask.State}
    (hwin : output.winQueue = rest) (hnext : output.nextId = st.output.nextId + 1)
    (hclosed : output.winClosed = st.output.winClosed) (hphase : output.phase = st.output.phase) :
    Flow past { st with output := output, spawned := st.spawned ++ [window] }
      (out ++ [.output (.received st.output.nextId window)]) := by
  have hnew (id : ℕ) (w : AudioWindow) : (st.spawned ++ [window])[id]? = some w ↔
      st.spawned[id]? = some w ∨ id = st.spawned.length ∧ w = window :=
    getElem?_concat_eq_some
  refine ⟨?_, ?_, ?_, ?_, ?_, ?_, ?_⟩
  · rw [List.filterMap_append, sealedBy_append, h.conserved, hqueue, hwin]
    simp [sealedBy, Action.captured?]
  · have hbound := h.bounded
    rw [hqueue, List.length_cons] at hbound
    rw [hwin]
    omega
  · rw [hclosed]
    exact h.closed
  · rw [hphase, hclosed]
    exact h.returned
  · rw [hnext, h.numbered, List.length_append, List.length_singleton]
  · intro id w
    rw [hnew, List.mem_append, h.received, List.mem_singleton, Action.output.injEq,
      DecodeTask.Action.received.injEq, h.numbered]
  · intro id result hmem
    obtain ⟨w, outcome, hw, hcomplete, hresult⟩ := h.decoded id result (by simpa using hmem)
    exact ⟨w, outcome, (hnew id w).mpr (.inl hw), hcomplete, hresult⟩

/-- Any other step of the decode task or its channels. -/
theorem output (h : Flow past st out) {d : DecodeTask.Event} {rest : List AudioWindow}
    (hseal : st.sealing = arrived d ++ rest)
    (hroom : arrived d ≠ [] → st.output.winQueue.length < WINDOW_CHAN_CAP)
    (hclose : d = .close → st.sealing = [])
    (hcomplete : ∀ id result, d = .complete id result → ∃ window outcome,
      st.spawned[id]? = some window ∧ .complete id outcome ∈ past ∧
        result = spawnedDecode window outcome) :
    Flow past (outputStep sinks toJson { st with sealing := rest } d).1
      (out ++ (outputStep sinks toJson { st with sealing := rest } d).2) := by
  obtain ⟨window, queue, rfl, hqueue, hstep⟩ | ⟨hnext, hreceived, hdecoded, hqueue⟩ :=
    DecodeTask.step_channel sinks toJson st.output d
  · obtain rfl : st.sealing = rest := hseal
    simp only [outputStep, hstep]
    exact h.receive hqueue rfl rfl rfl rfl
  have hnone : receivedBy (DecodeTask.step sinks toJson st.output d).2 = [] := by
    rw [receivedBy, List.filterMap_eq_nil_iff]
    intro a ha
    cases a with
    | received id window => exact absurd ha (hreceived id window)
    | _ => rfl
  have harrive : (DecodeTask.step sinks toJson st.output d).1.winQueue =
      st.output.winQueue ++ arrived d := by
    rw [hqueue]
    cases d with
    | arrive window =>
      obtain ⟨hopen, hrun⟩ := h.running (by simp [hseal, arrived])
      simp [hopen, hrun, arrived]
    | _ => rfl
  simp only [outputStep, hnone, List.append_nil]
  refine ⟨?_, ?_, ?_, ?_, ?_, ?_, ?_⟩
  · rw [List.filterMap_append, filterMap_captured_output, List.append_nil, h.conserved, harrive,
      hseal]
    simp only [List.append_assoc]
  · rw [harrive, List.length_append]
    cases hd : arrived d with
    | nil => simpa using h.bounded
    | cons w ws =>
      have hlt := hroom (by simp [hd])
      have hone : ws = [] := by cases d <;> simp_all [arrived]
      simp only [hone, List.length_singleton]
      omega
  · intro hclosed
    obtain hclosed | rfl := (DecodeTask.step_winClosed sinks toJson st.output d).mp hclosed
    · have hnil := h.closed hclosed
      rw [hseal] at hnil
      exact (List.append_eq_nil_iff.mp hnil).2
    · exact hseal.symm.trans (hclose rfl)
  · intro hret
    rw [DecodeTask.step_winClosed]
    left
    by_cases hrun : st.output.phase = .returned
    · exact h.returned hrun
    · exact DecodeTask.winClosed_of_returned sinks toJson hrun hret
  · rw [hnext]
    exact h.numbered
  · intro id window
    simp only [List.mem_append, List.mem_map, Action.output.injEq, exists_eq_right, hreceived,
      or_false]
    exact h.received id window
  · intro id result hmem
    simp only [List.mem_append, List.mem_map, Action.output.injEq, exists_eq_right] at hmem
    obtain hmem | hmem := hmem
    · exact h.decoded id result hmem
    · exact hcomplete id result (hdecoded id result hmem)

end Flow

/-- Every step keeps the account of the windows. -/
theorem flow_step (cfg : Config) (sinks : DecodeTask.Sinks) (toJson : WsprSpot → Except Text Text)
    (h : Flow past st out) (e : Event) :
    Flow (past ++ [e]) (step cfg sinks toJson st e).1 (out ++ (step cfg sinks toJson st e).2) := by
  have hpast := h.concat e
  obtain ⟨d, -, hcan, -, -, hstep⟩ | ⟨d, rest, -, -, hseal, hroom, hclose, hcomplete, hstep⟩ |
    ⟨-, -, hstep⟩ := step_cases cfg sinks toJson st e
  · rw [hstep]
    exact hpast.capture d hcan
  · rw [hstep]
    refine hpast.output hseal hroom hclose ?_
    intro id result hd
    obtain ⟨window, outcome, rfl, hwin, hresult⟩ := hcomplete id result hd
    exact ⟨window, outcome, hwin, by simp, hresult⟩
  · rw [hstep, List.append_nil]
    exact hpast

/-- In every run the windows are received once and in the order in which they were sealed. -/
theorem flow_run (cfg : Config) (sinks : DecodeTask.Sinks) (toJson : WsprSpot → Except Text Text)
    (es : List Event) :
    Flow es ((machine cfg sinks toJson).after .initial es)
      ((machine cfg sinks toJson).outputs .initial es) := by
  have hall : (machine cfg sinks toJson).Throughout .initial es (fun _ _ _ => True) :=
    fun _ _ _ _ => trivial
  exact hall.invariant flow_initial (fun _ _ _ e h _ => flow_step cfg sinks toJson h e)

end
end Wsprrs.Pipeline
