import Mathlib.Data.Prod.Lex
import Wsprrs.Pipeline.Flow

/-! What the tasks behind the packet channel still have to do: every step of theirs that has an
effect leaves less of it, and when none has an effect, there is nothing left. -/
namespace Wsprrs.DecodeTask

/-- The suspension points that handling a result takes. -/
def resultWork : DecodeResult → ℕ
  | .ok (spots, _) => spots.length + 2
  | .error _ => 2

def Phase.work : Phase → ℕ
  | .selecting => 1
  | .writing _ rest _ _ => rest.length + 2
  | .returned => 0

/-- The windows that are queued or being decoded. -/
def State.upstream (st : State) : ℕ := 3*st.winQueue.length + 2*st.decoding.length

/-- The results that are queued or being written. -/
def State.work (st : State) : ℕ := st.phase.work + (st.spotQueue.map (fun p => resultWork p.2)).sum

/-- A step of the task itself or the end of a decode. -/
def Event.isInternal : Event → Bool
  | .complete _ _ => true
  | .advance => true
  | _ => false

section
variable (sinks : Sinks) (toJson : WsprSpot → Except Text Text) (st : State)

theorem poll_work (hphase : st.phase = .selecting) :
    (poll st).1 = st ∨ (poll st).1.upstream < st.upstream ∨
      (poll st).1.upstream = st.upstream ∧ (poll st).1.work < st.work := by
  unfold poll
  cases hwin : st.winQueue with
  | cons window rest =>
    right; left
    simp only [State.upstream, hwin, List.length_cons, List.length_append, List.length_nil]
    omega
  | nil =>
    by_cases hclosed : st.winClosed = true
    · right; right
      simp [hclosed, hwin, State.upstream, State.work, hphase, Phase.work]
    · simp only [hclosed, Bool.false_eq_true, if_false]
      cases hq : st.spotQueue with
      | nil => exact .inl rfl
      | cons p rest =>
        right; right
        obtain ⟨id, result⟩ := p
        cases result with
        | ok p =>
          simp only [takeResult, State.upstream, State.work, hphase, Phase.work, hwin, hq,
            List.map_cons, List.sum_cons, resultWork, true_and]
          omega
        | error e =>
          simp only [takeResult, State.upstream, State.work, hphase, Phase.work, hwin, hq,
            List.map_cons, List.sum_cons, resultWork, true_and]
          omega

/-- Fewer windows are to be decoded, or as many and less of their results is to be handled. -/
theorem step_work {e : Event} (he : e.isInternal = true) :
    (step sinks toJson st e).1 = st ∨ (step sinks toJson st e).1.upstream < st.upstream ∨
      (step sinks toJson st e).1.upstream = st.upstream ∧ (step sinks toJson st e).1.work < st.work := by
  cases e with
  | arrive window => contradiction
  | close => contradiction
  | complete id result =>
    by_cases hid : id ∈ st.decoding
    · right; left
      have hpos := List.length_pos_of_mem hid
      have hlen := List.length_erase_of_mem hid
      by_cases hret : st.phase = .returned <;>
      · simp only [step, hid, not_true_eq_false, hret, if_false, if_true, State.upstream, hlen]
        omega
    · left
      simp [step, hid]
  | advance =>
    simp only [step, advance]
    cases hphase : st.phase with
    | selecting => exact poll_work st hphase
    | returned => exact .inl rfl
    | writing id rest spots windowStart =>
      right; right
      cases rest with
      | nil => simp [State.upstream, State.work, Phase.work, hphase]
      | cons spot rest => simp [State.upstream, State.work, Phase.work, hphase]

theorem step_arrive (window : AudioWindow) :
    (step sinks toJson st (.arrive window)).1.upstream ≤ st.upstream + 3 := by
  by_cases hclosed : st.winClosed ∨ st.phase = .returned
  · simp [step, hclosed]
  · simp only [step, hclosed, if_false, State.upstream, List.length_append, List.length_singleton]
    omega

/-- When the task cannot go on although its channel is open, it waits at `select!` and both
channels are empty. -/
theorem idle_of_advance (hrun : st.phase ≠ .returned) (hopen : st.winClosed = false)
    (h : (step sinks toJson st .advance).1 = st) :
    st.phase = .selecting ∧ st.winQueue = [] ∧ st.spotQueue = [] := by
  simp only [step, advance] at h
  cases hphase : st.phase with
  | returned => exact absurd hphase hrun
  | writing id rest spots windowStart =>
    rw [hphase] at h
    have hwork := congrArg State.work h
    cases rest <;> simp [State.work, hphase, Phase.work] at hwork
  | selecting =>
    rw [hphase] at h
    have hahead := congrArg State.upstream h
    have hwork := congrArg State.work h
    simp only [poll] at hahead hwork
    cases hwin : st.winQueue with
    | cons window rest =>
      simp only [hwin, State.upstream, List.length_cons, List.length_append, List.length_nil] at hahead
      omega
    | nil =>
      cases hq : st.spotQueue with
      | nil => exact ⟨rfl, rfl, rfl⟩
      | cons p rest =>
        obtain ⟨id, result⟩ := p
        cases result with
        | ok p =>
          simp only [hwin, hopen, hq, takeResult, State.work, Phase.work, hphase, List.map_cons,
            List.sum_cons, resultWork, Bool.false_eq_true, if_false] at hwork
          omega
        | error e =>
          simp only [hwin, hopen, hq, takeResult, State.work, Phase.work, hphase, List.map_cons,
            List.sum_cons, resultWork, Bool.false_eq_true, if_false] at hwork
          omega

theorem not_decoding_of_complete {id : ℕ} {result : DecodeResult}
    (h : (step sinks toJson st (.complete id result)).1 = st) : id ∉ st.decoding := by
  intro hid
  have hpos := List.length_pos_of_mem hid
  have hlen := List.length_erase_of_mem hid
  have hdec := congrArg (fun s => s.decoding.length) h
  by_cases hret : st.phase = .returned <;>
  · simp only [step, hid, not_true_eq_false, hret, if_false, if_true, hlen] at hdec
    omega

end
end Wsprrs.DecodeTask

namespace Wsprrs.Pipeline
open Shutdown

/-- A step that the tasks take without any datagram or tick. -/
def Event.isInternal : Event → Bool
  | .send => true
  | .complete _ _ => true
  | .advance => true
  | _ => false

/-- What is left to do: the windows on their way to a decode, then the results. -/
def State.work (st : State) : ℕ ×ₗ ℕ :=
  toLex (4*st.sealing.length + st.output.upstream, st.output.work)

section
variable (cfg : Config) (sinks : DecodeTask.Sinks) (toJson : WsprSpot → Except Text Text)
  (st : State)

/-- Steps of the decode task leave less to do, or change nothing. -/
theorem outputStep_work {d : DecodeTask.Event} (hd : d.isInternal = true) :
    (outputStep sinks toJson st d).1 = st ∨ (outputStep sinks toJson st d).1.work < st.work := by
  obtain hsame | hless | ⟨heq, hless⟩ := DecodeTask.step_work sinks toJson st.output hd
  · left
    have hnone : receivedBy (DecodeTask.step sinks toJson st.output d).2 = [] := by
      obtain ⟨window, rest, -, -, hstep⟩ | ⟨-, hreceived, -⟩ :=
        DecodeTask.step_channel sinks toJson st.output d
      · rw [hstep] at hsame
        have hnext := congrArg DecodeTask.State.nextId hsame
        simp at hnext
      · rw [receivedBy, List.filterMap_eq_nil_iff]
        intro a ha
        cases a with
        | received id window => exact absurd ha (hreceived id window)
        | _ => rfl
    simp only [outputStep, hsame, hnone, List.append_nil]
  · right
    rw [State.work, State.work, Prod.Lex.toLex_lt_toLex]
    left
    simp only [outputStep]
    omega
  · right
    rw [State.work, State.work, Prod.Lex.toLex_lt_toLex]
    right
    simp only [outputStep]
    exact ⟨by omega, hless⟩

theorem step_work {e : Event} (he : e.isInternal = true) :
    (step cfg sinks toJson st e).1 = st ∨ (step cfg sinks toJson st e).1.work < st.work := by
  cases e with
  | capture e => contradiction
  | leave => contradiction
  | advance => exact outputStep_work sinks toJson st rfl
  | complete id outcome =>
    simp only [step]
    cases st.spawned[id]? with
    | none => exact .inl rfl
    | some window => exact outputStep_work sinks toJson st rfl
  | send =>
    simp only [step]
    cases hseal : st.sealing with
    | nil => exact .inl rfl
    | cons window rest =>
      simp only
      split_ifs
      · right
        rw [State.work, State.work, Prod.Lex.toLex_lt_toLex]
        left
        have harrive := DecodeTask.step_arrive sinks toJson st.output window
        simp only [outputStep, hseal, List.length_cons]
        omega
      · exact .inl rfl

/-- Nothing is on its way between the tasks, and no decode is running. -/
structure Drained (st : State) : Prop where
  sealing : st.sealing = []
  winQueue : st.output.winQueue = []
  decoding : st.output.decoding = []
  spotQueue : st.output.spotQueue = []
  phase : st.output.phase = .selecting

variable {st}

/-- When no step has an effect although the decode task is there, nothing is on its way. -/
theorem drained_of_quiet {past : List Event} {out : List Action} (hflow : Flow past st out)
    (hids : ∀ id ∈ st.output.decoding, id < st.output.nextId) (hopen : st.output.winClosed = false)
    (hsend : (step cfg sinks toJson st .send).1 = st)
    (hadvance : (step cfg sinks toJson st .advance).1 = st)
    (hcomplete : ∀ id, (step cfg sinks toJson st (.complete id .noFile)).1 = st) : Drained st := by
  have hrun : st.output.phase ≠ .returned := by
    intro hret
    rw [hflow.returned hret] at hopen
    contradiction
  obtain ⟨hphase, hwin, hspots⟩ := DecodeTask.idle_of_advance sinks toJson st.output hrun hopen
    (congrArg State.output hadvance)
  refine ⟨?_, hwin, ?_, hspots, hphase⟩
  · cases hseal : st.sealing with
    | nil => rfl
    | cons window rest =>
      have hroom : st.output.winQueue.length < WINDOW_CHAN_CAP := by
        rw [hwin]
        decide
      have hlen := congrArg (fun s => s.sealing.length) hsend
      simp [step, hseal, hroom, outputStep] at hlen
  · refine List.eq_nil_iff_forall_not_mem.mpr ?_
    intro id hid
    have hlt : id < st.spawned.length := by
      rw [← hflow.numbered]
      exact hids id hid
    have hstep := hcomplete id
    simp only [step, List.getElem?_eq_getElem hlt] at hstep
    exact DecodeTask.not_decoding_of_complete sinks toJson st.output
      (congrArg State.output hstep) hid

end
end Wsprrs.Pipeline
