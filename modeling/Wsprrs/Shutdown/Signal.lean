import Wsprrs.Shutdown.Model

/-! What the shutdown signal reaches. The futures that exist when the handler runs lead their
loops out; a loop without one has lost the signal. -/
namespace Wsprrs.Shutdown

namespace Phase

/-- The loop has left, or its future has been notified. -/
def reached : Phase → Bool
  | .waiting notified => notified
  | .polling notified _ => notified
  | .left _ => true
  | _ => false

@[simp] theorem reached_notify (p : Phase) : p.notify.reached = p.reachable := by
  cases p <;> rfl

end Phase

/-- The source of a task's last arm is drained and will not be filled again. -/
def drained (st : State) : Task → Bool
  | .receive => false
  | .status => false
  | .buffer => st.packets = 0 && (st.phase .receive).hasLeft
  | .decode => st.windows = 0 && (st.phase .buffer).hasLeft

/-- On its way out: the loop has left, is still in the body in which the signal found it, or
takes its shutdown arm when it is next polled, unless a closed channel lets it leave. -/
def Leaving (st : State) (task : Task) : Prop :=
  match st.phase task with
  | .left _ => True
  | .body _ => True
  | .top => True
  | .waiting _ => (step st (.poll task)).2 = [.left task .shutdown] ∨ drained st task = true
  | .polling notified _ => notified = true ∨ drained st task = true

/-- After the handler has run no loop starts another arm, and every loop is on its way out. -/
structure SignalDelivered (es : List Event) : Prop where
  noNewArm : ∀ past rest, es = past ++ .ctrlC::rest → ∀ task arm,
    .started task arm ∉ machine.outputs (machine.after .initial (past ++ [.ctrlC])) rest
  leaving : ∀ past rest, es = past ++ .ctrlC::rest →
    ∀ task, Leaving (machine.after .initial es) task

/-- A loop that was notified after it had polled its shutdown arm, and whose next arm has an
item to take. -/
def overtakes (st : State) (task : Task) (ready : Bool) : Bool :=
  match st.phase task with
  | .polling true (arm::_) =>
    match st.pollArm ready arm with
    | .ready _ => true
    | _ => false
  | _ => false

/-- When the handler runs, no loop is in the body of an arm or between two iterations; and no
loop takes another arm in the very poll during which it was notified. -/
def Reaching (st : State) : Event → Prop
  | .ctrlC => ∀ task, (st.phase task).reachable = true
  | .check task ready => overtakes st task ready = false
  | _ => True

instance (st : State) : (e : Event) → Decidable (Reaching st e)
  | .ctrlC => inferInstanceAs (Decidable (∀ task, (st.phase task).reachable = true))
  | .check task ready => inferInstanceAs (Decidable (overtakes st task ready = false))
  | .select _ | .poll _ | .send _ | .finish _ | .decoded => isTrue trivial

def AllReached (st : State) : Prop := ∀ task, (st.phase task).reached = true

theorem step_ctrlC (st : State) (task : Task) :
    ((step st .ctrlC).1.phase task).reached = (st.phase task).reachable :=
  (st.phase task).reached_notify

section
variable {st : State} {task : Task}

/-- A loop that was notified leaves by its shutdown arm when it is polled. -/
theorem step_poll_of_notified (h : st.phase task = .waiting true) :
    step st (.poll task) = (st.goto task (.left .shutdown), [.left task .shutdown]) := by
  simp only [step, h]

theorem AllReached.leaving (h : AllReached st) (task : Task) : Leaving st task := by
  have htask := h task
  cases hphase : st.phase task with
  | waiting notified =>
    rw [hphase] at htask
    obtain rfl : notified = true := htask
    simp only [Leaving, hphase]
    exact .inl (congrArg Prod.snd (step_poll_of_notified hphase))
  | polling notified rest =>
    rw [hphase] at htask
    obtain rfl : notified = true := htask
    simp only [Leaving, hphase]
    exact .inl trivial
  | top => simp only [Leaving, hphase]
  | body arm => simp only [Leaving, hphase]
  | left reason => simp only [Leaving, hphase]

theorem AllReached.goto (h : AllReached st) (task : Task) {p : Phase} (hp : p.reached = true) :
    AllReached (st.goto task p) := by
  intro other
  by_cases hne : other = task
  · rw [hne, State.goto_self]
    exact hp
  · rw [State.goto_ne st hne]
    exact h other

/-- Once every loop was reached, a step starts no arm and reaches no fewer loops. -/
theorem AllReached.step (h : AllReached st) {e : Event} (hgood : Reaching st e) :
    AllReached (step st e).1 ∧ ∀ task arm, .started task arm ∉ (step st e).2 := by
  have hquiet : AllReached st ∧ ∀ task arm, Action.started task arm ∉ [] := ⟨h, by simp⟩
  cases e with
  | ctrlC => exact ⟨fun task => (step_ctrlC st task).trans (hgood task), by simp [Shutdown.step]⟩
  | decoded =>
    simp only [Shutdown.step]
    split
    · exact ⟨h, by simp⟩
    · exact hquiet
  | select task =>
    have htask := h task
    cases hphase : st.phase task with
    | top => simp [hphase, Phase.reached] at htask
    | _ => simpa only [Shutdown.step, hphase] using hquiet
  | send task =>
    have htask := h task
    cases hphase : st.phase task with
    | body arm => simp [hphase, Phase.reached] at htask
    | _ => simpa only [Shutdown.step, hphase] using hquiet
  | finish task =>
    have htask := h task
    cases hphase : st.phase task with
    | body arm => simp [hphase, Phase.reached] at htask
    | _ => simpa only [Shutdown.step, hphase] using hquiet
  | poll task =>
    have htask := h task
    cases hphase : st.phase task with
    | waiting notified =>
      rw [hphase] at htask
      obtain rfl : notified = true := htask
      rw [step_poll_of_notified hphase]
      exact ⟨h.goto task rfl, by simp⟩
    | _ => simpa only [Shutdown.step, hphase] using hquiet
  | check task ready =>
    have htask := h task
    cases hphase : st.phase task with
    | polling notified rest =>
      rw [hphase] at htask
      obtain rfl : notified = true := htask
      simp only [Shutdown.step, hphase]
      cases rest with
      | nil => exact ⟨h.goto task rfl, by simp [checkArm]⟩
      | cons arm rest =>
        simp only [Reaching, overtakes, hphase] at hgood
        cases hpoll : st.pollArm ready arm with
        | pending =>
          simp only [checkArm, hpoll]
          exact ⟨h.goto task rfl, by simp⟩
        | closed =>
          simp only [checkArm, hpoll]
          exact ⟨h.goto task rfl, by simp⟩
        | ready st' => simp [hpoll] at hgood
    | _ => simpa only [Shutdown.step, hphase] using hquiet

theorem AllReached.run (h : AllReached st) {es : List Event} (hgood : machine.EveryStep Reaching st es) :
    AllReached (machine.after st es) ∧ ∀ task arm, .started task arm ∉ machine.outputs st es := by
  induction es generalizing st with
  | nil => exact ⟨h, by simp⟩
  | cons e es ih =>
    obtain ⟨hstep, hrest⟩ := hgood
    obtain ⟨hreached, hnone⟩ := h.step hstep
    obtain ⟨hreached, hlater⟩ := ih hreached hrest
    refine ⟨hreached, ?_⟩
    intro task arm hmem
    obtain hmem | hmem := List.mem_append.mp hmem
    · exact hnone task arm hmem
    · exact hlater task arm hmem

end

/-- In every run in which the handler finds every loop with its future in place, and no loop
takes another arm in the poll during which it was notified, the signal is delivered. -/
theorem signalDelivered_of_reaching (es : List Event)
    (hgood : machine.EveryStep Reaching .initial es) : SignalDelivered es := by
  have hsplit : ∀ past rest, es = past ++ .ctrlC::rest →
      AllReached (machine.after .initial (past ++ [.ctrlC])) ∧
      machine.EveryStep Reaching (machine.after .initial (past ++ [.ctrlC])) rest := by
    rintro past rest rfl
    obtain ⟨-, hsignal, hrest⟩ := EventMachine.everyStep_append.mp hgood
    rw [EventMachine.after_append]
    exact ⟨fun task => (step_ctrlC _ task).trans (hsignal task), hrest⟩
  constructor
  · intro past rest hes
    obtain ⟨hreached, hrest⟩ := hsplit past rest hes
    exact (hreached.run hrest).2
  · intro past rest hes
    obtain ⟨hreached, hrest⟩ := hsplit past rest hes
    have hfinal := (hreached.run hrest).1
    rw [← EventMachine.after_append, List.append_assoc, List.singleton_append, ← hes] at hfinal
    exact hfinal.leaving

/-- Every loop parks in its `select!`; the handler fires while the status loop is polling. -/
theorem signalDelivered_of_reaching_parked :
    SignalDelivered [.select .receive, .select .status, .select .buffer, .select .decode,
      .poll .receive, .check .receive true, .send .receive, .finish .receive, .select .receive,
      .poll .status, .ctrlC, .check .status false, .check .status false, .poll .receive,
      .poll .status, .poll .buffer, .poll .decode] :=
  signalDelivered_of_reaching _ (by decide +kernel)

/-- The handler fires while the receive loop handles a datagram. The loop makes a new future,
which is not notified, and goes on to the next datagram. -/
theorem signalDelivered_fails :
    ¬ SignalDelivered [.select .receive, .select .status, .select .buffer, .select .decode,
      .poll .receive, .check .receive true, .ctrlC, .finish .receive, .select .receive,
      .poll .receive, .check .receive true] := by
  intro h
  exact h.noNewArm [.select .receive, .select .status, .select .buffer, .select .decode,
    .poll .receive, .check .receive true] _ rfl .receive .datagram (by decide +kernel)

namespace Phase

def notified : Phase → Bool
  | .waiting notified => notified
  | .polling notified _ => notified
  | _ => false

end Phase

section
variable {st : State} {task : Task}

theorem goto_unnotified (h : (st.phase task).notified = false) (other : Task) {p : Phase}
    (hp : other = task → p.notified = false) : ((st.goto other p).phase task).notified = false := by
  by_cases hne : task = other
  · rw [← hne, State.goto_self]
    exact hp hne.symm
  · rw [State.goto_ne st hne]
    exact h

/-- Only the handler gives a loop its notification, and only a notified loop takes its shutdown
arm. -/
theorem step_unnotified (h : (st.phase task).notified = false) {e : Event} (he : e ≠ .ctrlC) :
    ((step st e).1.phase task).notified = false ∧ .left task .shutdown ∉ (step st e).2 := by
  cases e with
  | ctrlC => exact absurd rfl he
  | select other =>
    simp only [step]
    split
    · exact ⟨goto_unnotified h other (fun _ => rfl), by simp⟩
    · exact ⟨h, by simp⟩
  | poll other =>
    simp only [step]
    split
    · next hphase =>
      have hne : other ≠ task := by
        rintro rfl
        simp [hphase, Phase.notified] at h
      exact ⟨goto_unnotified h other (fun _ => rfl), by simp [hne.symm]⟩
    · exact ⟨goto_unnotified h other (fun _ => rfl), by simp⟩
    · exact ⟨h, by simp⟩
  | check other ready =>
    simp only [step]
    split
    · next notified rest hphase =>
      have hkeep : other = task → notified = false := by
        rintro rfl
        simpa [hphase, Phase.notified] using h
      cases rest with
      | nil => exact ⟨goto_unnotified h other hkeep, by simp [checkArm]⟩
      | cons arm rest =>
        simp only [checkArm]
        split
        · exact ⟨goto_unnotified h other hkeep, by simp⟩
        · next st' hpoll =>
          have hsame : (st'.phase task).notified = false := by
            rw [State.pollArm_phase hpoll]
            exact h
          exact ⟨goto_unnotified hsame other (fun _ => rfl), by simp⟩
        · exact ⟨goto_unnotified h other (fun _ => rfl), by simp⟩
    · exact ⟨h, by simp⟩
  | send other =>
    simp only [step]
    split
    · next arm hphase =>
      simp only [State.sendFrom_phase]
      exact ⟨h, by simp⟩
    · exact ⟨h, by simp⟩
  | finish other =>
    simp only [step]
    split
    · exact ⟨goto_unnotified h other (fun _ => rfl), by simp⟩
    · exact ⟨h, by simp⟩
  | decoded =>
    simp only [step]
    split
    · exact ⟨h, by simp⟩
    · exact ⟨h, by simp⟩

/-- A loop that is in the body of an arm or between two iterations when the handler runs never
takes its shutdown arm, whatever happens until the handler runs again. -/
theorem signal_lost (hmiss : (st.phase task).reachable = false) {es : List Event}
    (hquiet : .ctrlC ∉ es) :
    .left task .shutdown ∉ machine.outputs (step st .ctrlC).1 es := by
  have hnot : ((step st .ctrlC).1.phase task).notified = false := by
    change ((st.phase task).notify).notified = false
    cases hphase : st.phase task <;> rw [hphase] at hmiss <;> first | rfl | contradiction
  generalize (step st .ctrlC).1 = s at hnot
  induction es generalizing s with
  | nil => simp
  | cons e es ih =>
    rw [List.mem_cons, not_or] at hquiet
    obtain ⟨hnext, hnone⟩ := step_unnotified hnot (Ne.symm hquiet.1)
    rw [EventMachine.outputs_cons, List.mem_append, not_or]
    exact ⟨hnone, ih hquiet.2 _ hnext⟩

end

end Wsprrs.Shutdown
