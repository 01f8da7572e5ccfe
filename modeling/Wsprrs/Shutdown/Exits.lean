import Wsprrs.Shutdown.Signal

/-! What a step does to the loops and to the channels between them, and how the loops leave. -/
namespace Wsprrs.Shutdown

/-- What one step does to the phase of one loop. -/
inductive Moved (st : State) (task : Task) : Event → Phase → Phase → Prop
  | notify (p : Phase) : Moved st task .ctrlC p p.notify
  | select : Moved st task (.select task) .top (.waiting false)
  | leave : Moved st task (.poll task) (.waiting true) (.left .shutdown)
  | poll : Moved st task (.poll task) (.waiting false) (.polling false (arms task))
  | park (notified ready : Bool) :
      Moved st task (.check task ready) (.polling notified []) (.waiting notified)
  | pending {notified ready : Bool} {arm : Arm} {rest : List Arm} (h : st.pollArm ready arm = .pending) :
      Moved st task (.check task ready) (.polling notified (arm::rest)) (.polling notified rest)
  | start {notified ready : Bool} {arm : Arm} {rest : List Arm} {st' : State}
      (h : st.pollArm ready arm = .ready st') :
      Moved st task (.check task ready) (.polling notified (arm::rest)) (.body arm)
  | closed {notified ready : Bool} {arm : Arm} {rest : List Arm} (h : st.pollArm ready arm = .closed) :
      Moved st task (.check task ready) (.polling notified (arm::rest)) (.left .channelClosed)
  | finish (arm : Arm) : Moved st task (.finish task) (.body arm) .top

section
variable {st : State} {task : Task}

theorem checkArm_phase (notified ready : Bool) (rest : List Arm)
    (hphase : st.phase task = .polling notified rest) :
    Moved st task (.check task ready) (.polling notified rest)
      ((checkArm st task notified ready rest).1.phase task) := by
  cases rest with
  | nil =>
    simp only [checkArm, State.goto_self]
    exact .park notified ready
  | cons arm rest =>
    simp only [checkArm]
    cases hpoll : st.pollArm ready arm with
    | pending =>
      simp only [State.goto_self]
      exact .pending hpoll
    | ready st' =>
      simp only [State.goto_self]
      exact .start hpoll
    | closed =>
      simp only [State.goto_self]
      exact .closed hpoll

theorem checkArm_ne {other : Task} (hne : task ≠ other) (notified ready : Bool) (rest : List Arm) :
    (checkArm st other notified ready rest).1.phase task = st.phase task := by
  cases rest with
  | nil => exact State.goto_ne st hne _
  | cons arm rest =>
    simp only [checkArm]
    cases hpoll : st.pollArm ready arm with
    | pending => exact State.goto_ne st hne _
    | ready st' => exact (State.goto_ne st' hne _).trans (by rw [State.pollArm_phase hpoll])
    | closed => exact State.goto_ne st hne _

/-- One step leaves a loop where it is, or moves it in one of these ways. -/
theorem step_phase (st : State) (e : Event) (task : Task) :
    (step st e).1.phase task = st.phase task ∨
      Moved st task e (st.phase task) ((step st e).1.phase task) := by
  have hgoto {other : Task} {p : Phase} (hp : other = task → Moved st task e (st.phase task) p) :
      (st.goto other p).phase task = st.phase task ∨
        Moved st task e (st.phase task) ((st.goto other p).phase task) := by
    by_cases hne : task = other
    · subst hne
      rw [State.goto_self]
      exact .inr (hp rfl)
    · exact .inl (State.goto_ne st hne _)
  cases e with
  | ctrlC => exact .inr (.notify _)
  | decoded =>
    simp only [step]
    split <;> exact .inl rfl
  | send other =>
    simp only [step]
    split
    · exact .inl (by rw [State.sendFrom_phase])
    · exact .inl rfl
  | select other =>
    cases hphase : st.phase other with
    | top =>
      simp only [step, hphase]
      refine hgoto ?_
      rintro rfl
      rw [hphase]
      exact .select
    | _ => exact .inl (by simp only [step, hphase])
  | poll other =>
    cases hphase : st.phase other with
    | waiting notified =>
      cases notified with
      | true =>
        simp only [step, hphase]
        refine hgoto ?_
        rintro rfl
        rw [hphase]
        exact .leave
      | false =>
        simp only [step, hphase]
        refine hgoto ?_
        rintro rfl
        rw [hphase]
        exact .poll
    | _ => exact .inl (by simp only [step, hphase])
  | check other ready =>
    cases hphase : st.phase other with
    | polling notified rest =>
      simp only [step, hphase]
      by_cases hne : task = other
      · subst hne
        rw [hphase]
        exact .inr (checkArm_phase notified ready rest hphase)
      · exact .inl (checkArm_ne hne notified ready rest)
    | _ => exact .inl (by simp only [step, hphase])
  | finish other =>
    cases hphase : st.phase other with
    | body arm =>
      simp only [step, hphase]
      refine hgoto ?_
      rintro rfl
      rw [hphase]
      exact .finish arm
    | _ => exact .inl (by simp only [step, hphase])

end

/-- A loop polls its own arms, in their order, and runs their bodies. -/
def Phase.Own (own : List Arm) : Phase → Prop
  | .polling _ rest => rest <:+ own
  | .body arm => arm ∈ own
  | _ => True

def OwnArms (st : State) : Prop := ∀ task, (st.phase task).Own (arms task)

theorem ownArms_step (st : State) (e : Event) (h : OwnArms st) : OwnArms (step st e).1 := by
  intro task
  have htask := h task
  obtain hsame | hmoved := step_phase st e task
  · rw [hsame]
    exact htask
  · generalize st.phase task = p at htask hmoved
    generalize (step st e).1.phase task = p' at hmoved
    cases hmoved with
    | notify =>
      cases p with
      | polling notified rest => exact htask
      | body arm => exact htask
      | _ => trivial
    | poll => exact List.suffix_refl _
    | pending _ => exact (List.suffix_cons _ _).trans htask
    | start _ => exact htask.subset List.mem_cons_self
    | _ => trivial

theorem hasLeft_step (task : Task) (st : State) (e : Event) (h : (st.phase task).hasLeft = true) :
    ((step st e).1.phase task).hasLeft = true := by
  obtain hsame | hmoved := step_phase st e task
  · rw [hsame]
    exact h
  · generalize st.phase task = p at h hmoved
    generalize (step st e).1.phase task = p' at hmoved
    cases hmoved with
    | notify =>
      cases p with
      | left reason => rfl
      | _ => contradiction
    | _ => contradiction

section
variable {st st' : State} {ready : Bool} {arm : Arm}

/-- Only a channel closes, when its sender has left and it is empty. -/
theorem pollArm_closed (h : st.pollArm ready arm = .closed) :
    arm = .packet ∧ (st.phase .receive).hasLeft = true ∧ st.packets = 0 ∨
    arm = .window ∧ (st.phase .buffer).hasLeft = true ∧ st.windows = 0 := by
  cases arm with
  | packet =>
    simp only [State.pollArm] at h
    split_ifs at h with hsome hleft
    exact .inl ⟨rfl, hleft, by omega⟩
  | window =>
    simp only [State.pollArm] at h
    split_ifs at h with hsome hleft
    exact .inr ⟨rfl, hleft, by omega⟩
  | _ =>
    simp only [State.pollArm] at h
    split_ifs at h

/-- What an arm takes off the channels. -/
theorem pollArm_ready (h : st.pollArm ready arm = .ready st') :
    (st'.packets = st.packets ∨ arm = .packet ∧ st'.packets + 1 = st.packets) ∧
    (st'.windows = st.windows ∨ arm = .window ∧ st'.windows + 1 = st.windows) ∧
    (arm = .packet → st'.packets + 1 = st.packets) ∧ (arm = .window → st'.windows + 1 = st.windows) := by
  cases arm <;> simp only [State.pollArm] at h <;> split_ifs at h <;> cases h <;> simp <;> omega

end

/-- Nobody else fills the channel of a sender that has left. -/
theorem channels_step (st : State) (e : Event) (hown : OwnArms st) :
    ((st.phase .receive).hasLeft = true → (step st e).1.packets ≤ st.packets) ∧
    ((st.phase .buffer).hasLeft = true → (step st e).1.windows ≤ st.windows) := by
  have hsame : ((st.phase .receive).hasLeft = true → st.packets ≤ st.packets) ∧
      ((st.phase .buffer).hasLeft = true → st.windows ≤ st.windows) := ⟨fun _ => le_rfl, fun _ => le_rfl⟩
  cases e with
  | ctrlC => exact hsame
  | decoded =>
    simp only [step]
    split <;> exact hsame
  | select task =>
    simp only [step]
    split <;> exact hsame
  | poll task =>
    simp only [step]
    split <;> exact hsame
  | finish task =>
    simp only [step]
    split <;> exact hsame
  | check task ready =>
    simp only [step]
    split
    · next notified rest hphase =>
      cases rest with
      | nil => exact hsame
      | cons arm rest =>
        simp only [checkArm]
        cases hpoll : st.pollArm ready arm with
        | pending => exact hsame
        | closed => exact hsame
        | ready st' =>
          obtain ⟨hpackets, hwindows, -, -⟩ := pollArm_ready hpoll
          simp only [State.goto]
          omega
    · exact hsame
  | send task =>
    simp only [step]
    split
    · next arm hphase =>
      have harm := hown task
      rw [hphase] at harm
      cases task with
      | receive =>
        refine ⟨?_, ?_⟩
        · intro hleft
          rw [hphase] at hleft
          contradiction
        · obtain rfl : arm = .datagram := List.mem_singleton.mp harm
          simp only [State.sendFrom]
          split <;> exact fun _ => le_rfl
      | status =>
        obtain rfl : arm = .statusDatagram := List.mem_singleton.mp harm
        exact hsame
      | buffer =>
        refine ⟨?_, ?_⟩
        · have hmem : arm = .tick ∨ arm = .packet := by simpa [Phase.Own, arms] using harm
          obtain rfl | rfl := hmem <;> simp only [State.sendFrom] <;> split <;> exact fun _ => le_rfl
        · intro hleft
          rw [hphase] at hleft
          contradiction
      | decode =>
        have hmem : arm = .window ∨ arm = .result := by simpa [Phase.Own, arms] using harm
        obtain rfl | rfl := hmem <;> exact hsame
    · exact hsame

/-- How the loops leave. Only the signal ends a receive loop, and a loop that leaves through a
closed channel has emptied it. -/
structure Exits (st : State) : Prop where
  shutdown : ∀ task, task = .receive ∨ task = .status → ∀ reason, st.phase task = .left reason →
    reason = .shutdown
  buffer : st.phase .buffer = .left .channelClosed → (st.phase .receive).hasLeft = true ∧ st.packets = 0
  decode : st.phase .decode = .left .channelClosed → (st.phase .buffer).hasLeft = true ∧ st.windows = 0

section
variable {st : State} {e : Event}

/-- How a loop came to leave, or that it had left before. -/
theorem left_cases {task : Task} {reason : Exit} (hown : OwnArms st)
    (h : (step st e).1.phase task = .left reason) :
    st.phase task = .left reason ∨ reason = .shutdown ∨
    (reason = .channelClosed ∧ task = .buffer ∧ (st.phase .receive).hasLeft = true ∧ st.packets = 0) ∨
    (reason = .channelClosed ∧ task = .decode ∧ (st.phase .buffer).hasLeft = true ∧ st.windows = 0) := by
  have htask := hown task
  obtain hsame | hmoved := step_phase st e task
  · exact .inl (hsame.symm.trans h)
  · rw [h] at hmoved
    generalize hphase : st.phase task = p at hmoved htask
    generalize hleft : Phase.left reason = p' at hmoved
    cases hmoved with
    | notify =>
      left
      cases p with
      | left r => rfl
      | _ => contradiction
    | leave =>
      cases hleft
      exact .inr (.inl rfl)
    | closed hpoll =>
      cases hleft
      have harm := htask.subset List.mem_cons_self
      obtain ⟨rfl, hclosed⟩ | ⟨rfl, hclosed⟩ := pollArm_closed hpoll
      · cases task with
        | buffer => exact .inr (.inr (.inl ⟨rfl, rfl, hclosed⟩))
        | _ => simp [arms] at harm
      · cases task with
        | decode => exact .inr (.inr (.inr ⟨rfl, rfl, hclosed⟩))
        | _ => simp [arms] at harm
    | _ => contradiction

theorem Exits.step (h : Exits st) (hown : OwnArms st) (e : Event) : Exits (step st e).1 := by
  obtain ⟨hpackets, hwindows⟩ := channels_step st e hown
  constructor
  · intro task htask reason hleft
    obtain hold | rfl | ⟨-, rfl, -⟩ | ⟨-, rfl, -⟩ := left_cases hown hleft
    · exact h.shutdown task htask reason hold
    · rfl
    · simp at htask
    · simp at htask
  · intro hleft
    have hclosed : (st.phase .receive).hasLeft = true ∧ st.packets = 0 := by
      obtain hold | hreason | ⟨-, -, hnew⟩ | ⟨-, htask, -⟩ := left_cases hown hleft
      · exact h.buffer hold
      · contradiction
      · exact hnew
      · contradiction
    have hless := hpackets hclosed.1
    exact ⟨hasLeft_step _ st e hclosed.1, by omega⟩
  · intro hleft
    have hclosed : (st.phase .buffer).hasLeft = true ∧ st.windows = 0 := by
      obtain hold | hreason | ⟨-, htask, -⟩ | ⟨-, -, hnew⟩ := left_cases hown hleft
      · exact h.decode hold
      · contradiction
      · contradiction
      · exact hnew
    have hless := hwindows hclosed.1
    exact ⟨hasLeft_step _ st e hclosed.1, by omega⟩

end

theorem ownArms_run (es : List Event) : OwnArms (machine.after .initial es) := by
  induction es using List.reverseRecOn with
  | nil => exact fun _ => trivial
  | append_singleton es e ih => simpa using ownArms_step _ e ih

/-- In every run: before the signal no loop leaves; afterwards a receive loop leaves by its shutdown
arm only, the buffer loop through its channel only when the receive loop has left and no packet
remains, and the decode loop only when the buffer loop has left and no window remains. -/
theorem exits_run (es : List Event) :
    (.ctrlC ∉ es → ∀ task, ((machine.after .initial es).phase task).hasLeft = false) ∧
    Exits (machine.after .initial es) := by
  constructor
  · intro hquiet
    have hinv : ∀ task, ((machine.after .initial es).phase task).notified = false ∧
        ((machine.after .initial es).phase task).hasLeft = false := by
      induction es using List.reverseRecOn with
      | nil => exact fun _ => ⟨rfl, rfl⟩
      | append_singleton es e ih =>
        rw [List.mem_append, not_or, List.mem_singleton] at hquiet
        have hpast := ih hquiet.1
        simp only [EventMachine.after_append, EventMachine.after_cons, EventMachine.after_nil,
          machine_step]
        intro task
        have hnext := (step_unnotified (hpast task).1 (Ne.symm hquiet.2)).1
        refine ⟨hnext, ?_⟩
        obtain hsame | hmoved := step_phase (machine.after .initial es) e task
        · rw [hsame]
          exact (hpast task).2
        · have htask := hpast task
          generalize (machine.after .initial es).phase task = p at hmoved htask
          generalize (step (machine.after .initial es) e).1.phase task = p' at hmoved
          cases hmoved with
          | notify => exact absurd rfl hquiet.2
          | leave => exact htask.1
          | closed hpoll =>
            obtain ⟨-, hleft, -⟩ | ⟨-, hleft, -⟩ := pollArm_closed hpoll
            · rw [(hpast .receive).2] at hleft
              contradiction
            · rw [(hpast .buffer).2] at hleft
              contradiction
          | _ => rfl
    exact fun task => (hinv task).2
  · induction es using List.reverseRecOn with
    | nil => exact ⟨by simp [State.initial], by simp [State.initial], by simp [State.initial]⟩
    | append_singleton es e ih => simpa using ih.step (ownArms_run es) e

end Wsprrs.Shutdown
