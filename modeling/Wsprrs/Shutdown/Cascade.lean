import Wsprrs.Foundation.EndlessRun
import Wsprrs.Shutdown.Exits

/-! From the signal to the end of the program: the two receive loops need the signal, the other
two loops follow through the closed channels in front of them. -/
namespace Wsprrs.Shutdown

namespace Phase

/-- The polls that a notified loop still needs. -/
def toGo : Phase → ℕ
  | .polling _ rest => rest.length+1
  | _ => 0

end Phase

section
variable {st : State} {task : Task} {e : Event} {p p' : Phase}

/-- A socket does not close: what the signal has not reached stays so. -/
theorem Moved.unreached (hmoved : Moved st task e p p') (hown : p.Own (arms task))
    (htask : task = .receive ∨ task = .status) (he : e ≠ .ctrlC) (h : p.reached = false) :
    p'.reached = false := by
  cases hmoved with
  | notify => contradiction
  | leave => contradiction
  | park => exact h
  | pending _ => exact h
  | closed hpoll =>
    have harm := hown.subset List.mem_cons_self
    obtain ⟨rfl, -⟩ | ⟨rfl, -⟩ := pollArm_closed hpoll <;> obtain rfl | rfl := htask <;>
      simp [arms] at harm
  | _ => rfl

/-- A notified loop moves towards its end, unless it is overtaken. -/
theorem Moved.reached (hmoved : Moved st task e (st.phase task) p') (he : e ≠ .ctrlC)
    (hkept : ∀ ready, e = .check task ready → overtakes st task ready = false)
    (h : (st.phase task).reached = true) :
    p'.hasLeft = true ∨ (p'.reached = true ∧ p'.toGo < (st.phase task).toGo) := by
  generalize hphase : st.phase task = p at hmoved h
  cases hmoved with
  | notify => contradiction
  | select => contradiction
  | leave => exact .inl rfl
  | poll => contradiction
  | park notified ready => exact .inr ⟨h, by simp [Phase.toGo]⟩
  | pending _ => exact .inr ⟨h, by simp [Phase.toGo]⟩
  | start hpoll =>
    obtain rfl := h
    have hover := hkept _ rfl
    simp only [overtakes, hphase, hpoll] at hover
    contradiction
  | closed _ => exact .inl rfl
  | finish => contradiction

end

/-- The event is the next move of the loop, wherever it is. -/
def Takes (task : Task) : Phase → Event → Prop
  | .top, e => e = .select task
  | .waiting _, e => e = .poll task
  | .polling _ _, e => ∃ ready, e = .check task ready
  | .body _, e => e = .finish task
  | .left _, _ => True

theorem takes_of_left {task : Task} {p : Phase} (h : p.hasLeft = true) (e : Event) :
    Takes task p e := by
  cases p with
  | left reason => trivial
  | _ => contradiction

section
variable {st : State} {task : Task} {e : Event}

theorem moved_of_takes (h : Takes task (st.phase task) e) (hleft : (st.phase task).hasLeft = false) :
    e ≠ .ctrlC ∧ Moved st task e (st.phase task) ((step st e).1.phase task) := by
  cases hphase : st.phase task with
  | top =>
    rw [hphase] at h
    obtain rfl : e = .select task := h
    simp only [step, hphase, State.goto_self]
    exact ⟨by simp, .select⟩
  | waiting notified =>
    rw [hphase] at h
    obtain rfl : e = .poll task := h
    cases notified with
    | true =>
      simp only [step, hphase, State.goto_self]
      exact ⟨by simp, .leave⟩
    | false =>
      simp only [step, hphase, State.goto_self]
      exact ⟨by simp, .poll⟩
  | polling notified rest =>
    rw [hphase] at h
    obtain ⟨ready, rfl⟩ : ∃ ready, e = .check task ready := h
    simp only [step, hphase]
    exact ⟨by simp, checkArm_phase notified ready rest hphase⟩
  | body arm =>
    rw [hphase] at h
    obtain rfl : e = .finish task := h
    simp only [step, hphase, State.goto_self]
    exact ⟨by simp, .finish arm⟩
  | left reason =>
    rw [hphase] at hleft
    contradiction

end

/-- Endless runs of the program. -/
def moment (ρ : ℕ → Event) (n : ℕ) : State := machine.stateAt .initial ρ n

theorem moment_succ (ρ : ℕ → Event) (n : ℕ) : moment ρ (n+1) = (step (moment ρ n) (ρ n)).1 := rfl

/-- Every loop takes its turn again and again, so that every body comes to its end, and the buffer
loop does not find the interval ready every time. -/
structure Fair (ρ : ℕ → Event) : Prop where
  turns : ∀ task n, ∃ m, n ≤ m ∧ Takes task ((moment ρ m).phase task) (ρ m)
  quiet : ∀ n, ∃ m, n ≤ m ∧ (((moment ρ m).phase .buffer).hasLeft = true ∨
    ρ m = .check .buffer false ∧ ∃ notified rest, (moment ρ m).phase .buffer = .polling notified (.tick::rest))

/-- The signal, which is event `k`, finds the loop with its future in place, and the loop is not
overtaken on its way out. -/
def Hears (ρ : ℕ → Event) (k : ℕ) (task : Task) : Prop :=
  ((moment ρ k).phase task).reachable = true ∧
  ∀ n, k < n → ∀ ready, ρ n = .check task ready → overtakes (moment ρ n) task ready = false

section
variable {ρ : ℕ → Event} {k : ℕ} {task : Task}

theorem ownArms_moment (ρ : ℕ → Event) (n : ℕ) : OwnArms (moment ρ n) :=
  EventMachine.stateAt_mono ownArms_step (Nat.zero_le n) (fun _ => trivial)

theorem hasLeft_mono {n m : ℕ} (hle : n ≤ m) (h : ((moment ρ n).phase task).hasLeft = true) :
    ((moment ρ m).phase task).hasLeft = true :=
  EventMachine.stateAt_mono (I := fun st : State => (st.phase task).hasLeft = true) (hasLeft_step task) hle h

theorem hasLeft_reached {p : Phase} (h : p.hasLeft = true) : p.reached = true := by
  cases p with
  | left reason => rfl
  | _ => contradiction

/-- A receive loop that the signal has missed goes on for ever. -/
theorem unreached_mono (honce : ∀ n, k < n → ρ n ≠ .ctrlC) (htask : task = .receive ∨ task = .status)
    {n m : ℕ} (hn : k < n) (hle : n ≤ m) (h : ((moment ρ n).phase task).reached = false) :
    ((moment ρ m).phase task).reached = false := by
  induction m, hle using Nat.le_induction with
  | base => exact h
  | succ m hle ih =>
    rw [moment_succ]
    obtain hsame | hmoved := step_phase (moment ρ m) (ρ m) task
    · rw [hsame]
      exact ih
    · exact hmoved.unreached (ownArms_moment ρ m task) htask (honce m (by omega)) ih

/-- One that has heard it leaves. -/
theorem left_of_hears (honce : ∀ n, k < n → ρ n ≠ .ctrlC) (hsignal : ρ k = .ctrlC) (hfair : Fair ρ)
    (h : Hears ρ k task) : ∃ n, ((moment ρ n).phase task).hasLeft = true := by
  obtain ⟨hreachable, hkept⟩ := h
  have hfirst : ((moment ρ (k+1)).phase task).reached = true := by
    rw [moment_succ, hsignal]
    exact (step_ctrlC _ task).trans hreachable
  have hmove (n : ℕ) (hn : k < n) (hreached : ((moment ρ n).phase task).reached = true)
      (hmoved : Moved (moment ρ n) task (ρ n) ((moment ρ n).phase task) ((moment ρ (n+1)).phase task)) :=
    hmoved.reached (honce n hn) (fun ready he => hkept n hn ready he) hreached
  have hstay : ∀ n, (k < n ∧ ((moment ρ n).phase task).reached = true) →
      ((moment ρ (n+1)).phase task).hasLeft = true ∨
        ((k < n+1 ∧ ((moment ρ (n+1)).phase task).reached = true) ∧
          ((moment ρ (n+1)).phase task).toGo ≤ ((moment ρ n).phase task).toGo) := by
    rintro n ⟨hk, hreached⟩
    obtain hsame | hmoved := step_phase (moment ρ n) (ρ n) task
    · rw [← moment_succ] at hsame
      exact .inr ⟨⟨by omega, by rwa [hsame]⟩, by rw [hsame]⟩
    · obtain hleft | ⟨hnext, hless⟩ := hmove n hk hreached hmoved
      · exact .inl hleft
      · exact .inr ⟨⟨by omega, hnext⟩, hless.le⟩
  have hends : ∃ n, k+1 < n ∧ ((moment ρ n).phase task).hasLeft = true := by
    refine eventually_of_measure (I := fun n => k < n ∧ ((moment ρ n).phase task).reached = true)
      (fun n => ((moment ρ n).phase task).toGo) hstay ?_ ⟨Nat.lt_succ_self k, hfirst⟩
    rintro n -
    obtain ⟨m, hle, htakes⟩ := hfair.turns task n
    refine ⟨m, hle, ?_⟩
    rintro ⟨hk, hreached⟩
    by_cases hleft : ((moment ρ m).phase task).hasLeft = true
    · exact .inl (hasLeft_mono (Nat.le_succ m) hleft)
    · obtain ⟨-, hmoved⟩ := moved_of_takes htakes (by simpa using hleft)
      exact (hmove m hk hreached hmoved).imp_right And.right
  obtain ⟨n, -, hn⟩ := hends
  exact ⟨n, hn⟩

end

/-- Behind a closed channel: how far the buffer loop is from the end of the packets, on the ticks
as well, and the decode loop from the end of the windows. -/
def bufferToGo (st : State) : ℕ :=
  2*st.packets + (match st.phase .buffer with
    | .polling _ [_] => 0
    | _ => 1)

def decodeToGo (st : State) : ℕ :=
  6*st.windows + (match st.phase .decode with
    | .polling _ [] => 3
    | .polling _ [_] => 5
    | .polling _ (_::_::_) => 1
    | .waiting _ => 2
    | .top => 3
    | .body _ => 4
    | .left _ => 0)

section
variable {st st' : State} {task : Task} {e : Event} {ready notified : Bool} {arm : Arm} {rest : List Arm}

theorem step_check_ready (hphase : st.phase task = .polling notified (arm::rest))
    (hpoll : st.pollArm ready arm = .ready st') :
    (step st (.check task ready)).1 = st'.goto task (.body arm) := by
  simp only [step, hphase, checkArm, hpoll]

/-- A closed channel does not keep the buffer loop waiting. -/
theorem buffer_step (hown : OwnArms st) (hreceive : (st.phase .receive).hasLeft = true) (e : Event) :
    ((step st e).1.phase .buffer).hasLeft = true ∨ bufferToGo (step st e).1 ≤ bufferToGo st := by
  have hpackets := (channels_step st e hown).1 hreceive
  have hbuffer := hown .buffer
  obtain hsame | hmoved := step_phase st e .buffer
  · right
    simp only [bufferToGo, hsame]
    omega
  · by_cases hlast : ∃ notified arm, st.phase .buffer = .polling notified [arm]
    · obtain ⟨notified, arm, hphase⟩ := hlast
      rw [hphase] at hmoved hbuffer
      obtain rfl : arm = .packet := by
        have hsuffix : [arm] <:+ [Arm.tick, Arm.packet] := hbuffer
        simpa [List.suffix_cons_iff] using hsuffix
      generalize hphase' : (step st e).1.phase .buffer = p' at hmoved
      cases hmoved with
      | notify =>
        right
        simp only [bufferToGo, hphase, hphase', Phase.notify]
        omega
      | pending hpoll =>
        simp only [State.pollArm, hreceive, if_true] at hpoll
        split_ifs at hpoll
      | start hpoll =>
        right
        have htaken := (pollArm_ready hpoll).2.2.1 rfl
        simp only [bufferToGo, step_check_ready hphase hpoll, State.goto_self, hphase]
        simp only [State.goto]
        omega
      | closed _ => exact .inl rfl
    · right
      have hone : bufferToGo st = 2*st.packets + 1 := by
        unfold bufferToGo
        split
        · next notified arm hphase => exact absurd ⟨notified, arm, hphase⟩ hlast
        · rfl
      have hnext : bufferToGo (step st e).1 ≤ 2*(step st e).1.packets + 1 := by
        unfold bufferToGo
        split <;> omega
      omega

/-- And a quiet interval lets it look at the channel. -/
theorem buffer_quiet (hown : OwnArms st) (hphase : st.phase .buffer = .polling notified (.tick::rest)) :
    bufferToGo (step st (.check .buffer false)).1 < bufferToGo st := by
  have hbuffer := hown .buffer
  rw [hphase] at hbuffer
  obtain rfl : rest = [.packet] := by
    have hsuffix : Arm.tick::rest <:+ [Arm.tick, Arm.packet] := hbuffer
    simpa [List.suffix_cons_iff] using hsuffix
  simp only [step, hphase, checkArm, State.pollArm, Bool.false_eq_true, if_false, bufferToGo,
    State.goto_self]
  simp only [State.goto]
  omega

/-- The decode loop makes for the closed channel at every turn. -/
theorem decode_moved (hown : OwnArms st) (hbuffer : (st.phase .buffer).hasLeft = true) (he : e ≠ .ctrlC)
    (hmoved : Moved st .decode e (st.phase .decode) ((step st e).1.phase .decode)) :
    ((step st e).1.phase .decode).hasLeft = true ∨ decodeToGo (step st e).1 < decodeToGo st := by
  have hwindows := (channels_step st e hown).2 hbuffer
  have hdecode := hown .decode
  generalize hphase : st.phase .decode = p at hmoved hdecode
  generalize hphase' : (step st e).1.phase .decode = p' at hmoved
  have hrest {arm : Arm} {rest : List Arm} (h : arm::rest <:+ [Arm.window, Arm.result]) :
      arm = .window ∧ rest = [.result] ∨ arm = .result ∧ rest = [] := by
    simpa [List.suffix_cons_iff] using h
  cases hmoved with
  | notify => contradiction
  | leave => exact .inl rfl
  | closed _ => exact .inl rfl
  | pending hpoll =>
    right
    obtain ⟨rfl, rfl⟩ | ⟨rfl, rfl⟩ := hrest hdecode
    · simp only [State.pollArm, hbuffer, if_true] at hpoll
      split_ifs at hpoll
    · simp only [decodeToGo, hphase, hphase']
      omega
  | start hpoll =>
    right
    have hstep := step_check_ready hphase hpoll
    obtain ⟨rfl, rfl⟩ | ⟨rfl, rfl⟩ := hrest hdecode
    · have htaken := (pollArm_ready hpoll).2.2.2 rfl
      simp only [decodeToGo, hphase, hphase']
      simp only [hstep, State.goto]
      omega
    · simp only [decodeToGo, hphase, hphase']
      omega
  | poll =>
    right
    simp only [decodeToGo, hphase, hphase', arms]
    omega
  | _ =>
    right
    simp only [decodeToGo, hphase, hphase']
    omega

end

section
variable {ρ : ℕ → Event}

/-- The buffer loop follows the receive loop. -/
theorem buffer_left (hfair : Fair ρ) {n : ℕ} (h : ((moment ρ n).phase .receive).hasLeft = true) :
    ∃ m, n < m ∧ ((moment ρ m).phase .buffer).hasLeft = true := by
  refine eventually_of_measure (I := fun n => ((moment ρ n).phase .receive).hasLeft = true)
    (fun n => bufferToGo (moment ρ n)) ?_ ?_ h
  · intro n hn
    obtain hleft | hless := buffer_step (ownArms_moment ρ n) hn (ρ n)
    · exact .inl hleft
    · exact .inr ⟨hasLeft_mono (Nat.le_succ n) hn, hless⟩
  · intro n _
    obtain ⟨m, hle, hleft | ⟨hquiet, notified, rest, hphase⟩⟩ := hfair.quiet n
    · exact ⟨m, hle, fun _ => .inl (hasLeft_mono (Nat.le_succ m) hleft)⟩
    · refine ⟨m, hle, fun _ => .inr ?_⟩
      rw [moment_succ, hquiet]
      exact buffer_quiet (ownArms_moment ρ m) hphase

/-- The decode loop follows the buffer loop. -/
theorem decode_left (hfair : Fair ρ) {n : ℕ} (h : ((moment ρ n).phase .buffer).hasLeft = true)
    (honce : ∀ m, n ≤ m → ρ m ≠ .ctrlC) :
    ∃ m, n < m ∧ ((moment ρ m).phase .decode).hasLeft = true := by
  refine eventually_of_measure (I := fun m => n ≤ m ∧ ((moment ρ m).phase .buffer).hasLeft = true)
    (fun m => decodeToGo (moment ρ m)) ?_ ?_ ⟨le_rfl, h⟩
  · rintro m ⟨hm, hbuffer⟩
    have hnext : n ≤ m+1 ∧ ((moment ρ (m+1)).phase .buffer).hasLeft = true :=
      ⟨by omega, hasLeft_mono (Nat.le_succ m) hbuffer⟩
    obtain hsame | hmoved := step_phase (moment ρ m) (ρ m) .decode
    · have hwindows := (channels_step (moment ρ m) (ρ m) (ownArms_moment ρ m)).2 hbuffer
      refine .inr ⟨hnext, ?_⟩
      simp only [moment_succ, decodeToGo, hsame]
      omega
    · obtain hleft | hless := decode_moved (ownArms_moment ρ m) hbuffer (honce m hm) hmoved
      · exact .inl hleft
      · exact .inr ⟨hnext, hless.le⟩
  · rintro m -
    obtain ⟨i, hle, htakes⟩ := hfair.turns .decode m
    refine ⟨i, hle, ?_⟩
    rintro ⟨hi, hbuffer⟩
    by_cases hleft : ((moment ρ i).phase .decode).hasLeft = true
    · exact .inl (hasLeft_mono (Nat.le_succ i) hleft)
    · obtain ⟨he, hmoved⟩ := moved_of_takes htakes (by simpa using hleft)
      exact decode_moved (ownArms_moment ρ i) hbuffer he hmoved

/-- A fair run in which Ctrl-C comes once, as event `k`, ends exactly if both receive loops hear the
signal: then the buffer loop and the decode loop leave too, whether the signal reached them or not,
and whatever was left in their channels; else the program goes on for ever. -/
theorem ends_iff (ρ : ℕ → Event) (k : ℕ) (hfair : Fair ρ) (hsignal : ρ k = .ctrlC)
    (honce : ∀ n, k < n → ρ n ≠ .ctrlC) :
    (∃ n, ∀ task, ((moment ρ n).phase task).hasLeft = true) ↔ Hears ρ k .receive ∧ Hears ρ k .status := by
  constructor
  · rintro ⟨n, hall⟩
    have hhears (task : Task) (htask : task = .receive ∨ task = .status) : Hears ρ k task := by
      have hlate (m : ℕ) (hm : k < m) : ((moment ρ m).phase task).reached = true := by
        by_contra hlost
        have hend := unreached_mono honce htask hm (le_max_left m n) (by simpa using hlost)
        rw [hasLeft_reached (hasLeft_mono (le_max_right m n) (hall task))] at hend
        contradiction
      refine ⟨?_, ?_⟩
      · rw [← step_ctrlC, ← hsignal]
        exact hlate (k+1) (Nat.lt_succ_self k)
      · intro m hm ready hcheck
        by_contra hover
        have hnext := hlate (m+1) (by omega)
        rw [moment_succ, hcheck] at hnext
        simp only [overtakes] at hover
        cases hphase : (moment ρ m).phase task with
        | polling notified rest =>
          rw [hphase] at hover
          cases notified with
          | false => simp at hover
          | true =>
            cases rest with
            | nil => simp at hover
            | cons arm rest =>
              cases hpoll : (moment ρ m).pollArm ready arm with
              | ready st' =>
                rw [step_check_ready hphase hpoll, State.goto_self] at hnext
                contradiction
              | _ => simp [hpoll] at hover
        | _ => simp [hphase] at hover
    exact ⟨hhears .receive (.inl rfl), hhears .status (.inr rfl)⟩
  · rintro ⟨hreceive, hstatus⟩
    obtain ⟨n, hn⟩ := left_of_hears honce hsignal hfair hreceive
    obtain ⟨i, hi⟩ := left_of_hears honce hsignal hfair hstatus
    obtain ⟨m, hm, hbuffer⟩ := buffer_left hfair (hasLeft_mono (le_max_left n k) hn)
    obtain ⟨j, hj, hdecode⟩ := decode_left hfair hbuffer (fun l hl => honce l (by omega))
    refine ⟨max i j, ?_⟩
    intro task
    cases task with
    | receive => exact hasLeft_mono (by omega) hn
    | status => exact hasLeft_mono (le_max_left i j) hi
    | buffer => exact hasLeft_mono (by omega) hbuffer
    | decode => exact hasLeft_mono (le_max_right i j) hdecode

/-- The signal comes while the buffer loop puts a packet into its window. It is lost there, and the
loop leaves through the closed packet channel. -/
theorem ends_iff_missed :
    let es : List Event := [.select .receive, .poll .receive, .check .receive true, .send .receive,
      .finish .receive, .select .receive, .select .status, .select .decode, .select .buffer,
      .poll .buffer, .check .buffer false, .check .buffer false, .ctrlC, .poll .receive, .poll .status,
      .poll .decode, .finish .buffer, .select .buffer, .poll .buffer, .check .buffer false,
      .check .buffer false]
    let ρ : ℕ → Event := fun n => es.getD n .decoded
    ((moment ρ 12).phase .buffer).reachable = false ∧
    (∀ task, ((moment ρ 21).phase task).hasLeft = true) ∧ Hears ρ 12 .receive ∧ Hears ρ 12 .status := by
  intro es ρ
  have hend : ∀ task, ((moment ρ 21).phase task).hasLeft = true := by decide +kernel
  have hfair : Fair ρ := by
    constructor
    · intro task n
      exact ⟨max n 21, le_max_left n 21, takes_of_left (hasLeft_mono (le_max_right n 21) (hend task)) _⟩
    · intro n
      exact ⟨max n 21, le_max_left n 21, .inl (hasLeft_mono (le_max_right n 21) (hend .buffer))⟩
  refine ⟨by decide +kernel, hend, (ends_iff ρ 12 hfair rfl ?_).mp ⟨21, hend⟩⟩
  intro n hn
  have hlater : ∀ e ∈ .decoded::es.drop 13, e ≠ .ctrlC := by decide
  have hdrop : es[n]? = (es.drop 13)[n-13]? := by
    rw [List.getElem?_drop]
    congr 1
    omega
  refine hlater _ ?_
  simp only [ρ, List.getD_eq_getElem?_getD]
  cases hget : es[n]? with
  | none => exact List.mem_cons_self
  | some e =>
    rw [hdrop] at hget
    exact List.mem_cons_of_mem _ (List.mem_of_getElem? hget)

end

end Wsprrs.Shutdown
