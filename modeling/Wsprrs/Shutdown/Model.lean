import Mathlib.Data.Fintype.Defs
import Wsprrs.Foundation.EventMachine

/-! The four task loops and the Ctrl-C handler. Every loop runs `select!` over a fresh
`Notified` future and its own arms, and drops that future before the body of an arm. -/
namespace Wsprrs.Shutdown

def PACKET_CHAN_CAP : ℕ := 1024
def WINDOW_CHAN_CAP : ℕ := 8

/-- The tasks `multicast::receive_loop`, `status::receive_loop`, `buffer_task` and
`decode_task`. -/
inductive Task
  | receive
  | status
  | buffer
  | decode
  deriving DecidableEq

instance : Fintype Task where
  elems := {.receive, .status, .buffer, .decode}
  complete := by
    intro task
    cases task <;> decide

inductive Arm
  | datagram
  | statusDatagram
  | tick
  | packet
  | window
  | result
  deriving DecidableEq

/-- The arms after the shutdown arm, in the order in which they are written. -/
def arms : Task → List Arm
  | .receive => [.datagram]
  | .status => [.statusDatagram]
  | .buffer => [.tick, .packet]
  | .decode => [.window, .result]

inductive Exit
  | shutdown
  | channelClosed
  deriving DecidableEq

/-- Between two iterations there is no future; `waiting` and `polling` have one, which knows
whether it was notified. While polling, `rest` are the arms still to be polled, the shutdown
arm having been found pending. -/
inductive Phase
  | top
  | waiting (notified : Bool)
  | polling (notified : Bool) (rest : List Arm)
  | body (arm : Arm)
  | left (reason : Exit)
  deriving DecidableEq

namespace Phase

/-- The part of `notify_waiters` that one task sees: it reaches the futures that exist. -/
def notify : Phase → Phase
  | .waiting _ => .waiting true
  | .polling _ rest => .polling true rest
  | p => p

def hasLeft : Phase → Bool
  | .left _ => true
  | _ => false

/-- There is a future for `notify_waiters` to reach, or none is needed any more. -/
def reachable : Phase → Bool
  | .top => false
  | .body _ => false
  | _ => true

end Phase

/-- Where the loops are, the lengths of the three channels, and the decodes still running. -/
structure State where
  phase : Task → Phase
  packets : ℕ
  windows : ℕ
  results : ℕ
  decoding : ℕ

def State.initial : State := ⟨fun _ => .top, 0, 0, 0, 0⟩

/-- `check` polls the next arm, `ready` telling whether a socket or the interval is ready.
`send` is one send of the running body, which may make any number of them. -/
inductive Event
  | ctrlC
  | select (task : Task)
  | poll (task : Task)
  | check (task : Task) (ready : Bool)
  | send (task : Task)
  | finish (task : Task)
  | decoded
  deriving DecidableEq

inductive Action
  | started (task : Task) (arm : Arm)
  | left (task : Task) (reason : Exit)
  deriving DecidableEq

namespace State

def goto (st : State) (task : Task) (p : Phase) : State :=
  { st with phase := Function.update st.phase task p }

@[simp] theorem goto_self (st : State) (task : Task) (p : Phase) : (st.goto task p).phase task = p :=
  Function.update_self ..

theorem goto_ne (st : State) {task other : Task} (h : other ≠ task) (p : Phase) :
    (st.goto task p).phase other = st.phase other :=
  Function.update_of_ne h ..

/-- Polling an arm: nothing yet, an item taken off its source, or a closed channel. -/
inductive Polled
  | pending
  | ready (st : State)
  | closed

def pollArm (st : State) (ready : Bool) : Arm → Polled
  | .datagram | .statusDatagram | .tick => if ready then .ready st else .pending
  | .packet =>
    if 0 < st.packets then .ready { st with packets := st.packets - 1 }
    else if (st.phase .receive).hasLeft then .closed else .pending
  | .window =>
    if 0 < st.windows then .ready { st with windows := st.windows - 1 }
    else if (st.phase .buffer).hasLeft then .closed else .pending
  | .result =>
    if 0 < st.results then .ready { st with results := st.results - 1 } else .pending

/-- A packet is dropped if the channel is full; a window waits for room; a window arm spawns a
decode. Sends to a task that has left fail. -/
def sendFrom (st : State) : Arm → State
  | .datagram =>
    if st.packets < PACKET_CHAN_CAP ∧ (st.phase .buffer).hasLeft = false then
      { st with packets := st.packets + 1 }
    else st
  | .tick | .packet =>
    if st.windows < WINDOW_CHAN_CAP ∧ (st.phase .decode).hasLeft = false then
      { st with windows := st.windows + 1 }
    else st
  | .window => { st with decoding := st.decoding + 1 }
  | .statusDatagram | .result => st

/-- Neither polling an arm nor sending moves a loop. -/
theorem pollArm_phase {st st' : State} {ready : Bool} {arm : Arm}
    (h : st.pollArm ready arm = .ready st') : st'.phase = st.phase := by
  cases arm <;> simp only [pollArm] at h <;> split_ifs at h <;> cases h <;> rfl

theorem sendFrom_phase (st : State) (arm : Arm) : (st.sendFrom arm).phase = st.phase := by
  cases arm <;> simp only [sendFrom] <;> split_ifs <;> rfl

end State

def checkArm (st : State) (task : Task) (notified ready : Bool) :
    List Arm → State × List Action
  | [] => (st.goto task (.waiting notified), [])
  | arm::rest =>
    match st.pollArm ready arm with
    | .pending => (st.goto task (.polling notified rest), [])
    | .ready st' => (st'.goto task (.body arm), [.started task arm])
    | .closed => (st.goto task (.left .channelClosed), [.left task .channelClosed])

def step (st : State) : Event → State × List Action
  | .ctrlC => ({ st with phase := fun task => (st.phase task).notify }, [])
  | .select task =>
    match st.phase task with
    | .top => (st.goto task (.waiting false), [])
    | _ => (st, [])
  | .poll task =>
    match st.phase task with
    | .waiting true => (st.goto task (.left .shutdown), [.left task .shutdown])
    | .waiting false => (st.goto task (.polling false (arms task)), [])
    | _ => (st, [])
  | .check task ready =>
    match st.phase task with
    | .polling notified rest => checkArm st task notified ready rest
    | _ => (st, [])
  | .send task =>
    match st.phase task with
    | .body arm => (st.sendFrom arm, [])
    | _ => (st, [])
  | .finish task =>
    match st.phase task with
    | .body _ => (st.goto task .top, [])
    | _ => (st, [])
  | .decoded =>
    if 0 < st.decoding then
      ({ st with decoding := st.decoding - 1,
                 results := if (st.phase .decode).hasLeft then st.results else st.results + 1 }, [])
    else (st, [])

def machine : EventMachine State Event Action := ⟨step⟩

@[simp] theorem machine_step : machine.step = step := rfl

end Wsprrs.Shutdown
