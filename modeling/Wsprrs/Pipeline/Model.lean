import Wsprrs.BufferTask.Model
import Wsprrs.Decode.AllWspr
import Wsprrs.DecodeTask.Model
import Wsprrs.Shutdown.Model

/-! The buffer task, the spawned decodes and the decode task as one system. Sealed windows wait
for room in the bounded channel between the tasks; each one received is decoded on its own.
No shutdown is requested, and a run counts up to the first packet on which the buffer task
panics. -/
namespace Wsprrs.Pipeline
open Shutdown

/-- How the files and the `wsprd` process of one decode turn out. -/
inductive Outcome
  | failed (error : Text)
  | noFile
  | file (content : Text)
  deriving DecidableEq

/-- `ALL_WSPR.TXT` is missing if there is no spot. -/
def runWsprd (windowStart : ℤ) : Outcome → Except Text (List WsprSpot)
  | .failed error => .error error
  | .noFile => .ok []
  | .file content => .ok (parseAllWsprTxt content windowStart)

def decodeWindow (window : AudioWindow) (outcome : Outcome) : Except Text (List WsprSpot) :=
  let windowStart := window.windowStart
  runWsprd windowStart outcome

/-- The body of a spawned task. The start of the window is copied before the window is moved. -/
def spawnedDecode (window : AudioWindow) (outcome : Outcome) : DecodeTask.DecodeResult :=
  let windowStart := window.windowStart
  (decodeWindow window outcome).map (fun spots => (spots, windowStart))

/-- `sealing` are the windows that the running arm of the buffer task has taken off its map and
not sent yet; `spawned` are the windows received so far, in the order of their decodes. -/
structure State where
  capture : BufferTask.State
  sealing : List AudioWindow
  spawned : List AudioWindow
  output : DecodeTask.State

def State.initial : State := ⟨.initial, [], [], .initial⟩

/-- `leave` is the end of the buffer task, once the packet channel is closed. -/
inductive Event
  | capture (e : BufferTask.Event)
  | send
  | complete (id : ℕ) (outcome : Outcome)
  | advance
  | leave

inductive Action
  | captured (a : BufferTask.Action)
  | output (a : DecodeTask.Action)
  deriving DecidableEq

/-- Status datagrams are handled by a task of their own; ticks and packets wait until the
running arm of the buffer task has sent all its windows. -/
def captures (st : State) (e : BufferTask.Event) : Bool :=
  match e.input with
  | .status _ => true
  | _ => st.sealing.isEmpty && !st.output.winClosed

/-- The windows that a list of actions hands over for decoding. -/
def sealedBy (actions : List BufferTask.Action) : List AudioWindow :=
  actions.filterMap (fun a =>
    match a.act with
    | .sent window => some window
    | _ => none)

def receivedBy (actions : List DecodeTask.Action) : List AudioWindow :=
  actions.filterMap (fun a =>
    match a with
    | .received _ window => some window
    | _ => none)

section
variable (cfg : Config) (sinks : DecodeTask.Sinks) (toJson : WsprSpot → Except Text Text)

/-- A step of the decode task or of its channels. -/
def outputStep (st : State) (e : DecodeTask.Event) : State × List Action :=
  let r := DecodeTask.step sinks toJson st.output e
  ({ st with output := r.1, spawned := st.spawned ++ receivedBy r.2 }, r.2.map Action.output)

/-- `send` is one `win_tx.send`, which is suspended while the channel is full. -/
def step (st : State) : Event → State × List Action
  | .capture e =>
    if captures st e then
      let r := BufferTask.step cfg st.capture e
      ({ st with capture := r.1, sealing := st.sealing ++ sealedBy r.2 }, r.2.map Action.captured)
    else (st, [])
  | .send =>
    match st.sealing with
    | [] => (st, [])
    | window::rest =>
      if st.output.winQueue.length < WINDOW_CHAN_CAP then
        outputStep sinks toJson { st with sealing := rest } (.arrive window)
      else (st, [])
  | .complete id outcome =>
    match st.spawned[id]? with
    | none => (st, [])
    | some window => outputStep sinks toJson st (.complete id (spawnedDecode window outcome))
  | .advance => outputStep sinks toJson st .advance
  | .leave => if st.sealing = [] then outputStep sinks toJson st .close else (st, [])

def machine : EventMachine State Event Action := ⟨step cfg sinks toJson⟩

@[simp] theorem machine_step : (machine cfg sinks toJson).step = step cfg sinks toJson := rfl

/-- What an event of the system is to the decode task. -/
def outputFocus (st : State) : Event → Option DecodeTask.Event
  | .capture _ => none
  | .send =>
    match st.sealing with
    | [] => none
    | window::_ =>
      if st.output.winQueue.length < WINDOW_CHAN_CAP then some (.arrive window) else none
  | .complete id outcome =>
    match st.spawned[id]? with
    | none => none
    | some window => some (.complete id (spawnedDecode window outcome))
  | .advance => some .advance
  | .leave => if st.sealing = [] then some .close else none

def captureFocus (st : State) : Event → Option BufferTask.Event
  | .capture e => if captures st e then some e else none
  | _ => none

end

def Action.output? : Action → Option DecodeTask.Action
  | .output a => some a
  | _ => none

def Action.captured? : Action → Option BufferTask.Action
  | .captured a => some a
  | _ => none

theorem filterMap_output_map (as : List DecodeTask.Action) :
    (as.map Action.output).filterMap Action.output? = as := by
  simp [List.filterMap_map, Function.comp_def, Action.output?]

theorem filterMap_output_captured (as : List BufferTask.Action) :
    (as.map Action.captured).filterMap Action.output? = [] := by
  simp [List.filterMap_map, Function.comp_def, Action.output?]

theorem filterMap_captured_map (as : List BufferTask.Action) :
    (as.map Action.captured).filterMap Action.captured? = as := by
  simp [List.filterMap_map, Function.comp_def, Action.captured?]

theorem filterMap_captured_output (as : List DecodeTask.Action) :
    (as.map Action.output).filterMap Action.captured? = [] := by
  simp [List.filterMap_map, Function.comp_def, Action.captured?]

end Wsprrs.Pipeline
