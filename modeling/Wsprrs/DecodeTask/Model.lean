import Wsprrs.Buffer.AudioWindow
import Wsprrs.Foundation.EventMachine
import Wsprrs.Spot

/-! The decode task between the window channel and its two sinks. Windows fan out to decodes
that run concurrently; their results come back on a channel of their own. No shutdown is
requested, and each decode has a number, which the code does not see. -/
namespace Wsprrs.DecodeTask

/-- What a spawned decode sends back: its spots with the start of the window, or an error. -/
abbrev DecodeResult := Except Text (List WsprSpot × ℤ)

/-- One of the three writes of a line, the newline and the flush has failed, after the first
`written` characters of the line had got into the file. -/
structure WriteFault where
  written : ℕ
  error : Text
  deriving DecidableEq

/-- The ClickHouse client refuses the insert, the row with this index or the commit. -/
inductive InsertFault
  | create (error : Text)
  | row (index : ℕ) (error : Text)
  | commit (error : Text)
  deriving DecidableEq

/-- The output file, if it could be opened, and the table of the ClickHouse client, if one is
configured; and what the environment makes fail: the write of the spot of a decode that so many
more follow, and the insert of its batch. -/
structure Sinks where
  outFile : Bool
  chTable : Option String
  write : ℕ → ℕ → Option WriteFault := fun _ _ => none
  insert : ℕ → Option InsertFault := fun _ => none

/-- Of a line that is cut off the first `written` characters are in the file; the rows that are
refused were built and handed over before the insert failed. -/
inductive Effect
  | logged (message : String) (detail : Text)
  | spotLogged (json : Text)
  | appended (text : Text)
  | cutOff (json : Text) (written : ℕ)
  | flushed
  | inserted (table : String) (rows : List WsprSpotRow)
  | refused (table : String) (rows : List WsprSpotRow)
  deriving DecidableEq

/-- `returned` is the way out, with the last flush of the file. -/
inductive Action
  | received (id : ℕ) (window : AudioWindow)
  | decoded (id : ℕ) (result : DecodeResult)
  | effect (id : ℕ) (effect : Effect)
  | returned
  deriving DecidableEq

/-- At `select!`, in the loop over the spots of a result, or past the end of the function. -/
inductive Phase
  | selecting
  | writing (id : ℕ) (rest spots : List WsprSpot) (windowStart : ℤ)
  | returned
  deriving DecidableEq

/-- The environment queues windows, drops the last sender, and finishes decodes; the task
goes on to its next suspension point. -/
inductive Event
  | arrive (window : AudioWindow)
  | close
  | complete (id : ℕ) (result : DecodeResult)
  | advance
  deriving DecidableEq

/-- Both channels with their contents in order, the decodes that are still running, and the
number of windows received so far. -/
structure State where
  winQueue : List AudioWindow
  winClosed : Bool
  decoding : List ℕ
  spotQueue : List (ℕ × DecodeResult)
  nextId : ℕ
  phase : Phase

def State.initial : State := ⟨[], false, [], [], 0, .selecting⟩

section
variable (sinks : Sinks) (toJson : WsprSpot → Except Text Text)

def logSpot (spot : WsprSpot) : List Effect :=
  match toJson spot with
  | .ok json => [.spotLogged json]
  | .error e => [.logged "failed to serialise spot" e]

/-- Write the spot of the decode `id` that `left` more follow. -/
def writeSpot (id left : ℕ) (spot : WsprSpot) : List Effect :=
  if sinks.outFile = false then []
  else
    match toJson spot with
    | .ok json =>
      match sinks.write id left with
      | none => [.appended json, .appended ['\n'], .flushed]
      | some fault =>
        [.cutOff json fault.written, .logged "failed to write spot to output file" fault.error]
    | .error e => [.logged "failed to serialise spot for output file" e]

def insertSpotsCh (table : String) (id : ℕ) (spots : List WsprSpot) (windowStart : ℤ) : List Effect :=
  if spots.isEmpty then []
  else
    let rows := spots.map (fun spot => WsprSpotRow.fromSpot spot windowStart)
    match sinks.insert id with
    | none => [.inserted table rows]
    | some (.create e) => [.logged "failed to create ClickHouse inserter" e]
    | some (.row index e) =>
      [.refused table (rows.take (index+1)),
        .logged "failed to write spot row to ClickHouse inserter" e]
    | some (.commit e) => [.refused table rows, .logged "failed to commit ClickHouse insert" e]

def insertBatch (id : ℕ) (spots : List WsprSpot) (windowStart : ℤ) : List Effect :=
  match sinks.chTable with
  | some table => insertSpotsCh sinks table id spots windowStart
  | none => []

def noticeEmpty (spots : List WsprSpot) : List Effect :=
  if spots.isEmpty then [.logged "wsprd: no spots decoded in this window" []] else []

/-- The arm of a result, up to the loop over its spots. -/
def takeResult (st : State) (id : ℕ) : DecodeResult → State × List Action
  | .ok (spots, windowStart) =>
    ({ st with phase := .writing id spots spots windowStart },
      (noticeEmpty spots).map (Action.effect id))
  | .error e => (st, [.effect id (.logged "wsprd decode failed" e)])

/-- One pass through `select!`: its arms are polled in the order in which they are written,
and the closed window channel counts as ready. -/
def poll (st : State) : State × List Action :=
  match st.winQueue with
  | window::rest =>
    ({ st with winQueue := rest, decoding := st.decoding ++ [st.nextId], nextId := st.nextId + 1 },
      [.received st.nextId window])
  | [] =>
    if st.winClosed then ({ st with phase := .returned }, [.returned])
    else
      match st.spotQueue with
      | (id,result)::rest => takeResult { st with spotQueue := rest } id result
      | [] => (st, [])

def advance (st : State) : State × List Action :=
  match st.phase with
  | .selecting => poll st
  | .writing id (spot::rest) spots windowStart =>
    ({ st with phase := .writing id rest spots windowStart },
      (logSpot toJson spot ++ writeSpot sinks toJson id rest.length spot).map (Action.effect id))
  | .writing id [] spots windowStart =>
    ({ st with phase := .selecting }, (insertBatch sinks id spots windowStart).map (Action.effect id))
  | .returned => (st, [])

/-- Sends fail once the receiving end is gone. -/
def step (st : State) : Event → State × List Action
  | .arrive window =>
    if st.winClosed ∨ st.phase = .returned then (st, [])
    else ({ st with winQueue := st.winQueue ++ [window] }, [])
  | .close => ({ st with winClosed := true }, [])
  | .complete id result =>
    if id ∉ st.decoding then (st, [])
    else if st.phase = .returned then ({ st with decoding := st.decoding.erase id }, [])
    else
      ({ st with decoding := st.decoding.erase id, spotQueue := st.spotQueue ++ [(id,result)] },
        [.decoded id result])
  | .advance => advance sinks toJson st

def machine : EventMachine State Event Action := ⟨step sinks toJson⟩

@[simp] theorem machine_step : (machine sinks toJson).step = step sinks toJson := rfl

end
end Wsprrs.DecodeTask
