import Wsprrs.Decode.Isolation
import Wsprrs.Foundation.LinkedMachines
import Wsprrs.System.Backlog

/-! The program with its files: the loops and their channels, and the decodes that run beside
them in their work directories. A decode is spawned with the window received under its number,
and what it ends with is sent back to the decode task. -/
namespace Wsprrs.Program
open EventMachine

/-- `task` is a step of a decode in its directory, once `spawn` has given it its window. In `join`
the outcome only names the result of the decode that is sent: it is one that gives this result. -/
inductive Event (δ : Type*)
  | system (e : System.Event)
  | spawn (id : ℕ)
  | task (id : ℕ) (e : Workspace.TaskEvent δ)
  | join (id : ℕ) (outcome : Pipeline.Outcome)
  | wisdom (content : Option (List UInt8))

abbrev State (δ : Type*) := System.State × Workspace.State ℕ δ

abbrev Action := System.Action ⊕ (ℕ × Workspace.TaskAction)

def State.initial {δ : Type*} (disk : Workspace.Disk δ) (wisdom : Option (List UInt8)) : State δ :=
  (.initial, .initial disk wisdom)

section
variable {δ : Type*}

/-- The decode is over, and `outcome` gives its result. -/
def ends (st : State δ) (id : ℕ) (outcome : Pipeline.Outcome) : Bool :=
  match st.1.pipeline.spawned[id]?, st.2.phase id with
  | some window, .done result => decide (Pipeline.decodeWindow window outcome = result)
  | _, _ => false

theorem of_ends {st : State δ} {id : ℕ} {outcome : Pipeline.Outcome} (h : ends st id outcome = true) :
    ∃ window result, st.1.pipeline.spawned[id]? = some window ∧ st.2.phase id = .done result ∧
      Pipeline.decodeWindow window outcome = result := by
  unfold ends at h
  split at h
  · next window result hwindow hdone => exact ⟨window, result, hwindow, hdone, of_decide_eq_true h⟩
  · contradiction

/-- A result reaches the decode task only through a decode that has ended with it. -/
def systemFocus (st : State δ) : Event δ → Option System.Event
  | .system (.complete _ _) => none
  | .system e => some e
  | .join id outcome => if ends st id outcome then some (.complete id outcome) else none
  | _ => none

/-- A decode gets its window only through the decode task. -/
def filesFocus (st : State δ) : Event δ → Option (Workspace.Event ℕ δ)
  | .spawn id => st.1.pipeline.spawned[id]?.map (fun window => .task id (.spawn window))
  | .task _ (.spawn _) => none
  | .task id e => some (.task id e)
  | .wisdom content => some (.wisdom content)
  | _ => none

variable [DecidableEq δ] (cfg : Config) (sinks : DecodeTask.Sinks)
  (toJson : WsprSpot → Except Text Text)

def machine (δ : Type*) [DecidableEq δ] : EventMachine (State δ) (Event δ) Action :=
  (System.machine cfg sinks toJson).linked (Workspace.machine ℕ δ) ⟨systemFocus, filesFocus⟩

def systemComponent : Component (machine cfg sinks toJson δ) (System.machine cfg sinks toJson) :=
  linkedLeft ..

def filesComponent : Component (machine cfg sinks toJson δ) (Workspace.machine ℕ δ) :=
  linkedRight ..

theorem system_step (st : State δ) (e : Event δ) :
    ((machine cfg sinks toJson δ).step st e).1.1 =
      (System.machine cfg sinks toJson).after st.1 (systemFocus st e).toList :=
  (systemComponent cfg sinks toJson).view_step st e

theorem files_step (st : State δ) (e : Event δ) :
    ((machine cfg sinks toJson δ).step st e).1.2 =
      (Workspace.machine ℕ δ).after st.2 (filesFocus st e).toList :=
  (filesComponent cfg sinks toJson).view_step st e

variable (disk : Workspace.Disk δ) (wisdom : Option (List UInt8)) (es : List (Event δ))

/-- The steps of the loops and channels in a run. -/
def systemEvents : List System.Event :=
  (systemComponent cfg sinks toJson).trace (.initial disk wisdom) es

/-- The steps of the decodes. -/
def fileEvents : List (Workspace.Event ℕ δ) :=
  (filesComponent cfg sinks toJson).trace (.initial disk wisdom) es

/-- What the loops have done. -/
def loops (out : List Action) : List System.Action := out.filterMap Sum.getLeft?

/-- What the decode task has done. -/
def decodeTask (out : List Action) : List DecodeTask.Action :=
  ((loops out).filterMap System.Action.pipeline?).filterMap Pipeline.Action.output?

/-- What the decodes have done. -/
def decodes (out : List Action) : List (ℕ × Workspace.TaskAction) := out.filterMap Sum.getRight?

theorem system_after :
    ((machine cfg sinks toJson δ).after (.initial disk wisdom) es).1 =
      (System.machine cfg sinks toJson).after .initial (systemEvents cfg sinks toJson disk wisdom es) :=
  (systemComponent cfg sinks toJson).view_after (.initial disk wisdom) es

theorem files_after :
    ((machine cfg sinks toJson δ).after (.initial disk wisdom) es).2 =
      (Workspace.machine ℕ δ).after (.initial disk wisdom)
        (fileEvents cfg sinks toJson disk wisdom es) :=
  (filesComponent cfg sinks toJson).view_after (.initial disk wisdom) es

theorem loops_outputs :
    loops ((machine cfg sinks toJson δ).outputs (.initial disk wisdom) es) =
      (System.machine cfg sinks toJson).outputs .initial
        (systemEvents cfg sinks toJson disk wisdom es) :=
  (systemComponent cfg sinks toJson).pick_outputs (.initial disk wisdom) es

theorem decodeTask_outputs :
    decodeTask ((machine cfg sinks toJson δ).outputs (.initial disk wisdom) es) =
      System.decoded cfg sinks toJson (systemEvents cfg sinks toJson disk wisdom es) := by
  rw [decodeTask, loops_outputs, System.decoded]

theorem decodes_outputs :
    decodes ((machine cfg sinks toJson δ).outputs (.initial disk wisdom) es) =
      (Workspace.machine ℕ δ).outputs (.initial disk wisdom)
        (fileEvents cfg sinks toJson disk wisdom es) :=
  (filesComponent cfg sinks toJson).pick_outputs (.initial disk wisdom) es

end
end Wsprrs.Program
