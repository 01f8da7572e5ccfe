import Mathlib.Data.List.AList
import Wsprrs.Buffer.AudioWindow
import Wsprrs.Config
import Wsprrs.Foundation.FallibleMachine
import Wsprrs.Rtp.Packet
import Wsprrs.Status.Packet

/-! The buffer task and the status task as one machine over time-stamped events. The
window channel is open and no shutdown was requested, so every send succeeds. A packet whose
window is too large to allocate makes the task panic, which ends the run. -/
namespace Wsprrs.BufferTask
open Rtp Status

/-- The windows being filled, one per SSRC. -/
abbrev Windows := AList (fun _ : UInt32 => AudioWindow)

/-- The order in which one tick visits the hash map. -/
def IterOrder := { f : List UInt32 → List UInt32 // ∀ l, (f l).Perm l }

def IterOrder.id : IterOrder := ⟨fun l => l, fun l => List.Perm.refl l⟩

/-- What happens to a window: it is created, it is given a packet, it goes to the decode
task, or it is thrown away. -/
inductive WindowAct
  | opened (window : AudioWindow)
  | ingested (window : AudioWindow) (call : IngestCall)
  | sent (window : AudioWindow)
  | dropped (window : AudioWindow)
  deriving DecidableEq

structure Action where
  ssrc : UInt32
  act : WindowAct
  deriving DecidableEq

/-- A packet reads the clock once before a window is opened and once inside `ingest`, `lag`
nanoseconds later. -/
inductive Input
  | status (buf : List UInt8)
  | rtp (buf : List UInt8) (lag : ℕ)
  | tick (order : IterOrder)

structure Event where
  now : ℤ
  input : Input

structure State where
  channelMap : ChannelMap
  windows : Windows

def State.initial : State := ⟨fun _ => none, ∅⟩

/-- The capture duration of a window has elapsed. -/
def expired (captureSeconds : UInt32) (now : ℤ) (window : AudioWindow) : Bool :=
  elapsed now window.windowStart ≥ Duration.fromSecs captureSeconds.toNat

def expiredSsrcs (cfg : Config) (now : ℤ) (order : IterOrder) (windows : Windows) : List UInt32 :=
  (order.1 windows.keys).filter (fun ssrc =>
    (windows.lookup ssrc).any (expired cfg.captureSeconds now))

/-- Remove a window and send it to the decode task. -/
def sealWindow (windows : Windows) (ssrc : UInt32) : Windows × List Action :=
  match windows.lookup ssrc with
  | some window => (windows.erase ssrc, [⟨ssrc, .sent window⟩])
  | none => (windows, [])

def sealAll (windows : Windows) : List UInt32 → Windows × List Action
  | [] => (windows, [])
  | ssrc::rest =>
    let r := sealWindow windows ssrc
    let rs := sealAll r.1 rest
    (rs.1, r.2 ++ rs.2)

def handleTick (cfg : Config) (now : ℤ) (order : IterOrder) (windows : Windows) :
    Windows × List Action :=
  sealAll windows (expiredSsrcs cfg now order windows)

def passesFilter (cfg : Config) (ssrc : UInt32) : Bool :=
  match cfg.ssrcFilter with
  | some filter => ssrc == filter
  | none => true

/-- The capture time of the current cycle is already over. -/
def late (captureSeconds : UInt32) (now : ℤ) : Bool :=
  Duration.asSecs (elapsed now (evenMinuteBoundary now)) ≥ captureSeconds.toNat

/-- The window for the current cycle, unless its capture time is already over. There is none
either if `AudioWindow::new` panics. -/
def openWindow (captureSeconds : UInt32) (now : ℤ) (info : ChannelInfo) : Option AudioWindow :=
  if late captureSeconds now then none
  else AudioWindow.newChecked (evenMinuteBoundary now) info.centerFreqHz info.sampleRateHz captureSeconds

/-- Not late, and yet no window: `AudioWindow::new` has panicked. -/
def openPanics (captureSeconds : UInt32) (now : ℤ) (info : ChannelInfo) : Bool :=
  !late captureSeconds now && (openWindow captureSeconds now info).isNone

/-- Get or create the window of an SSRC. -/
def getOrOpen (cfg : Config) (now : ℤ) (info : ChannelInfo) (windows : Windows) (ssrc : UInt32) :
    Option (Windows × AudioWindow × List Action) :=
  match windows.lookup ssrc with
  | some window => some (windows, window, [])
  | none =>
    match openWindow cfg.captureSeconds now info with
    | none => none
    | some window => some (windows.insert ssrc window, window, [⟨ssrc, .opened window⟩])

/-- The three arms after `ingest` has changed a window in place. -/
def afterIngest (windows : Windows) (ssrc : UInt32) (window : AudioWindow) :
    Except WsprError Unit → Windows × List Action
  | .ok () => (windows, [])
  | .error (.bufferOverflow _) => sealWindow windows ssrc
  | .error _ => (windows.erase ssrc, [⟨ssrc, .dropped window⟩])

def ingestCall (info : ChannelInfo) (rtp : RtpPacket) (now : ℤ) : IngestCall where
  payload := rtp.payload
  rtpTimestamp := rtp.header.timestamp
  sampleRateHz := info.sampleRateHz
  rtpSeq := rtp.header.sequence
  ssrc := rtp.header.ssrc
  encoding := info.encoding
  now := now

/-- One RTP datagram. The result is missing if the task panics. -/
def handlePacket (cfg : Config) (now : ℤ) (lag : ℕ) (map : ChannelMap) (windows : Windows)
    (buf : List UInt8) : Option (Windows × List Action) :=
  match parseRtpPacket buf with
  | .error _ => some (windows, [])
  | .ok rtp =>
    let ssrc := rtp.header.ssrc
    if passesFilter cfg ssrc = false then some (windows, [])
    else
      match map ssrc with
      | none => some (windows, [])
      | some info =>
        if info.isAudioReady = false then some (windows, [])
        else if (windows.lookup ssrc).isNone && openPanics cfg.captureSeconds now info then none
        else
          match getOrOpen cfg now info windows ssrc with
          | none => some (windows, [])
          | some (windows, window, opened) =>
            let call := ingestCall info rtp (now + lag)
            let r := window.ingest call
            let rs := afterIngest (windows.insert ssrc r.1) ssrc r.1 r.2
            some (rs.1, opened ++ ⟨ssrc, .ingested window call⟩ :: rs.2)

/-- One event. The result is missing if the task panics, and with it all its windows are. -/
def stepChecked (cfg : Config) (st : State) (e : Event) : Option (State × List Action) :=
  match e.input with
  | .status buf => some ({ st with channelMap := (processStatusPacket buf st.channelMap).2 }, [])
  | .rtp buf lag =>
    (handlePacket cfg e.now lag st.channelMap st.windows buf).map (fun r =>
      ({ st with windows := r.1 }, r.2))
  | .tick order =>
    let r := handleTick cfg e.now order st.windows
    some ({ st with windows := r.1 }, r.2)

def task (cfg : Config) : FallibleMachine State Event Action := ⟨stepChecked cfg⟩

/-- The step of a task that goes on: what is said of it holds up to the first panic. -/
def step (cfg : Config) (st : State) (e : Event) : State × List Action :=
  (stepChecked cfg st e).getD (st, [])

/-- The task as long as it does not panic. -/
def machine (cfg : Config) : EventMachine State Event Action := (task cfg).total

@[simp] theorem machine_step (cfg : Config) : (machine cfg).step = step cfg := rfl

/-- The clock never goes back. -/
def Chronological (es : List Event) : Prop := es.Pairwise (fun e e' => e.now ≤ e'.now)

instance (es : List Event) : Decidable (Chronological es) := by
  unfold Chronological
  infer_instance

/-- The windows sent to the decode task for one SSRC, in order. -/
def sentTo (ssrc : UInt32) (actions : List Action) : List AudioWindow :=
  actions.filterMap (fun a =>
    match a.act with
    | .sent window => if a.ssrc = ssrc then some window else none
    | _ => none)

/-- A status datagram that makes SSRC 9 ready at one sample per second. -/
def readyStatus : List UInt8 :=
  [0, 18,1,9, 20,1,1, 33,8,0x40,0x59,0,0,0,0,0,0, 49,1,1, 107,1,2]

/-- An RTP packet of SSRC 9 with one sample. -/
def onePacket (seq timestamp : UInt8) : List UInt8 :=
  [0x80,122,0,seq, 0,0,0,timestamp, 0,0,0,9, 0,7]

def shortCapture : Config := ⟨none, 111, by decide⟩

end Wsprrs.BufferTask
