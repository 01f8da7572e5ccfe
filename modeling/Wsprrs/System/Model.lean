import Wsprrs.Foundation.LossyQueue
import Wsprrs.Foundation.Overlay
import Wsprrs.Pipeline.Model

/-! The whole program between its two sockets and its two outputs: the receive loop and the
packet channel in front of the pipeline. The receive loop never waits for the buffer task. -/
namespace Wsprrs.System
open Shutdown

def MAX_UDP : ℕ := 65535

structure ReceivedPacket where
  data : List UInt8
  len : ℕ

/-- What the buffer task parses of a packet. -/
def ReceivedPacket.bytes (pkt : ReceivedPacket) : List UInt8 := pkt.data.take pkt.len

/-- `recv_from`: the datagram overwrites the beginning of the one buffer of the loop, and what
does not fit is cut off. -/
def recvFrom (buf datagram : List UInt8) : List UInt8 × ℕ :=
  (overlay buf 0 (datagram.take buf.length), min datagram.length buf.length)

/-- The buffers of the two loops, the packet channel, and the tasks behind it. -/
structure State where
  dataBuf : List UInt8
  statusBuf : List UInt8
  packets : LossyQueue ReceivedPacket
  pipeline : Pipeline.State

def State.initial : State where
  dataBuf := List.replicate MAX_UDP 0
  statusBuf := List.replicate MAX_UDP 0
  packets := .empty
  pipeline := .initial

/-- `packet` and `tick` are arms of the buffer task, which reads the clock in both. -/
inductive Event
  | datagram (bytes : List UInt8)
  | recvError (error : Text)
  | statusDatagram (now : ℤ) (bytes : List UInt8)
  | statusError (error : Text)
  | packet (now : ℤ) (lag : ℕ)
  | tick (now : ℤ) (order : BufferTask.IterOrder)
  | send
  | complete (id : ℕ) (outcome : Pipeline.Outcome)
  | advance

/-- `queue` is what happens to the packet channel; `warned` and `failed` are log lines. -/
inductive Action
  | queue (a : LossyQueue.Action ReceivedPacket)
  | warned (dropped : ℕ)
  | failed (message : String) (error : Text)
  | pipeline (a : Pipeline.Action)

/-- Drops are logged at every power of two. -/
def report : LossyQueue.Action ReceivedPacket → List Action
  | .dropped n => .queue (.dropped n) :: if isPowerOfTwo n then [.warned n] else []
  | a => [.queue a]

/-- `buf[..len].to_vec()` -/
def received (buf datagram : List UInt8) : ReceivedPacket :=
  let r := recvFrom buf datagram
  ⟨r.1.take r.2, r.2⟩

section
variable (cfg : Config) (sinks : DecodeTask.Sinks) (toJson : WsprSpot → Except Text Text)

def pipelineStep (st : State) (e : Pipeline.Event) : State × List Action :=
  let r := Pipeline.step cfg sinks toJson st.pipeline e
  ({ st with pipeline := r.1 }, r.2.map Action.pipeline)

/-- `pkt_rx.recv`, in a buffer task that is not in the body of another arm. -/
def packetEvent (st : State) (now : ℤ) (lag : ℕ) : Option (ReceivedPacket × BufferTask.Event) :=
  match st.packets.items with
  | [] => none
  | pkt::_ =>
    let e : BufferTask.Event := ⟨now, .rtp pkt.bytes lag⟩
    if Pipeline.captures st.pipeline e then some (pkt, e) else none

def step (st : State) : Event → State × List Action
  | .datagram bytes =>
    let q := LossyQueue.offer PACKET_CHAN_CAP st.packets (received st.dataBuf bytes)
    ({ st with dataBuf := (recvFrom st.dataBuf bytes).1, packets := q.1 }, q.2.flatMap report)
  | .recvError error => (st, [.failed "recv_from error" error])
  | .statusDatagram now bytes =>
    let r := recvFrom st.statusBuf bytes
    pipelineStep cfg sinks toJson { st with statusBuf := r.1 } (.capture ⟨now, .status (r.1.take r.2)⟩)
  | .statusError error => (st, [.failed "status recv_from error" error])
  | .packet now lag =>
    match packetEvent st now lag with
    | none => (st, [])
    | some (_, e) =>
      let q := LossyQueue.take st.packets
      let r := pipelineStep cfg sinks toJson { st with packets := q.1 } (.capture e)
      (r.1, q.2.map Action.queue ++ r.2)
  | .tick now order => pipelineStep cfg sinks toJson st (.capture ⟨now, .tick order⟩)
  | .send => pipelineStep cfg sinks toJson st .send
  | .complete id outcome => pipelineStep cfg sinks toJson st (.complete id outcome)
  | .advance => pipelineStep cfg sinks toJson st .advance

def machine : EventMachine State Event Action := ⟨step cfg sinks toJson⟩

@[simp] theorem machine_step : (machine cfg sinks toJson).step = step cfg sinks toJson := rfl

end

def packetChannel : EventMachine (LossyQueue ReceivedPacket) (LossyQueue.Event ReceivedPacket)
    (LossyQueue.Action ReceivedPacket) :=
  LossyQueue.machine PACKET_CHAN_CAP

@[simp] theorem packetChannel_step : packetChannel.step = LossyQueue.step PACKET_CHAN_CAP := rfl

/-- What an event is to the tasks behind the packet channel. -/
def pipelineFocus (st : State) : Event → Option Pipeline.Event
  | .datagram _ => none
  | .recvError _ => none
  | .statusDatagram now bytes =>
    let r := recvFrom st.statusBuf bytes
    some (.capture ⟨now, .status (r.1.take r.2)⟩)
  | .statusError _ => none
  | .packet now lag => (packetEvent st now lag).map (fun p => .capture p.2)
  | .tick now order => some (.capture ⟨now, .tick order⟩)
  | .send => some .send
  | .complete id outcome => some (.complete id outcome)
  | .advance => some .advance

/-- And what it is to the packet channel. -/
def queueFocus (st : State) : Event → Option (LossyQueue.Event ReceivedPacket)
  | .datagram bytes => some (.offer (received st.dataBuf bytes))
  | .packet now lag => (packetEvent st now lag).map (fun _ => .take)
  | _ => none

def Action.pipeline? : Action → Option Pipeline.Action
  | .pipeline a => some a
  | _ => none

def Action.queue? : Action → Option (LossyQueue.Action ReceivedPacket)
  | .queue a => some a
  | _ => none

/-- The numbers of drops in the log. -/
def warnings (out : List Action) : List ℕ :=
  out.filterMap (fun a =>
    match a with
    | .warned n => some n
    | _ => none)

/-- The datagrams that the receive loop got, in order. -/
def datagrams (es : List Event) : List (List UInt8) :=
  es.filterMap (fun e =>
    match e with
    | .datagram bytes => some (bytes.take MAX_UDP)
    | _ => none)

/-- The packets that the buffer task was given, in order. -/
def parsedBy (es : List Pipeline.Event) : List (List UInt8) :=
  es.filterMap (fun e =>
    match e with
    | .capture ⟨_, .rtp buf _⟩ => some buf
    | _ => none)

theorem datagrams_append (es es' : List Event) :
    datagrams (es ++ es') = datagrams es ++ datagrams es' := List.filterMap_append
theorem parsedBy_append (es es' : List Pipeline.Event) :
    parsedBy (es ++ es') = parsedBy es ++ parsedBy es' := List.filterMap_append

theorem recvFrom_length (buf datagram : List UInt8) : (recvFrom buf datagram).1.length = buf.length :=
  overlay_length _ _ _

/-- No byte of an earlier datagram is taken for one of this datagram. -/
theorem recvFrom_take (buf datagram : List UInt8) :
    (recvFrom buf datagram).1.take (recvFrom buf datagram).2 = datagram.take buf.length := by
  have hlen := recvFrom_length buf datagram
  apply List.ext_getElem?
  intro i
  simp only [recvFrom] at hlen ⊢
  rw [List.getElem?_take]
  split_ifs with hi
  · rw [getElem?_overlay _ _ _ _ (by omega), List.length_take, if_pos (by omega), Nat.sub_zero]
  · rw [List.getElem?_eq_none]
    rw [List.length_take]
    omega

theorem received_bytes (buf datagram : List UInt8) :
    (received buf datagram).bytes = datagram.take buf.length := by
  rw [ReceivedPacket.bytes, received, List.take_take, Nat.min_self]
  exact recvFrom_take buf datagram

end Wsprrs.System
