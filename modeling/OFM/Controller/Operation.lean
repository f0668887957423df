import Mathlib.Logic.Function.Basic
import OFM.Controller.Message
import OFM.Controller.ReprocessEvent

/-!
# Operations

`StateChunk.java`: the last state message received under a hashkey, the instances it is put to, and the events that
wait for its ack. `Operation.java`: the part of the state that every operation has, its thread pool included, and the
way a message or a packet reaches an operation. The fields `getPerflowAcked`, `getPerflowCount`,
`putPerflowAcks` and their like for the other classes, which operations count with, are here by class.
-/

namespace OFM.Controller
open OFM.Lib

/-! ## Chunks of state -/

structure StateChunk where
  hashkey : Int
  ack : Bool
  msg : Option StateMessage
  dsts : Option (List Middlebox)
  eventsList : List ReprocessEvent
  numAckedInstances : Nat
  deriving DecidableEq, Repr

/-- The put message for a state message; there is none for a chunk of configuration. -/
def StateMessage.toPut : StateMessage → Option PutMessage
  | .perflow id seq key hashkey state => some (.perflow id seq key hashkey state)
  | .multiflow id seq key hashkey state => some (.multiflow id seq key hashkey state)
  | .allflows id hashkey state => some (.allflows id hashkey state)
  | .config .. => none

namespace StateChunk

def new (hashkey : Int) : StateChunk := ⟨hashkey, false, none, none, [], 0⟩

def storeStateMessage (chunk : StateChunk) (msg : StateMessage) (dsts : List Middlebox) :
    StateChunk :=
  { chunk with msg := some msg, dsts := some dsts }

/-- Puts the message the chunk holds when the task runs, to every destination in turn. -/
def call (chunk : StateChunk) : Emit Effect Bool :=
  match chunk.msg, chunk.dsts with
  | some msg, some dsts =>
      match msg.toPut with
      | some putMsg => .emit true (dsts.map fun dst => .send dst (.put putMsg))
      | none => .emit false []
  | _, _ => .emit false []

def isAcked (chunk : StateChunk) : Bool := chunk.ack

def numAckedInst (chunk : StateChunk) : Nat := chunk.numAckedInstances

def incrementAcked (chunk : StateChunk) : StateChunk :=
  { chunk with numAckedInstances := chunk.numAckedInstances + 1 }

variable [PacketUtil]

/-- Polls and processes the events in turn, until one of them throws: what is left then. -/
def processAll : List ReprocessEvent → Emit Effect (List ReprocessEvent × Option JavaException)
  | [] => pure ([], none)
  | event :: rest =>
      match event.call with
      | .ok out => do
          let _ ← Emit.emit () out
          processAll rest
      | .error e => pure (rest, some e)

def receivedPutAck (chunk : StateChunk) : Emit Effect (StateChunk × Option JavaException) := do
  let left ← processAll chunk.eventsList
  pure ({ chunk with ack := true, eventsList := left.1 }, left.2)

/-- Outside the tasks an exception of `process` leaves the caller. -/
def receivedReprocess (chunk : StateChunk) (event : ReprocessEvent) :
    Emit Effect (StateChunk × Option JavaException) :=
  if chunk.isAcked then
    match event.call with
    | .ok out => .emit (chunk, none) out
    | .error e => pure (chunk, some e)
  else pure ({ chunk with eventsList := chunk.eventsList ++ [event] }, none)

end StateChunk

/-! ## Counters of gets and puts -/

/-- `getAcked .perflow` is `getPerflowAcked`, and so on. The counts are Java's `int`, read as
integers. -/
structure Counters where
  getAcked : StateClass → Bool
  getCount : StateClass → Int
  putAcks : StateClass → Nat

namespace Counters

def new : Counters := ⟨fun _ => false, fun _ => 0, fun _ => 0⟩

def recordGetAck (k : Counters) (cls : StateClass) (count : Int) : Counters :=
  { k with
    getAcked := Function.update k.getAcked cls true
    getCount := Function.update k.getCount cls count }

def recordPutAck (k : Counters) (cls : StateClass) : Counters :=
  { k with putAcks := Function.update k.putAcks cls (k.putAcks cls + 1) }

/-- As many put-acks of the class as the get-ack announced chunks. -/
def acksMatch (k : Counters) (cls : StateClass) : Bool := (k.putAcks cls : Int) == k.getCount cls

/-- The class has been get-acked and its chunks have been put-acked. -/
def Done (k : Counters) (cls : StateClass) : Prop :=
  k.getAcked cls = true ∧ (k.putAcks cls : Int) = k.getCount cls

instance (k : Counters) (cls : StateClass) : Decidable (k.Done cls) :=
  inferInstanceAs (Decidable (_ ∧ _))

variable (k : Counters) (cls : StateClass) (count : Int)

@[simp] theorem new_getAcked : new.getAcked cls = false := rfl

@[simp] theorem new_putAcks : new.putAcks cls = 0 := rfl

@[simp] theorem acksMatch_iff : k.acksMatch cls = true ↔ (k.putAcks cls : Int) = k.getCount cls := by
  simp [acksMatch]

@[simp] theorem recordGetAck_getAcked :
    (k.recordGetAck cls count).getAcked = Function.update k.getAcked cls true := rfl

@[simp] theorem recordGetAck_getCount :
    (k.recordGetAck cls count).getCount = Function.update k.getCount cls count := rfl

@[simp] theorem recordGetAck_putAcks : (k.recordGetAck cls count).putAcks = k.putAcks := rfl

@[simp] theorem recordPutAck_getAcked : (k.recordPutAck cls).getAcked = k.getAcked := rfl

@[simp] theorem recordPutAck_getCount : (k.recordPutAck cls).getCount = k.getCount := rfl

@[simp] theorem recordPutAck_putAcks :
    (k.recordPutAck cls).putAcks = Function.update k.putAcks cls (k.putAcks cls + 1) := rfl

end Counters

/-! ## The operation -/

/-- A chunk object. The map of an operation holds one chunk a hashkey, and flushing the map makes the
next `obtainStateChunk` create a new one: the object is named by its hashkey and the number of
flushes before it was created. -/
structure ChunkRef where
  flushes : Nat
  hashkey : Int
  deriving DecidableEq, Repr

/-- What has been submitted to a thread pool and not been run. -/
inductive Task
  | chunk (ref : ChunkRef)
  | event (event : ReprocessEvent)
  deriving DecidableEq, Repr

/-- A chunk that has not been obtained yet and a new one cannot be told apart, so that the map is
total. -/
structure Operation where
  id : Int
  finished : Bool
  failed : Bool
  stateChunks : ChunkRef → StateChunk
  flushes : Nat
  threadPool : List Task

/-- The orders in which a thread pool runs the tasks of one `invokeAll`: any order at all. -/
structure Schedule where
  chunks : List ChunkRef → List ChunkRef
  chunks_perm : ∀ l, (chunks l).Perm l
  events : List ReprocessEvent → List ReprocessEvent
  events_perm : ∀ l, (events l).Perm l

def Schedule.inOrder : Schedule := ⟨id, fun _ => .refl _, id, fun _ => .refl _⟩

namespace Operation

def new (id : Int) : Operation where
  id := id
  finished := false
  failed := false
  stateChunks := fun ref => StateChunk.new ref.hashkey
  flushes := 0
  threadPool := []

def isFailed (op : Operation) : Bool := op.failed

def finish (op : Operation) : Emit Effect Operation :=
  .emit { op with finished := true } [.operationFinished]

def fail (op : Operation) : Emit Effect Operation :=
  .emit { op with failed := true } [.operationFailed]

def obtainStateChunk (op : Operation) (hashkey : Int) : ChunkRef := ⟨op.flushes, hashkey⟩

def flushStateChunks (op : Operation) : Operation := { op with flushes := op.flushes + 1 }

/-- Writes to a chunk object. -/
def setChunk (op : Operation) (ref : ChunkRef) (chunk : StateChunk) : Operation :=
  { op with stateChunks := Function.update op.stateChunks ref chunk }

def submit (op : Operation) (task : Task) : Operation :=
  { op with threadPool := op.threadPool ++ [task] }

variable [PacketUtil]

/-- What running a task does; its exceptions stay in its future. -/
def call (op : Operation) : Task → List Effect
  | .chunk ref => (op.stateChunks ref).call.out
  | .event event => event.sent

/-- The thread pool runs one of its tasks. -/
def runTask (op : Operation) (i : Nat) : Option (Emit Effect Operation) :=
  (op.threadPool[i]?).map fun task =>
    .emit { op with threadPool := op.threadPool.eraseIdx i } (op.call task)

end Operation

/-! ## What the operations have in common -/

/-- The methods an operation implements, over the part of it that it inherits. -/
class Handlers (σ : Type) where
  base : σ → Operation
  setBase : σ → Operation → σ
  base_setBase : ∀ op b, base (setBase op b) = b
  /-- The result of the call, with what it sends; no operation changes its own state here. -/
  execute : σ → Emit Effect Int
  /-- A message that one of the channels hands on to the handler for its type. -/
  receive : Schedule → Middlebox → Message → σ → Emit Effect σ
  receivePacket : Packet → Nat → Int → σ → Emit Effect σ

/-- One thing that can happen to an operation. -/
inductive Input
  | message (sched : Schedule) (source : Middlebox) (msg : Message)
  | packet (packet : Packet) (inSwitch : Nat) (inPort : Int)
  | task (i : Nat)

/-- An operation with what it has done and what its handlers have been given, oldest first. -/
structure Session (σ : Type) where
  op : σ
  log : List Effect
  handled : List (Middlebox × Message)

namespace Session

variable {σ : Type} [Handlers σ]

/-- An operation as `SdmbnManager` leaves it. -/
def start (op : σ) : Session σ := ⟨op, (Handlers.execute op).out, []⟩

/-- Takes over what a handler returns. -/
def record (s : Session σ) (r : Emit Effect σ) : Session σ :=
  { s with op := r.val, log := s.log ++ r.out }

/-- Notes that a handler has been given a message. -/
def note (s : Session σ) (source : Middlebox) (msg : Message) : Session σ :=
  { s with handled := s.handled ++ [(source, msg)] }

variable [PacketUtil]

/-- Both channels drop what they receive for an operation that has failed; packets are given to
every operation. Handlers are atomic. -/
def step (s : Session σ) : Input → Option (Session σ)
  | .message sched source msg =>
      if (Handlers.base s.op).isFailed then some s
      else some ((s.record (Handlers.receive sched source msg s.op)).note source msg)
  | .packet packet inSwitch inPort =>
      some (s.record (Handlers.receivePacket packet inSwitch inPort s.op))
  | .task i =>
      ((Handlers.base s.op).runTask i).map fun r =>
        s.record (.emit (Handlers.setBase s.op r.val) r.out)

variable {s s' : Session σ}

theorem step_message {sched : Schedule} {source : Middlebox} {msg : Message}
    (h : s.step (.message sched source msg) = some s') :
    ((Handlers.base s.op).failed = true ∧ s' = s) ∨
      ((Handlers.base s.op).failed = false ∧
        s' = (s.record (Handlers.receive sched source msg s.op)).note source msg) := by
  cases hf : (Handlers.base s.op).failed with
  | true => exact Or.inl ⟨rfl, by simpa [step, Operation.isFailed, hf] using h.symm⟩
  | false => exact Or.inr ⟨rfl, by simpa [step, Operation.isFailed, hf] using h.symm⟩

theorem step_packet {packet : Packet} {inSwitch : Nat} {inPort : Int}
    (h : s.step (.packet packet inSwitch inPort) = some s') :
    s' = s.record (Handlers.receivePacket packet inSwitch inPort s.op) := by
  simpa [step] using h.symm

theorem step_task {i : Nat} (h : s.step (.task i) = some s') :
    ∃ task, (Handlers.base s.op).threadPool[i]? = some task ∧
      s' = s.record (.emit
        (Handlers.setBase s.op { Handlers.base s.op with
          threadPool := (Handlers.base s.op).threadPool.eraseIdx i })
        ((Handlers.base s.op).call task)) := by
  simp only [step, Operation.runTask, Option.map_map, Option.map_eq_some_iff] at h
  obtain ⟨task, ht, rfl⟩ := h
  exact ⟨task, ht, rfl⟩

end Session

end OFM.Controller
