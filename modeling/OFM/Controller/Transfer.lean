import Mathlib.Algebra.BigOperators.Group.List.Basic
import Mathlib.Data.Multiset.Bind
import OFM.Controller.Operation
import OFM.Controller.Lemmas.Events
import OFM.Controller.Network

/-!
# Transfers

What moving, copying and moving configuration have in common: chunks of the requested classes are got
from `src`, put to `dst`, and counted. A transfer is that part of an operation; the operations are
transfers by the laws below, and a holder is the network function at either end of one.
-/

namespace OFM.Controller
open OFM.Lib

/-! ## Reading effects and messages -/

/-- Asks for events to be raised, or no longer. -/
def Command.isToggle : Command → Bool
  | .enableEvents .. | .disableEvents .. => true
  | _ => false

def Message.stateContent : Message → Option Content
  | .state msg => some msg.content
  | _ => none

def Message.getAckClass : Message → Option StateClass
  | .getAck cls _ => some cls
  | _ => none

def Message.putAckKey : Message → Option (StateClass × Int)
  | .putAck cls hashkey => some (cls, hashkey)
  | _ => none

/-- The class and the hashkey of a chunk: what its put-ack repeats. -/
def Content.ackKey (c : Content) : StateClass × Int := (c.cls, c.hashkey)

/-- The chunks that commands put. -/
def putsIn (cmds : List Command) : Multiset Content := cmds.filterMap Command.putContent

/-- The chunks that are put, each with the middlebox it is put to. -/
def puts (out : List Effect) : Multiset (Middlebox × Content) :=
  out.filterMap fun
    | .send mb cmd => cmd.putContent.map fun c => (mb, c)
    | _ => none

/-- The chunks in messages. -/
def statesIn (msgs : List (Middlebox × Message)) : Multiset Content :=
  msgs.filterMap fun x => x.2.stateContent

/-- The classes that get-acks end. -/
def getAcksIn (msgs : List (Middlebox × Message)) : Multiset StateClass :=
  msgs.filterMap fun x => x.2.getAckClass

/-- What put-acks acknowledge. -/
def putAcksIn (msgs : List (Middlebox × Message)) : Multiset (StateClass × Int) :=
  msgs.filterMap fun x => x.2.putAckKey

/-- The submitted chunks. -/
def chunkTasks (pool : List Task) : List ChunkRef :=
  pool.filterMap fun
    | .chunk ref => some ref
    | .event _ => none

/-! ## Transfers -/

structure Transfer where
  src : Middlebox
  dst : Middlebox
  classes : List StateClass
  /-- The chunks are held back until all requested classes have been get-acked. -/
  holds : Bool
  /-- The operation ends with a route update of its own. -/
  ordered : Bool
  /-- The gets are sent when `src` has acked a filter. -/
  asksFirst : Bool
  /-- Events wait with the chunk they are about. -/
  queues : Bool
  /-- An exception leaves the check that finds the transfer complete. -/
  throws : Bool
  counters : Counters
  /-- What putting a chunk puts. -/
  store : ChunkRef → Multiset (Middlebox × Content)
  pool : List ChunkRef
  list : List ChunkRef

namespace Transfer

def AllAcked (t : Transfer) : Prop := ∀ cls ∈ t.classes, t.counters.getAcked cls = true

instance (t : Transfer) : Decidable t.AllAcked :=
  inferInstanceAs (Decidable (∀ cls ∈ t.classes, t.counters.getAcked cls = true))

/-- Each requested class has been get-acked, and put-acked as often as the get-ack says. -/
def Complete (t : Transfer) : Prop := ∀ cls ∈ t.classes, t.counters.Done cls

/-- The list has been put. -/
def Released (t : Transfer) : Prop := t.holds = true ∧ t.AllAcked

instance (t : Transfer) : Decidable t.Released := inferInstanceAs (Decidable (_ ∧ _))

/-- The chunks that are still to be put. -/
def owed (t : Transfer) : List ChunkRef := t.pool ++ if t.Released then [] else t.list

/-- What they are going to put. -/
def owing (t : Transfer) : Multiset (Middlebox × Content) := (t.owed.map t.store).sum

/-- A chunk that is received does not replace another one that is still to be put. -/
def Keeps (t : Transfer) (c : Content) : Prop :=
  ∀ ref ∈ t.owed, ref.hashkey = c.hashkey → t.store ref = {(t.dst, c)}

instance (t : Transfer) (c : Content) : Decidable (t.Keeps c) :=
  inferInstanceAs (Decidable (∀ ref ∈ t.owed, _ → _))

/-- What has been received has been put or is going to be, but for what came `late`. -/
def Accounts (t : Transfer) (put : Multiset (Middlebox × Content)) (received : Multiset Content)
    (late : Multiset (Middlebox × Content)) : Prop :=
  put + t.owing + late = received.map (Prod.mk t.dst)

/-- What becomes of a chunk that is received: it is put at once, submitted, or held back. -/
inductive Takes (t : Transfer) (c : Content) : Transfer → Multiset (Middlebox × Content) → Prop
  | put (hh : t.holds = false) : Takes t c t {(t.dst, c)}
  | submit {ref : ChunkRef} (href : ref.hashkey = c.hashkey) (hh : t.holds = false) :
      Takes t c { t with
        store := Function.update t.store ref {(t.dst, c)}
        pool := t.pool ++ [ref] } 0
  | hold {ref : ChunkRef} (href : ref.hashkey = c.hashkey) (hh : t.holds = true) :
      Takes t c { t with
        store := Function.update t.store ref {(t.dst, c)}
        list := t.list ++ [ref] } 0

/-- A message after which the operation looks whether the transfer is complete. -/
def Checks (t : Transfer) : Message → Prop
  | .putAck cls _ => cls ∈ t.classes
  | .getAck cls _ => cls ∈ t.classes ∧ t.holds = false
  | _ => False

end Transfer

/-- A report whose event can be let out to `dst`. -/
def ReprocessMessage.Deliverable [PacketUtil] (dst : Middlebox) (msg : ReprocessMessage) : Prop :=
  dst.sw ≠ none ∧ ∃ packet, PacketUtil.setFlag (ReprocessEvent.base64Decode msg.packet)
    PacketUtil.flagDoNotBuffer = .ok (some packet)

/-- Each event that waits for the ack of a chunk can be let out. -/
def Operation.Smooth [PacketUtil] (op : Operation) : Prop :=
  ∀ ref, ∀ event ∈ (op.stateChunks ref).eventsList, event.Releases

/-- The operations that are transfers. `Valid` says for which arguments, and `noticed` whether the
operation has found its transfer complete. -/
class TransferOperation (σ : Type) [PacketUtil] extends Handlers σ where
  transfer : σ → Transfer
  Valid : σ → Prop
  noticed : σ → Bool
  /-- The classes of state the operation has handlers for. -/
  handledClasses : σ → List StateClass
  pool_eq : ∀ op, (transfer op).pool = chunkTasks (base op).threadPool
  store_eq : ∀ op ref, puts ((base op).stateChunks ref).call.out = (transfer op).store ref
  setPool : ∀ op pool, transfer (setBase op { base op with threadPool := pool }) =
    { transfer op with pool := chunkTasks pool }
  setPool_valid : ∀ op pool, Valid op → Valid (setBase op { base op with threadPool := pool })
  setPool_noticed : ∀ op pool,
    noticed (setBase op { base op with threadPool := pool }) = noticed op
  classes_nodup : ∀ op, (transfer op).classes.Nodup
  classes_ne_nil : ∀ op, Valid op → (transfer op).classes ≠ []
  classes_handled : ∀ op, Valid op → ∀ cls ∈ (transfer op).classes, cls ∈ handledClasses op
  valid_receive : ∀ sched source msg op, Valid op → Valid (receive sched source msg op).val
  /-- `execute` asks `src` for the classes, or for events first. -/
  execute_send : ∀ op mb cmd, .send mb cmd ∈ (execute op).out → mb = (transfer op).src ∧
    cmd.putContent = none ∧ (cmd.isToggle = true → (transfer op).asksFirst = true)
  execute_toggles : ∀ op, (commandsTo (transfer op).src (execute op).out).countP Command.isToggle =
    if (transfer op).asksFirst then 1 else 0
  execute_gets : ∀ op cls, Valid op →
    (commandsTo (transfer op).src (execute op).out).countP (fun cmd => cmd.getClass = some cls) =
      if (transfer op).asksFirst = false ∧ cls ∈ (transfer op).classes then 1 else 0
  execute_finish : ∀ op, .operationFinished ∉ (execute op).out
  /-- Packets mean nothing to a transfer. -/
  packet_transfer : ∀ packet inSwitch inPort op,
    transfer (receivePacket packet inSwitch inPort op).val = transfer op
  packet_base : ∀ packet inSwitch inPort op,
    base (receivePacket packet inSwitch inPort op).val = base op
  packet_valid : ∀ packet inSwitch inPort op, Valid op →
    Valid (receivePacket packet inSwitch inPort op).val
  packet_noticed : ∀ packet inSwitch inPort op,
    noticed (receivePacket packet inSwitch inPort op).val = noticed op
  packet_out : ∀ packet inSwitch inPort op,
    (∀ mb cmd, .send mb cmd ∉ (receivePacket packet inSwitch inPort op).out) ∧
      .operationFinished ∉ (receivePacket packet inSwitch inPort op).out
  /-- The handlers for the messages of a transfer. -/
  receive_state : ∀ sched source msg op, Valid op → msg.cls ∈ handledClasses op →
    (transfer op).Takes msg.content (transfer (receive sched source (.state msg) op).val)
      (puts (receive sched source (.state msg) op).out)
  receive_getAck : ∀ sched source cls count op, Valid op → cls ∈ (transfer op).classes →
    transfer (receive sched source (.getAck cls count) op).val =
      { transfer op with counters := (transfer op).counters.recordGetAck cls count }
  puts_getAck : ∀ sched source cls count op, Valid op → cls ∈ (transfer op).classes →
    puts (receive sched source (.getAck cls count) op).out =
      if (transfer (receive sched source (.getAck cls count) op).val).Released then
        (((transfer op).list.map (transfer op).store).sum : Multiset (Middlebox × Content)) else 0
  receive_putAck : ∀ sched source cls hashkey op, Valid op → cls ∈ handledClasses op →
    transfer (receive sched source (.putAck cls hashkey) op).val =
      { transfer op with counters := (transfer op).counters.recordPutAck cls }
  receive_other : ∀ sched source msg op, msg = .eventsAck ∨ (∃ m, msg = .reprocess m) →
    transfer (receive sched source msg op).val = transfer op
  /-- Besides putting, an operation only asks for the classes and changes filters. -/
  receive_send : ∀ sched source msg op mb cmd, .send mb cmd ∈ (receive sched source msg op).out →
    (cmd.putContent ≠ none ∧ ((∃ m, msg = .state m) ∨ ∃ cls count, msg = .getAck cls count)) ∨
    (cmd.getClass ≠ none ∧ mb = (transfer op).src ∧ msg = .eventsAck ∧ source = (transfer op).src) ∨
    (cmd.isToggle = true ∧ mb = (transfer op).dst ∧
      ((transfer op).ordered = true ∨ (∃ m, msg = .reprocess m) ∧ source ≠ (transfer op).src))
  receive_gets : ∀ sched op cls, Valid op → (transfer op).asksFirst = true →
    (commandsTo (transfer op).src (receive sched (transfer op).src .eventsAck op).out).countP
      (fun cmd => cmd.getClass = some cls) = if cls ∈ (transfer op).classes then 1 else 0
  /-- The operation finishes when a check finds the transfer complete. -/
  finish_count : ∀ sched source msg op,
    (receive sched source msg op).out.count .operationFinished ≤ 1
  finish_mem : ∀ sched source msg op, Valid op → (transfer op).ordered = false →
    .operationFinished ∈ (receive sched source msg op).out →
    (transfer (receive sched source msg op).val).Complete ∧ msg.isAck = true ∧
      ((transfer op).holds = true → msg.putAckKey ≠ none) ∧ (transfer op).throws = false ∨
    msg = .eventsAck ∧ source ≠ (transfer op).src
  noticed_finish : ∀ sched source msg op, Valid op → (transfer op).ordered = false →
    noticed (receive sched source msg op).val = true →
    noticed op = true ∨ .operationFinished ∈ (receive sched source msg op).out
  noticed_receive : ∀ sched source msg op, noticed op = true →
    noticed (receive sched source msg op).val = true
  noticed_check : ∀ sched source msg op, Valid op → (base op).Smooth →
    (transfer op).Checks msg → (transfer op).throws = false →
    (transfer (receive sched source msg op).val).Complete →
    noticed (receive sched source msg op).val = true ∨
      (base (receive sched source msg op).val).failed = true
  failed_receive : ∀ sched source msg op, Valid op → (base op).failed = false →
    (base (receive sched source msg op).val).failed = true →
    (transfer op).ordered = true ∧ (transfer (receive sched source msg op).val).Complete
  smooth_receive : ∀ sched source msg op, (base op).Smooth →
    ((transfer op).queues = true → ∀ m, msg = .reprocess m → source = (transfer op).src →
      m.Deliverable (transfer op).dst) →
    (base (receive sched source msg op).val).Smooth

/-- An operation as its constructor leaves it. -/
structure Fresh {σ : Type} [PacketUtil] [TransferOperation σ] (op : σ) : Prop where
  valid : TransferOperation.Valid op
  counters : (TransferOperation.transfer op).counters = Counters.new
  pool : (TransferOperation.transfer op).pool = []
  list : (TransferOperation.transfer op).list = []
  failed : (Handlers.base op).failed = false
  noticed : TransferOperation.noticed op = false
  smooth : (Handlers.base op).Smooth

/-! ## Holders -/

/-- A network function that holds state: what it answers when it is asked for a class of it, and
whether it raises events. -/
structure Holder where
  held : StateClass → List StateMessage
  held_cls : ∀ cls, ∀ msg ∈ held cls, msg.cls = cls
  raises : Bool

namespace Holder

/-- One message a chunk, and the ack with their number. -/
def answerGet (h : Holder) (cls : StateClass) : List Message :=
  (h.held cls).map .state ++ [.getAck cls (h.held cls).length]

/-- What is put does not change what is asked for, and a filter that is removed may be another one with
the same key. -/
def command (h : Holder) : Command → Holder × List Message
  | .getPerflow _ _ raiseEvents => ({ h with raises := h.raises || raiseEvents }, h.answerGet .perflow)
  | .getMultiflow .. => (h, h.answerGet .multiflow)
  | .getAllflows .. => (h, h.answerGet .allflows)
  | .getConfig .. => (h, h.answerGet .config)
  | .put msg => (h, [.putAck msg.content.cls msg.content.hashkey])
  | .enableEvents .. => ({ h with raises := true }, [.eventsAck])
  | .disableEvents .. => (h, [.eventsAck])

/-- An event with any hashkey and packet, once events have been asked for. -/
instance : NetworkFunction Holder ReprocessMessage where
  command := command
  stimulus h msg := if h.raises then some (h, [.reprocess msg]) else none
  packet h _ := (h, [])

end Holder

end OFM.Controller
