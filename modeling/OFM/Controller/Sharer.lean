import Mathlib.Data.Finset.Lattice.Fold
import OFM.Controller.ShareOperation
import OFM.Controller.Transfer
import OFM.Lib.Scatter

/-!
# Networks of a share

What a share relies on in its instances, and what the log of a share and the messages it has handled say
about the chunks that went from each instance to the others. The network of a share without packets and without the
events about them, and where a round can stand in it: filters are being enabled, one instance's state is on its way
to the others, or nothing is.
-/

namespace OFM.Controller
open OFM.Lib

/-- Network functions that state can be shared with. A hashkey tells the class of its chunk. -/
class Sharer (ν : Type) (ι : outParam Type) extends NetworkFunction ν ι where
  classOf : Int → StateClass
  /-- The chunks that a get is answered with. -/
  chunks : ν → Command → List StateMessage
  chunks_cls : ∀ v cmd cls, cmd.getClass = some cls → ∀ msg ∈ chunks v cmd,
    msg.cls = cls ∧ classOf msg.hashkey = cls
  chunks_nodup : ∀ v cmd, ((chunks v cmd).map fun msg => msg.hashkey).Nodup
  command_get : ∀ v cmd cls, cmd.getClass = some cls →
    (command v cmd).2 = (chunks v cmd).map .state ++ [.getAck cls (chunks v cmd).length]
  command_put : ∀ v cmd c, cmd.putContent = some c → (command v cmd).2 = [.putAck c.cls c.hashkey]
  command_toggle : ∀ v cmd, cmd.isToggle = true → (command v cmd).2 = [.eventsAck]
  stimulus_reprocess : ∀ v x r, stimulus v x = some r → ∀ msg ∈ r.2, ∃ m, msg = .reprocess m
  packet_reprocess : ∀ v p, ∀ msg ∈ (packet v p).2, ∃ m, msg = .reprocess m

/-! ## Reading commands and messages -/

/-- The classes that commands ask for. -/
def getsIn (cmds : List Command) : Multiset StateClass := cmds.filterMap Command.getClass

/-- What the put-acks of a middlebox acknowledge. -/
def acksOf (mb : Middlebox) (msgs : List (Middlebox × Message)) : Multiset (StateClass × Int) :=
  msgs.filterMap fun x => if x.1 = mb then x.2.putAckKey else none

/-- The chunks that have come from other middleboxes than the given one. -/
def chunksFor (mb : Middlebox) (msgs : List (Middlebox × Message)) : Multiset Content :=
  msgs.filterMap fun x => if x.1 = mb then none else x.2.stateContent

/-- The chunks that have been put to a middlebox. -/
def putsTo (mb : Middlebox) (out : List Effect) : Multiset Content := putsIn (commandsTo mb out)

namespace ShareOperation

/-- What no handler changes. -/
def args (op : ShareOperation) : Int × Consistency × List Middlebox × Scope :=
  (op.id, op.consistency, op.instances, op.scope)

end ShareOperation

namespace Network

variable {ν ι : Type} [PacketUtil] [Charset] [NetworkFunction ν ι]

/-- Packets come to the instances of the share. -/
def AtInstances (n : Network ShareOperation ν) : Act ι → Prop
  | .stimulus mb _ => mb ∈ n.op.instances
  | _ => True

/-- Each chunk that one instance has sent has been put to every other one, which has acked it. -/
structure Settled (n : Network ShareOperation ν) : Prop where
  answered : getAcksIn n.inFlight = 0
  arrived : ∀ mb ∈ n.op.instances, chunksFor mb n.inFlight = 0
  put : ∀ mb ∈ n.op.instances, putsTo mb n.log = chunksFor mb n.handled
  acked : ∀ mb ∈ n.op.instances, acksOf mb n.handled = (putsTo mb n.log).map Content.ackKey

end Network

/-! ## Network functions whose state can be joined

What an instance holds under a hashkey is an element of a semilattice, and a chunk that is put is joined into
it.
-/

section Join

/-- Nothing is held under a hashkey whose element is the least one. -/
class Joiner (ν : Type) (ι V : outParam Type) [SemilatticeSup V] [OrderBot V] extends Sharer ν ι where
  held : ν → Int → V
  /-- What the serialised state of a chunk stands for. -/
  value : Content → V
  /-- The hashkeys of the flows a get asks about. -/
  covers : Command → Int → Prop
  held_command : ∀ v cmd, cmd.putContent = none → held (command v cmd).1 = held v
  held_put : ∀ v cmd c, cmd.putContent = some c →
    held (command v cmd).1 = Function.update (held v) c.hashkey (held v c.hashkey ⊔ value c)
  value_chunks : ∀ v cmd, ∀ msg ∈ chunks v cmd, value msg.content = held v msg.hashkey
  chunks_covered : ∀ v cmd hashkey, cmd.getClass = some (classOf hashkey) → covers cmd hashkey →
    held v hashkey ≠ ⊥ → ∃ msg ∈ chunks v cmd, msg.hashkey = hashkey

namespace Joiner

variable {ν ι V : Type} [SemilatticeSup V] [OrderBot V] [Joiner ν ι V]

/-- The join of what the instances hold under a hashkey. -/
def joined (instances : List Middlebox) (nf : Middlebox → ν) (hashkey : Int) : V :=
  instances.toFinset.sup fun mb => held (nf mb) hashkey

/-- A command takes nothing away. -/
theorem held_le_command (v : ν) (cmd : Command) (hashkey : Int) :
    held v hashkey ≤ held (NetworkFunction.command v cmd).1 hashkey := by
  cases hput : cmd.putContent with
  | none => rw [held_command v cmd hput]
  | some c =>
      rw [held_put v cmd c hput]
      by_cases hk : hashkey = c.hashkey
      · rw [hk, Function.update_self]
        exact le_sup_left
      · rw [Function.update_of_ne hk]

/-- A share asks each of its instances about a hashkey. -/
def Asked (ν : Type) {ι V : Type} [SemilatticeSup V] [OrderBot V] [Joiner ν ι V] (op : ShareOperation)
    (hashkey : Int) : Prop :=
  ∀ inst ∈ op.instances, ∃ cmd, .send inst cmd ∈ op.gets inst ∧
    cmd.getClass = some (Sharer.classOf ν hashkey) ∧ covers ν cmd hashkey

end Joiner

/-- Packets come to the instances of the share only, and none is processed there. -/
def Network.Undisturbed {ν ι V : Type} [PacketUtil] [SemilatticeSup V] [OrderBot V] [Joiner ν ι V]
    (n : Network ShareOperation ν) : Act ι → Prop
  | .stimulus mb x => mb ∈ n.op.instances ∧
      ∀ r, NetworkFunction.stimulus (n.nf mb) x = some r → Joiner.held r.1 = Joiner.held (n.nf mb)
  | .forward i => ∀ mb packet, n.packets[i]? = some (mb, packet) →
      Joiner.held (NetworkFunction.packet (n.nf mb) packet).1 = Joiner.held (n.nf mb)
  | _ => True

end Join

/-! ## What is said about state -/

/-- An event about a packet. -/
def Message.isReport : Message → Bool
  | .reprocess _ => true
  | _ => false

structure Exchange where
  base : Operation
  instances : List Middlebox
  classes : List StateClass
  source : Option Middlebox
  counters : Counters
  wire : Middlebox → List Command
  /-- The messages on the way, events left out, and those that have been handled. -/
  talk : List (Middlebox × Message)
  heard : List (Middlebox × Message)
  sent : Middlebox → List Command

def reportless (msgs : List (Middlebox × Message)) : List (Middlebox × Message) :=
  msgs.filter fun x => !x.2.isReport

def Network.exchange {ν : Type} (n : Network ShareOperation ν) : Exchange where
  base := n.op.toOperation
  instances := n.op.instances
  classes := n.op.scope.classes
  source := n.op.currentSource
  counters := n.op.counters
  wire := n.wire
  talk := reportless n.inFlight
  heard := reportless n.handled
  sent mb := commandsTo mb n.log

namespace Exchange

/-- What is sent goes onto the wires. -/
def emit (x : Exchange) (out : List Effect) : Exchange :=
  { x with
    wire := fun mb => x.wire mb ++ commandsTo mb out
    sent := fun mb => x.sent mb ++ commandsTo mb out }

/-- A message is handled. -/
def hear (x : Exchange) (source : Middlebox) (msg : Message) (talk : List (Middlebox × Message)) : Exchange :=
  { x with
    talk := talk
    heard := x.heard ++ [(source, msg)] }

/-- The chunks that wait in the thread pool. -/
def waiting (x : Exchange) : Multiset Content :=
  (chunkTasks x.base.threadPool).filterMap fun ref => (x.base.stateChunks ref).msg.map StateMessage.content

/-- All classes have been get-acked, and put-acked by all instances but one. -/
def Finished (x : Exchange) : Prop := ∀ cls ∈ x.classes, x.counters.getAcked cls = true ∧
  (x.counters.putAcks cls : Int) = x.counters.getCount cls * ((x.instances.length : Int) - 1)

def sinks (x : Exchange) (src : Middlebox) : Finset Middlebox := (x.instances.erase src).toFinset

/-- What has been acked of a chunk object of the current map. -/
def numAcked (x : Exchange) (hashkey : Int) : Nat :=
  (x.base.stateChunks (x.base.obtainStateChunk hashkey)).numAckedInstances

/-- The instances are being asked to drop packets. -/
structure Enabling (x : Exchange) (eventAckCount : Nat) : Prop where
  wire : ∀ mb, ∀ cmd ∈ x.wire mb, cmd.isToggle = true
  talk : ∀ y ∈ x.talk, y.2 = .eventsAck
  pool : x.base.threadPool = []
  count : (∑ mb ∈ x.instances.toFinset, (x.wire mb).length) + x.talk.length + eventAckCount =
    x.instances.length
  unacked : ∀ hashkey, x.numAcked hashkey = 0
  puts : ∀ mb ∈ x.instances, chunksFor mb x.heard = putsIn (x.sent mb)

/-- Nothing is on the way; where there is one instance only, its chunks have nowhere to go. -/
structure Calm (x : Exchange) : Prop where
  wire : ∀ mb, x.wire mb = []
  talk : ∀ y ∈ x.talk, ∃ msg, y.2 = .state msg
  still : 2 ≤ x.instances.length → x.talk = [] ∧ x.base.threadPool = []
  unacked : ∀ hashkey, x.numAcked hashkey = 0
  puts : ∀ mb ∈ x.instances, chunksFor mb x.heard = putsIn (x.sent mb)

/-- How many chunks are of a class. -/
def ofClass (items : Multiset Content) (cls : StateClass) : Nat :=
  (items.map Content.ackKey).countP fun key => key.1 = cls

/-- The state of one instance is on its way to the others. -/
structure Round (classOf : Int → StateClass) (src : Middlebox)
    (y : Scatter Middlebox StateClass Content (StateClass × Int)) (x : Exchange) : Prop where
  source : x.source = some src
  mem : src ∈ x.instances
  conserved : y.Conserved Prod.fst Content.ackKey x.classes (x.sinks src)
  classed : ∀ a ∈ y.given, classOf a.hashkey = a.cls
  asking : ∀ mb, getsIn (x.wire mb) = if mb = src then y.asking else 0
  toggles : ∀ mb, ∀ cmd ∈ x.wire mb, cmd.isToggle = false
  eventsAcks : ∀ mb, (mb, .eventsAck) ∉ x.talk
  answered : getAcksIn x.talk = y.answered
  counts : ∀ mb cls count, (mb, .getAck cls count) ∈ x.talk → count = (ofClass y.given cls : Int)
  counted : ∀ cls, cls ∈ y.counted ↔ x.counters.getAcked cls = true
  getCount : ∀ cls ∈ y.counted, x.counters.getCount cls = (ofClass y.given cls : Int)
  putting : ∀ mb, putsIn (x.wire mb) = y.putting mb
  acking : ∀ mb, acksOf mb x.talk = y.acking mb
  putAcks : ∀ cls, x.counters.putAcks cls = y.acks (x.sinks src) fun key => key.1 = cls
  chunkAcks : ∀ hashkey, x.numAcked hashkey = y.acks (x.sinks src) fun key => key.2 = hashkey
  arriving : 2 ≤ x.instances.length → statesIn x.talk = y.arriving
  comes : 2 ≤ x.instances.length → ∀ mb msg, (mb, .state msg) ∈ x.talk → mb = src
  waits : 2 ≤ x.instances.length → x.waiting = y.waiting
  stored : 2 ≤ x.instances.length → ∀ ref, .chunk ref ∈ x.base.threadPool →
    (x.base.stateChunks ref).dsts = some (x.instances.erase src) ∧
      ∃ msg, (x.base.stateChunks ref).msg = some msg
  puts : ∀ mb ∈ x.instances, chunksFor mb x.heard = putsIn (x.sent mb) + if mb = src then 0 else x.waiting

end Exchange

end OFM.Controller
