import Mathlib.Algebra.BigOperators.Group.Finset.Basic
import Mathlib.Data.Multiset.Bind
import OFM.Controller.Transfer

/-!
# What flows through a transfer

An account of a transfer that forgets which middlebox sent what and in which order: what has been asked
for and not been answered, what is on the way to the controller or to `dst`, and what has arrived. The
laws of conservation below hold after every step of the account, in any order of the steps; networks
are shown to take such steps.
-/

namespace OFM.Controller

@[ext]
structure Flow where
  transfer : Transfer
  /-- The classes that have not been answered, and the get-acks on the way and handled. -/
  asking : Multiset StateClass
  answered : Multiset StateClass
  counted : Multiset StateClass
  /-- The chunks on the way to the controller, and handled. -/
  states : Multiset Content
  received : Multiset Content
  put : Multiset (Middlebox × Content)
  /-- The puts on the way to `dst`, and the put-acks on the way back and handled. -/
  putting : Multiset (StateClass × Int)
  acking : Multiset (StateClass × Int)
  acked : Multiset (StateClass × Int)

namespace Flow

/-- What is put, as `dst` acknowledges it. -/
def ackKeys (put : Multiset (Middlebox × Content)) : Multiset (StateClass × Int) :=
  put.map fun x => x.2.ackKey

def hashkeys (put : Multiset (Middlebox × Content)) : Multiset Int :=
  put.map fun x => x.2.hashkey

inductive Act
  | idle
  | answer (cls : StateClass)
  | take (c : Content)
  | count (cls : StateClass)
  | read (key : StateClass × Int)
  | ack (key : StateClass × Int)
  | task (ref : ChunkRef)

/-- The account of a transfer from an instance that holds the chunks `H`. -/
inductive Step (H : StateClass → Multiset Content) : Flow → Act → Flow → Prop
  | idle {f} : Step H f .idle f
  | answer {f cls asking} (hcls : f.asking = cls ::ₘ asking) : Step H f (.answer cls) { f with
      asking := asking
      answered := f.answered + {cls}
      states := f.states + H cls }
  | take {f c states t p} (hc : f.states = c ::ₘ states) (ht : f.transfer.Takes c t p) :
      Step H f (.take c) { f with
        transfer := t
        states := states
        received := f.received + {c}
        put := f.put + p
        putting := f.putting + ackKeys p }
  | count {f cls answered t p} (hcls : f.answered = cls ::ₘ answered)
      (ht : t = { f.transfer with
        counters := f.transfer.counters.recordGetAck cls (H cls).card })
      (hp : p = if t.Released then (f.transfer.list.map f.transfer.store).sum else 0) :
      Step H f (.count cls) { f with
        transfer := t
        answered := answered
        counted := f.counted + {cls}
        put := f.put + p
        putting := f.putting + ackKeys p }
  | read {f key putting} (hkey : f.putting = key ::ₘ putting) : Step H f (.read key) { f with
      putting := putting
      acking := f.acking + {key} }
  | ack {f key acking} (hkey : f.acking = key ::ₘ acking) : Step H f (.ack key) { f with
      transfer := { f.transfer with counters := f.transfer.counters.recordPutAck key.1 }
      acking := acking
      acked := f.acked + {key} }
  | task {f ref pool₁ pool₂} (hpool : f.transfer.pool = pool₁ ++ ref :: pool₂) :
      Step H f (.task ref) { f with
        transfer := { f.transfer with pool := pool₁ ++ pool₂ }
        put := f.put + f.transfer.store ref
        putting := f.putting + ackKeys (f.transfer.store ref) }

/-- A chunk that is received does not replace another one that is still to be put. -/
def Act.Keeps (f : Flow) : Act → Prop
  | .take c => f.transfer.Keeps c
  | _ => True

/-- A get-ack comes after the chunks it counts. -/
def Act.CountsLast (f : Flow) : Act → Prop
  | .count cls => ∀ c ∈ f.states, c.cls ≠ cls
  | _ => True

/-- Neither a chunk nor a get-ack is received. -/
def Act.Silent : Act → Prop
  | .take _ | .count _ => False
  | _ => True

/-! ## What is conserved -/

/-- The chunks of an instance, by class. -/
def Classed (H : StateClass → Multiset Content) : Prop := ∀ cls, ∀ c ∈ H cls, c.cls = cls

structure Conserved (H : StateClass → Multiset Content) (f : Flow) : Prop where
  nodup : f.transfer.classes.Nodup
  asks : f.asking + f.answered + f.counted = f.transfer.classes
  chunks : f.states + f.received + f.asking.bind H = (f.transfer.classes : Multiset _).bind H
  acks : f.putting + f.acking + f.acked = ackKeys f.put
  getAcked : ∀ cls, f.transfer.counters.getAcked cls = true ↔ cls ∈ f.counted
  getCount : ∀ cls ∈ f.counted, f.transfer.counters.getCount cls = (H cls).card
  putAcks : ∀ cls, f.transfer.counters.putAcks cls = f.acked.countP fun key => key.1 = cls
  put_dst : ∀ x ∈ f.put, x.1 = f.transfer.dst ∧ x.2.cls ∈ f.transfer.classes
  stored : ∀ ref ∈ f.transfer.pool ++ f.transfer.list, ∃ c, c.hashkey = ref.hashkey ∧
    c.cls ∈ f.transfer.classes ∧ f.transfer.store ref = {(f.transfer.dst, c)}
  keys : hashkeys f.put + f.transfer.owed.map ChunkRef.hashkey ≤ f.received.map Content.hashkey
  held : f.transfer.holds = true → ¬ f.transfer.AllAcked → f.put = 0 ∧ f.transfer.pool = []
  unheld : f.transfer.holds = false → f.transfer.list = []

/-- Nothing of the transfer is on the way. -/
structure Settled (H : StateClass → Multiset Content) (f : Flow) : Prop where
  asking : f.asking = 0
  answered : f.answered = 0
  states : f.states = 0
  received : f.received = (f.transfer.classes : Multiset StateClass).bind H
  putting : f.putting = 0
  acking : f.acking = 0
  acked : f.acked = ackKeys f.put
  owed : f.transfer.owed = []
  keys : hashkeys f.put = f.received.map Content.hashkey

end Flow

/-! ## The account of a network -/

/-- The contents of what an instance holds. -/
def contentsOf (held : StateClass → List StateMessage) (cls : StateClass) : Multiset Content :=
  (held cls).map StateMessage.content

namespace Network

variable {σ : Type} [PacketUtil] [TransferOperation σ]

/-- What has been asked for by commands on the way to `src` and acks on the way from it. A filter that
is changed, or has been, asks for every class. -/
def asking (classes : List StateClass) (wire : List Command) (acks : Nat) : Multiset StateClass :=
  (wire.countP Command.isToggle + acks) • (classes : Multiset StateClass) +
    (wire.filterMap Command.getClass : List StateClass)

open TransferOperation in
def flow (n : Network σ Holder) : Flow where
  transfer := transfer n.op
  asking := asking (transfer n.op).classes (n.wire (transfer n.op).src)
    (n.inFlight.count ((transfer n.op).src, .eventsAck))
  answered := getAcksIn n.inFlight
  counted := getAcksIn n.handled
  states := statesIn n.inFlight
  received := statesIn n.handled
  put := puts n.log
  putting := (putsIn (n.wire (transfer n.op).dst)).map Content.ackKey
  acking := putAcksIn n.inFlight
  acked := putAcksIn n.handled

end Network

end OFM.Controller
