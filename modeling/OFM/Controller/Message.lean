import Mathlib.Data.List.Nodup
import Mathlib.Data.UInt

/-!
# Middleboxes, keys and messages

The enumerations of `Parameters.java`, and the objects the operations of the controller work with: middleboxes,
the flow key that is carried from message to message, what a network function sends to the controller and what
the controller writes to it. The operation id that both channels look up before they hand a message on is not part
of the messages below; the ids that are copied into other messages are.
-/

namespace OFM.Controller

/-! ## Parameters -/

inductive Scope
  | perflow | multiflow | allflows | pfMf | pfAf | mfAf | pfMfAf
  deriving DecidableEq, Repr

inductive Guarantee
  | noGuarantee | lossFree | orderPreserving
  deriving DecidableEq, Repr

inductive Consistency
  | strong | strict
  deriving DecidableEq, Repr

/-- PZ parallelizes, LL locks late, ER releases early. -/
inductive Optimization
  | noOptimization | pz | ll | pzLl | pzLlEr
  deriving DecidableEq, Repr

/-- The kinds of state a network function holds; every message about state is about one of them. -/
inductive StateClass
  | perflow | multiflow | allflows | config
  deriving DecidableEq, Repr

namespace Scope

/-- The classes whose state an operation of the scope asks for. -/
def classes : Scope → List StateClass
  | .perflow => [.perflow]
  | .multiflow => [.multiflow]
  | .allflows => [.allflows]
  | .pfMf => [.perflow, .multiflow]
  | .pfAf => [.perflow, .allflows]
  | .mfAf => [.multiflow, .allflows]
  | .pfMfAf => [.perflow, .multiflow, .allflows]

theorem classes_nodup (scope : Scope) : scope.classes.Nodup := by
  cases scope <;> decide

end Scope

/-! ## Objects and messages -/

/-- Java's `String`, as its UTF-16 code units. -/
abbrev JavaString := List UInt16

/-- Java's `byte[]`. -/
abbrev Packet := List UInt8

/-- `SdmbnManager` keeps one object per host and pid, so that two references are equal exactly when
their contents are. The switch is known once a discovery packet has located the middlebox. -/
structure Middlebox where
  host : JavaString
  pid : Int
  sw : Option Nat
  switchPort : Int
  deriving DecidableEq, Repr

structure PerflowKey where
  nwSrc : Option JavaString
  nwDst : Option JavaString
  nwSrcMask : Option Int
  nwDstMask : Option Int
  tpSrc : Option Int
  tpDst : Option Int
  tpFlip : Int
  dlType : Option Int
  nwProto : Option Int
  deriving DecidableEq, Repr

/-- The key without any field, which every packet satisfies. -/
def PerflowKey.new : PerflowKey := ⟨none, none, none, none, none, none, 0, none, none⟩

def PerflowKey.getTpFlip (key : PerflowKey) : Bool := key.tpFlip = 1

inductive EventAction
  | drop | buffer | process
  deriving DecidableEq, Repr

/-! ## From a network function to the controller -/

/-- `StatePerflowMessage`, `StateMultiflowMessage`, `StateAllflowsMessage` and
`StateConfigMessage`: one chunk of state. -/
inductive StateMessage
  | perflow (id seq : Int) (key : Option PerflowKey) (hashkey : Int) (state : JavaString)
  | multiflow (id seq : Int) (key : Option PerflowKey) (hashkey : Int) (state : JavaString)
  | allflows (id hashkey : Int) (state : JavaString)
  | config (id seq : Int) (key : Option PerflowKey) (hashkey : Int) (state : JavaString)
  deriving DecidableEq, Repr

structure ReprocessMessage where
  hashkey : Int
  header : JavaString
  packet : JavaString
  deriving DecidableEq, Repr

/-- What an operation can be handed. The acks of the classes differ in their handler only. -/
inductive Message
  | state (msg : StateMessage)
  | getAck (cls : StateClass) (count : Int)
  | putAck (cls : StateClass) (hashkey : Int)
  | eventsAck
  | reprocess (msg : ReprocessMessage)
  deriving DecidableEq, Repr

/-- A get-ack or a put-ack. -/
def Message.isAck : Message → Bool
  | .getAck .. | .putAck .. => true
  | _ => false

/-! ## From the controller to a network function -/

inductive PutMessage
  | perflow (id seq : Int) (key : Option PerflowKey) (hashkey : Int) (state : JavaString)
  | multiflow (id seq : Int) (key : Option PerflowKey) (hashkey : Int) (state : JavaString)
  | allflows (id hashkey : Int) (state : JavaString)
  | config (id seq : Int) (key : Option PerflowKey) (hashkey : Int) (state : JavaString)
  deriving DecidableEq, Repr

inductive Command
  | getPerflow (id : Int) (key : PerflowKey) (raiseEvents : Bool)
  | getMultiflow (id : Int) (key : PerflowKey)
  | getAllflows (id : Int)
  | getConfig (id : Int) (key : PerflowKey)
  | put (msg : PutMessage)
  | enableEvents (id : Int) (key : PerflowKey) (action : EventAction)
  | disableEvents (id : Int) (key : PerflowKey)
  deriving DecidableEq, Repr

/-! ## What a chunk of state says -/

/-- The contents of a chunk: its class, hashkey, key, sequence number and serialised state. The
messages about all-flows state have neither key nor sequence number. -/
structure Content where
  cls : StateClass
  hashkey : Int
  key : Option PerflowKey
  seq : Int
  state : JavaString
  deriving DecidableEq, Repr

def StateMessage.content : StateMessage → Content
  | .perflow _ seq key hashkey state => ⟨.perflow, hashkey, key, seq, state⟩
  | .multiflow _ seq key hashkey state => ⟨.multiflow, hashkey, key, seq, state⟩
  | .allflows _ hashkey state => ⟨.allflows, hashkey, none, 0, state⟩
  | .config _ seq key hashkey state => ⟨.config, hashkey, key, seq, state⟩

def PutMessage.content : PutMessage → Content
  | .perflow _ seq key hashkey state => ⟨.perflow, hashkey, key, seq, state⟩
  | .multiflow _ seq key hashkey state => ⟨.multiflow, hashkey, key, seq, state⟩
  | .allflows _ hashkey state => ⟨.allflows, hashkey, none, 0, state⟩
  | .config _ seq key hashkey state => ⟨.config, hashkey, key, seq, state⟩

abbrev StateMessage.cls (msg : StateMessage) : StateClass := msg.content.cls

abbrev StateMessage.hashkey (msg : StateMessage) : Int := msg.content.hashkey

/-- The class of state a command asks for. -/
def Command.getClass : Command → Option StateClass
  | .getPerflow .. => some .perflow
  | .getMultiflow .. => some .multiflow
  | .getAllflows .. => some .allflows
  | .getConfig .. => some .config
  | _ => none

/-- The chunk a command puts. -/
def Command.putContent : Command → Option Content
  | .put msg => some msg.content
  | _ => none

end OFM.Controller
