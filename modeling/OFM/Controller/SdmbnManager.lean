import OFM.Controller.Channelled
import OFM.Controller.CopyOperation
import OFM.Controller.MoveOperation
import OFM.Controller.PacketMatch
import OFM.Controller.ShareOperation

/-!
# Middleboxes and their channels

Any of the operations, and what happens to it when the two channels of its network functions hand over line after line,
whatever they say. `channelConnected` and `channelDisconnected` of `SdmbnManager.java`, with `obtainMiddlebox` and the
part of `Middlebox.java` that is about channels.
-/

namespace OFM.Controller
open OFM.Lib

/-! ## Sessions of lines -/

/-- The subclasses of `Operation`. -/
inductive AnyOperation
  | move (op : MoveOperation)
  | copy (op : CopyOperation)
  | moveConfig (op : MoveConfigOperation)
  | share (op : ShareOperation)

namespace AnyOperation

/-- The operations that there are when they have just been created. -/
inductive Created (id : Int) : AnyOperation → Prop
  | move {args : MoveArguments} (h : args.Admitted) : Created id (.move (MoveOperation.new id args))
  | copy (src dst : Middlebox) (key : PerflowKey) (scope : Scope) :
      Created id (.copy (CopyOperation.new id src dst key scope))
  | moveConfig (src dst : Middlebox) (key : PerflowKey) :
      Created id (.moveConfig (MoveConfigOperation.new id src dst key))
  | shareStrong (instances : List Middlebox) (key : PerflowKey) (scope : Scope) :
      Created id (.share (ShareStrongOperation.new id instances key scope))
  | shareStrict (instances : List Middlebox) (key : PerflowKey) (scope : Scope) :
      Created id (.share (ShareStrictOperation.new id instances key scope))

def base : AnyOperation → Operation
  | .move op => op.toOperation
  | .copy op => op.toOperation
  | .moveConfig op => op.toOperation
  | .share op => op.toOperation

def setBase (b : Operation) : AnyOperation → AnyOperation
  | .move op => .move { op with toOperation := b }
  | .copy op => .copy { op with toOperation := b }
  | .moveConfig op => .moveConfig { op with toOperation := b }
  | .share op => .share { op with toOperation := b }

def execute : AnyOperation → Emit Effect Int
  | .move op => op.execute
  | .copy op => op.execute
  | .moveConfig op => op.execute
  | .share op => op.execute

variable [PacketUtil] [Charset]

def receive (sched : Schedule) (source : Middlebox) (msg : Message) :
    AnyOperation → Emit Effect AnyOperation
  | .move op => (Handlers.receive sched source msg op).map .move
  | .copy op => (Handlers.receive sched source msg op).map .copy
  | .moveConfig op => (Handlers.receive sched source msg op).map .moveConfig
  | .share op => (Handlers.receive sched source msg op).map .share

def receivePacket (packet : Packet) (inSwitch : Nat) (inPort : Int) :
    AnyOperation → Emit Effect AnyOperation
  | .move op => (Handlers.receivePacket packet inSwitch inPort op).map .move
  | .copy op => (Handlers.receivePacket packet inSwitch inPort op).map .copy
  | .moveConfig op => (Handlers.receivePacket packet inSwitch inPort op).map .moveConfig
  | .share op => (Handlers.receivePacket packet inSwitch inPort op).map .share

instance : Handlers AnyOperation where
  base := base
  setBase op b := op.setBase b
  base_setBase op b := by cases op <;> rfl
  execute := execute
  receive := receive
  receivePacket := receivePacket

end AnyOperation

/-! ## Lines -/

/-- The connections a network function has to the controller. -/
inductive ChannelKind
  | state | event
  deriving DecidableEq, Repr

def ChannelKind.processMessage (lookupOperation : Int → Option Bool) (line : Option JsonObject) :
    ChannelKind → Outcome
  | .state => StateChannel.processMessage lookupOperation line
  | .event => EventChannel.processMessage lookupOperation line

/-- One thing that can happen to an operation; a line that cannot be parsed says nothing. -/
inductive LineInput
  | line (sched : Schedule) (channel : ChannelKind) (source : Middlebox) (line : Option JsonObject)
  | packet (packet : Packet) (inSwitch : Nat) (inPort : Int)
  | task (i : Nat)

namespace Session

variable {σ : Type} [Handlers σ] [PacketUtil]

/-- What the channel of a line makes of it; all but a call of a handler leave the operation alone. -/
def stepLine (s : Session σ) : LineInput → Option (Session σ)
  | .line sched channel source line =>
      match channel.processMessage (Handlers.base s.op).lookup line with
      | .handler msg => some ((s.record (Handlers.receive sched source msg s.op)).note source msg)
      | _ => some s
  | .packet packet inSwitch inPort => s.step (.packet packet inSwitch inPort)
  | .task i => s.step (.task i)

end Session

/-! ## Middleboxes and their channels -/

/-- A connection whose SYN has named a network function. -/
structure BaseChannel where
  kind : ChannelKind
  host : JavaString
  pid : Int
  /-- Which connection it is; a network function may open several. -/
  connection : Nat
  deriving DecidableEq, Repr

/-- The channels that a `Middlebox` refers to. -/
structure MiddleboxChannels where
  stateChannel : Option BaseChannel
  eventChannel : Option BaseChannel

namespace MiddleboxChannels

def new : MiddleboxChannels := ⟨none, none⟩

def get (mb : MiddleboxChannels) : ChannelKind → Option BaseChannel
  | .state => mb.stateChannel
  | .event => mb.eventChannel

/-- `setStateChannel` or `setEventChannel` -/
def set (mb : MiddleboxChannels) (kind : ChannelKind) (channel : Option BaseChannel) : MiddleboxChannels :=
  match kind with
  | .state => { mb with stateChannel := channel }
  | .event => { mb with eventChannel := channel }

def hasStateChannel (mb : MiddleboxChannels) : Bool := mb.stateChannel.isSome

def hasEventChannel (mb : MiddleboxChannels) : Bool := mb.eventChannel.isSome

end MiddleboxChannels

/-- A number as it is appended to a string. -/
def decimalInt (n : Int) : JavaString := if n < 0 then 45 :: decimal n.natAbs else decimal n.natAbs

/-- `Middlebox.constructId` -/
def constructId (host : JavaString) (pid : Int) : JavaString := host ++ 46 :: decimalInt pid

/-- What the listeners are told. -/
inductive Notification
  | middleboxConnected (host : JavaString) (pid : Int)
  | middleboxDisconnected (host : JavaString) (pid : Int)
  deriving DecidableEq, Repr

structure SdmbnManager where
  middleboxes : JavaString → Option MiddleboxChannels

namespace SdmbnManager

def start : SdmbnManager := ⟨fun _ => none⟩

def put (manager : SdmbnManager) (id : JavaString) (mb : MiddleboxChannels) : SdmbnManager :=
  ⟨fun id' => if id' = id then some mb else manager.middleboxes id'⟩

/-- The middlebox, which is made when there is none. -/
def obtainMiddlebox (manager : SdmbnManager) (host : JavaString) (pid : Int) : MiddleboxChannels :=
  match manager.middleboxes (constructId host pid) with
  | some mb => mb
  | none => .new

def channelConnected (manager : SdmbnManager) (channel : BaseChannel) :
    SdmbnManager × Option Notification :=
  let mb := manager.obtainMiddlebox channel.host channel.pid
  let mb := mb.set channel.kind (some channel)
  (manager.put (constructId channel.host channel.pid) mb,
    if mb.hasEventChannel && mb.hasStateChannel then
      some (.middleboxConnected channel.host channel.pid)
    else none)

def channelDisconnected (manager : SdmbnManager) (channel : BaseChannel) :
    SdmbnManager × Option Notification :=
  let mb := manager.obtainMiddlebox channel.host channel.pid
  let mb := mb.set channel.kind none
  (manager.put (constructId channel.host channel.pid) mb,
    if (mb.hasStateChannel && !mb.hasEventChannel) || (!mb.hasStateChannel && mb.hasEventChannel) then
      some (.middleboxDisconnected channel.host channel.pid)
    else none)

end SdmbnManager

end OFM.Controller
