import OFM.Controller.OFMatch
import OFM.Controller.Operation

/-!
# Moving state

`MoveOperation.java`. The fields and log lines that only serve the statistics are left out, except
for the event and packet counters, which the handlers read.
-/

namespace OFM.Controller
open OFM.Lib

/-- The arguments of the constructor, which no method assigns. -/
structure MoveArguments where
  src : Middlebox
  dst : Middlebox
  key : PerflowKey
  scope : Scope
  guarantee : Guarantee
  optimization : Optimization
  inPort : Int
  deriving DecidableEq

structure MoveOperation extends Operation, MoveArguments where
  counters : Counters
  bufferingEnabled : Bool
  performedPhaseTwo : Bool
  lastPacket : Option Packet
  immediateRelease : Bool
  eventsList : List ReprocessEvent
  statesList : List ChunkRef
  srcEventCount : Nat
  packetCount : Nat

/-- `OFPort.OFPP_CONTROLLER`, the short `0xfffd`. -/
def ofppController : Int := -3

/-- `new short[n]`. -/
def newArray (n : Nat) : List Int := List.replicate n 0

/-- Assignment to an array cell, which is checked. -/
def setCell (a : List Int) (i : Nat) (v : Int) : Except JavaException (List Int) :=
  if i < a.length then .ok (a.set i v) else .error .arrayIndexOutOfBounds

/-- `FlowUtil.installForwardingRules`: nothing is installed on a null switch. The matches of the key are made
outside of any `try`, before the first rule is written. -/
def installForwardingRules (sw : Option Nat) (inPort : Int) (outPorts : List Int)
    (key : PerflowKey) : Except JavaException (List Effect) :=
  match sw with
  | none => .ok []
  | some sw => do
      let _ ← key.toOFMatches
      pure [.installRule sw inPort outPorts key]

namespace MoveArguments

/-- Without parallelization the chunks wait in `statesList` for the get-acks. -/
def buffersStates (args : MoveArguments) : Prop :=
  args.optimization = .noOptimization ∨ args.optimization = .ll

instance (args : MoveArguments) : Decidable args.buffersStates :=
  inferInstanceAs (Decidable (_ ∨ _))

def updateForwardingToDst (args : MoveArguments) : Except JavaException (List Effect) :=
  installForwardingRules args.dst.sw args.inPort [args.dst.switchPort] args.key

/-- The rule to `dst` can be installed: there is a switch for it, and the key has matches. -/
def Routable (args : MoveArguments) : Prop := args.dst.sw.isSome = true ∧ args.key.toOFMatches.isOk = true

instance (args : MoveArguments) : Decidable args.Routable := inferInstanceAs (Decidable (_ ∧ _))

/-- The route update throws: there is a switch, and the key has no matches. -/
def RouteThrows (args : MoveArguments) : Prop := args.dst.sw.isSome = true ∧ args.key.toOFMatches.isOk = false

instance (args : MoveArguments) : Decidable args.RouteThrows := inferInstanceAs (Decidable (_ ∧ _))

end MoveArguments

namespace MoveOperation

def new (id : Int) (args : MoveArguments) : MoveOperation where
  toOperation := Operation.new id
  toMoveArguments := args
  counters := Counters.new
  bufferingEnabled := false
  performedPhaseTwo := false
  lastPacket := none
  immediateRelease := false
  eventsList := []
  statesList := []
  srcEventCount := 0
  packetCount := 0

/-- Runs a method of the superclass. -/
def onBase (op : MoveOperation) (r : Emit Effect Operation) : Emit Effect MoveOperation :=
  .emit { op with toOperation := r.val } r.out

def withChunk (op : MoveOperation) (ref : ChunkRef) (chunk : StateChunk) : MoveOperation :=
  { op with toOperation := op.setChunk ref chunk }

def withTask (op : MoveOperation) (task : Task) : MoveOperation :=
  { op with toOperation := op.submit task }

/-! ## Requests -/

def enableEventGeneration (op : MoveOperation) (mb : Middlebox) (action : EventAction) :
    Emit Effect MoveOperation :=
  .emit op [.send mb (.enableEvents op.id op.key action)]

/-- The argument only appears in the log. -/
def disableEventGeneration (op : MoveOperation) (_mb : Middlebox) : Emit Effect MoveOperation :=
  .emit op [.send op.dst (.disableEvents op.id op.key)]

def raiseEvents (op : MoveOperation) : Bool :=
  !(op.guarantee = .noGuarantee || op.optimization = .noOptimization || op.optimization = .pz)

def issueGet (op : MoveOperation) : Emit Effect Int :=
  let getPerflow := op.scope = .perflow ∨ op.scope = .pfMf
  let getMultiflow := op.scope = .multiflow ∨ op.scope = .pfMf
  .emit (if ¬ getPerflow ∧ ¬ getMultiflow then -1 else op.id)
    ((if getPerflow then [.send op.src (.getPerflow op.id op.key op.raiseEvents)] else []) ++
      (if getMultiflow then [.send op.src (.getMultiflow op.id op.key)] else []))

def execute (op : MoveOperation) : Emit Effect Int :=
  if op.guarantee ≠ .noGuarantee ∧ (op.optimization = .noOptimization ∨ op.optimization = .pz) then do
    let op ← op.enableEventGeneration op.src .drop
    pure op.id
  else op.issueGet

/-! ## Route updates -/

/-- The ports of the phase-1 rule: an array of one cell, of which two are assigned. -/
def phaseOnePorts (op : MoveOperation) : Except JavaException (List Int) := do
  let outPorts ← setCell (newArray 1) 0 ofppController
  setCell outPorts 1 op.src.switchPort

def receiveEventsAck (op : MoveOperation) (source : Middlebox) : Emit Effect MoveOperation :=
  if source = op.src then .emit op op.issueGet.out
  else if ¬ op.bufferingEnabled then
    let op := { op with bufferingEnabled := true }
    match op.phaseOnePorts with
    | .error e => .emit op [.thrown e]
    | .ok outPorts =>
        match installForwardingRules op.dst.sw op.inPort outPorts op.key with
        | .error e => .emit op [.thrown e]
        | .ok rules => .emit op rules
  else op.onBase op.finish

/-! ## State -/

def receiveStateMessage (op : MoveOperation) (msg : StateMessage) : Emit Effect MoveOperation :=
  let chunk := op.obtainStateChunk msg.hashkey
  let op := op.withChunk chunk ((op.stateChunks chunk).storeStateMessage msg [op.dst])
  if op.buffersStates then pure { op with statesList := op.statesList ++ [chunk] }
  else pure (op.withTask (.chunk chunk))

/-- The handlers for the other classes are inherited and do nothing. -/
def receiveState (op : MoveOperation) (msg : StateMessage) : Emit Effect MoveOperation :=
  match msg with
  | .perflow .. => op.receiveStateMessage msg
  | .multiflow .. => op.receiveStateMessage msg
  | .allflows .. | .config .. => pure op

/-- `checkIfStateMoved` only knows three scopes. -/
def completed (op : MoveOperation) : Bool :=
  let k := op.counters
  match op.scope with
  | .perflow => k.getAcked .perflow && k.acksMatch .perflow
  | .multiflow => k.getAcked .multiflow && k.acksMatch .multiflow
  | .pfMf => k.getAcked .perflow && k.getAcked .multiflow && k.acksMatch .perflow
      && k.acksMatch .multiflow
  | _ => false

variable [PacketUtil]

/-- Releases the events one after the other, each future being awaited; `false` when one has thrown
and the handler returns. -/
def releaseInOrder : List ReprocessEvent → MoveOperation → Emit Effect (MoveOperation × Bool)
  | [], op => pure ({ op with eventsList := [] }, true)
  | event :: rest, op =>
      let op := { op with eventsList := rest }
      match event.call with
      | .ok out => do
          let op ← Emit.emit op out
          releaseInOrder rest op
      | .error _ => do
          let op ← op.onBase op.fail
          pure (op, false)

/-- `invokeAll` waits for its tasks, and leaves `eventsList` as it is. -/
def releaseEvents (op : MoveOperation) (sched : Schedule) : Emit Effect (MoveOperation × Bool) :=
  if op.guarantee = .orderPreserving then releaseInOrder op.eventsList op
  else .emit (op, true) ((sched.events op.eventsList).flatMap ReprocessEvent.sent)

/-- `checkIfStateMoved` from the release of the events on. -/
def endTransfer (op : MoveOperation) (sched : Schedule) : Emit Effect MoveOperation := do
  let released ← op.releaseEvents sched
  let op := released.1
  if released.2 then do
    let op ← if op.guarantee ≠ .orderPreserving then op.onBase op.finish else pure op
    pure { op with immediateRelease := true }
  else pure op

/-- An exception of the key leaves the handler before anything is released. -/
def checkIfStateMoved (op : MoveOperation) (sched : Schedule) : Emit Effect MoveOperation :=
  if op.completed then
    if op.guarantee = .orderPreserving then do
      let op ← op.enableEventGeneration op.dst .buffer
      op.endTransfer sched
    else
      match op.updateForwardingToDst with
      | .error e => .emit op [.thrown e]
      | .ok rules => do
          let op ← Emit.emit op rules
          op.endTransfer sched
  else pure op

/-- `invokeAll` on the chunks that have been held back, each put to `dst`. -/
def releaseBufferedStates (op : MoveOperation) (sched : Schedule) : Emit Effect MoveOperation :=
  .emit op ((sched.chunks op.statesList).flatMap fun ref => (op.stateChunks ref).call.out)

/-- `receiveGetPerflowAck` and `receiveGetMultiflowAck`: the class and the other class of the two. -/
def receiveGetAckOf (op : MoveOperation) (sched : Schedule) (cls other : StateClass) (count : Int) :
    Emit Effect MoveOperation :=
  let op := { op with counters := op.counters.recordGetAck cls count }
  if op.buffersStates then
    if op.scope = .pfMf ∧ op.counters.getAcked other = false then pure op
    else op.releaseBufferedStates sched
  else op.checkIfStateMoved sched

def receiveGetPerflowAck (op : MoveOperation) (sched : Schedule) (count : Int) :
    Emit Effect MoveOperation :=
  op.receiveGetAckOf sched .perflow .multiflow count

def receiveGetMultiflowAck (op : MoveOperation) (sched : Schedule) (count : Int) :
    Emit Effect MoveOperation :=
  op.receiveGetAckOf sched .multiflow .perflow count

def receiveGetAck (op : MoveOperation) (sched : Schedule) (cls : StateClass) (count : Int) :
    Emit Effect MoveOperation :=
  match cls with
  | .perflow => op.receiveGetPerflowAck sched count
  | .multiflow => op.receiveGetMultiflowAck sched count
  | .allflows | .config => pure op

/-- An exception of an event of the chunk leaves the handler before the check. -/
def receivePutAckOf (op : MoveOperation) (sched : Schedule) (hashkey : Int) :
    Emit Effect MoveOperation := do
  let chunk := op.obtainStateChunk hashkey
  let acked ← (op.stateChunks chunk).receivedPutAck
  let op := op.withChunk chunk acked.1
  match acked.2 with
  | some e => .emit op [.thrown e]
  | none => op.checkIfStateMoved sched

def receivePutPerflowAck (op : MoveOperation) (sched : Schedule) (hashkey : Int) :
    Emit Effect MoveOperation :=
  receivePutAckOf { op with counters := op.counters.recordPutAck .perflow } sched hashkey

def receivePutMultiflowAck (op : MoveOperation) (sched : Schedule) (hashkey : Int) :
    Emit Effect MoveOperation :=
  receivePutAckOf { op with counters := op.counters.recordPutAck .multiflow } sched hashkey

def receivePutAck (op : MoveOperation) (sched : Schedule) (cls : StateClass) (hashkey : Int) :
    Emit Effect MoveOperation :=
  match cls with
  | .perflow => op.receivePutPerflowAck sched hashkey
  | .multiflow => op.receivePutMultiflowAck sched hashkey
  | .allflows | .config => pure op

/-! ## Events and packets -/

/-- An event of `src`. Its chunk is looked at only under early release. -/
def receiveSrcReprocess (op : MoveOperation) (msg : ReprocessMessage) : Emit Effect MoveOperation :=
  let op := { op with srcEventCount := op.srcEventCount + 1 }
  let event := { ReprocessEvent.new msg op.dst false with eventId := op.srcEventCount }
  if op.immediateRelease then pure (op.withTask (.event event))
  else if op.optimization ≠ .pzLlEr then pure { op with eventsList := op.eventsList ++ [event] }
  else
    let chunk := op.obtainStateChunk msg.hashkey
    if (op.stateChunks chunk).isAcked then pure (op.withTask (.event event))
    else do
      let kept ← (op.stateChunks chunk).receivedReprocess event
      let op := op.withChunk chunk kept.1
      match kept.2 with
      | some e => .emit op [.thrown e]
      | none => pure op

/-- An event of another middlebox: is it the packet that was last seen on its way to `src`? -/
def receiveDstReprocess (op : MoveOperation) (msg : ReprocessMessage) : Emit Effect MoveOperation :=
  match op.lastPacket with
  | none => pure op
  | some lastPacket =>
      match PacketUtil.setFlag (ReprocessEvent.base64Decode msg.packet) PacketUtil.flagNone with
      | .error e => .emit op [.thrown e]
      | .ok packet =>
          if packet = some lastPacket then op.disableEventGeneration op.dst else pure op

/-- Without a guarantee an event is only logged; the assertion that follows is off by default. -/
def receiveReprocess (op : MoveOperation) (msg : ReprocessMessage) (source : Middlebox) :
    Emit Effect MoveOperation :=
  if op.guarantee = .noGuarantee then pure op
  else if source = op.src then op.receiveSrcReprocess msg
  else op.receiveDstReprocess msg

def receivePacket (op : MoveOperation) (packet : Packet) (inSwitch : Nat) (inPort : Int) :
    Emit Effect MoveOperation :=
  if op.inPort ≠ inPort ∨ op.src.sw ≠ some inSwitch then pure op
  else
    let op := { op with packetCount := op.packetCount + 1 }
    match PacketUtil.setFlag packet PacketUtil.flagNone with
    | .error e => .emit op [.thrown e]
    | .ok lastPacket =>
        let op := { op with lastPacket := lastPacket }
        if ¬ op.performedPhaseTwo ∧ op.packetCount ≥ 1 then
          match op.updateForwardingToDst with
          | .error e => .emit op [.thrown e]
          | .ok rules => .emit { op with performedPhaseTwo := true } rules
        else pure op

def receive (sched : Schedule) (source : Middlebox) (msg : Message) (op : MoveOperation) :
    Emit Effect MoveOperation :=
  match msg with
  | .state msg => op.receiveState msg
  | .getAck cls count => op.receiveGetAck sched cls count
  | .putAck cls hashkey => op.receivePutAck sched cls hashkey
  | .eventsAck => op.receiveEventsAck source
  | .reprocess msg => op.receiveReprocess msg source

instance : Handlers MoveOperation where
  base := toOperation
  setBase op b := { op with toOperation := b }
  base_setBase _ _ := rfl
  execute := execute
  receive := receive
  receivePacket packet inSwitch inPort op := op.receivePacket packet inSwitch inPort

end MoveOperation

/-! ## Which moves there are -/

/-- The checks `SdmbnManager.move` makes before it creates an operation. -/
def SdmbnManager.moveAdmits (scope : Scope) (guarantee : Guarantee) (optimization : Optimization) :
    Bool :=
  match scope with
  | .perflow | .multiflow | .pfMf =>
      match optimization with
      | .noOptimization | .pz => true
      | .ll | .pzLl => guarantee ≠ .noGuarantee
      | .pzLlEr => scope ≠ .pfMf ∧ guarantee ≠ .noGuarantee
  | _ => false

/-- The arguments with which `SdmbnManager.move` creates an operation and executes it. -/
def MoveArguments.Admitted (args : MoveArguments) : Prop :=
  SdmbnManager.moveAdmits args.scope args.guarantee args.optimization = true

instance (args : MoveArguments) : Decidable args.Admitted :=
  inferInstanceAs (Decidable (_ = true))

end OFM.Controller
