import OFM.Controller.Operation
import OFM.Controller.PacketMatch
import OFM.Controller.Text

/-!
# Sharing state

`ShareStrongOperation.java` and `ShareStrictOperation.java`, which differ in how a chunk is put and in
whether a get asks for events. Each instance in turn is asked for its state, which is put to all others;
then the packets that the instances reported are given back one by one, and after each of them the state
of its instance is put to the others. The fields and log lines that only serve the statistics are left
out, and so is the port a strict share is given, which it never uses.
-/

namespace OFM.Controller
open OFM.Lib

/-- A `LinkedHashMap`, its entries in the order in which their keys came. -/
abbrev LinkedHashMap (κ β : Type) := List (κ × β)

namespace LinkedHashMap

variable {κ β : Type} [DecidableEq κ]

/-- A key that is there keeps its place. -/
def put (m : LinkedHashMap κ β) (key : κ) (value : β) : LinkedHashMap κ β :=
  if m.any (·.1 = key) then m.map fun entry => if entry.1 = key then (key, value) else entry
  else m ++ [(key, value)]

def remove (m : LinkedHashMap κ β) (key : κ) : LinkedHashMap κ β :=
  m.filter (·.1 ≠ key)

end LinkedHashMap

structure ShareOperation extends Operation where
  consistency : Consistency
  instances : List Middlebox
  key : PerflowKey
  scope : Scope
  isSyncFinished : Bool
  counters : Counters
  currentSource : Option Middlebox
  /-- A strict share has no such field, and reads none. -/
  instancesExcludingSource : Option (List Middlebox)
  eventAckCount : Nat
  originalEvents : LinkedHashMap JavaString Middlebox
  lastPacket : Option Packet
  callFromReprocess : Bool
  nextInstIndex : Nat

namespace ShareOperation

def new (consistency : Consistency) (id : Int) (instances : List Middlebox) (key : PerflowKey)
    (scope : Scope) : ShareOperation where
  toOperation := Operation.new id
  consistency := consistency
  instances := instances
  key := key
  scope := scope
  isSyncFinished := false
  counters := Counters.new
  currentSource := none
  instancesExcludingSource := none
  eventAckCount := 0
  originalEvents := []
  lastPacket := none
  callFromReprocess := false
  nextInstIndex := 0

def enableEvents (op : ShareOperation) : List Effect :=
  op.instances.map fun inst => .send inst (.enableEvents op.id op.key .drop)

def execute (op : ShareOperation) : Emit Effect Int :=
  .emit op.id op.enableEvents

/-! ## Rounds -/

/-- The gets of a round, in the order of the classes. -/
def gets (op : ShareOperation) (inst : Middlebox) : List Effect :=
  op.scope.classes.filterMap fun
    | .perflow => some (.send inst (.getPerflow op.id op.key (op.consistency = .strict)))
    | .multiflow => some (.send inst (.getMultiflow op.id op.key))
    | .allflows => some (.send inst (.getAllflows op.id))
    | .config => none

/-- The counters at the start of a round. -/
def roundCounters : Counters := ⟨fun _ => false, fun _ => 100000, fun _ => 0⟩

/-- The source of the chunks to come. -/
def setSource (op : ShareOperation) (inst : Middlebox) : ShareOperation :=
  { op with
    currentSource := some inst
    instancesExcludingSource := some (op.instances.erase inst) }

def syncFromInstance (op : ShareOperation) (inst : Middlebox) : Emit Effect ShareOperation :=
  .emit ({ op with counters := roundCounters }.setSource inst) (op.gets inst)

/-- The first of the packets that are waiting is given back; it is not removed. -/
def dequeueEvent [Charset] (op : ShareOperation) : Emit Effect ShareOperation :=
  match op.originalEvents with
  | [] => pure { op with callFromReprocess := true }
  | (packet, src) :: _ =>
      let pkt := Charset.getBytes packet
      let op := { op with lastPacket := some pkt }
      match src.sw with
      | none => .emit { op with toOperation := op.fail.val } op.fail.out
      | some sw => .emit (op.setSource src) [.packetOut src sw pkt]

def syncAllInstances [Charset] (op : ShareOperation) : Emit Effect ShareOperation :=
  if op.nextInstIndex = op.instances.length then
    { op with isSyncFinished := true }.dequeueEvent
  else
    match op.instances[op.nextInstIndex]? with
    | none => .emit op [.thrown .indexOutOfBounds]
    | some inst => do
        let op ← op.syncFromInstance inst
        pure { op with nextInstIndex := op.nextInstIndex + 1 }

/-- As many put-acks of the class as the chunks its get-ack announced, from each instance but one. -/
def acksMatch (op : ShareOperation) (cls : StateClass) : Bool :=
  (op.counters.putAcks cls : Int) == op.counters.getCount cls * ((op.instances.length : Int) - 1)

/-- The conditions of the cases of `checkIfInstFinished`. -/
def instFinished (op : ShareOperation) : Bool :=
  op.scope.classes.all fun cls => op.counters.getAcked cls && op.acksMatch cls

/-- `getPerflowAcked = false` and its like, for the classes of the scope. -/
def clearAcked (op : ShareOperation) : ShareOperation :=
  { op with counters := { op.counters with
      getAcked := fun cls => op.counters.getAcked cls && !op.scope.classes.contains cls } }

def checkIfInstFinished [Charset] (op : ShareOperation) : Emit Effect ShareOperation :=
  if op.instFinished then
    let op := op.clearAcked
    { op with toOperation := op.flushStateChunks }.syncAllInstances
  else pure op

/-! ## Handlers -/

def receiveEventsAck [Charset] (op : ShareOperation) : Emit Effect ShareOperation :=
  let op := { op with eventAckCount := op.eventAckCount + 1 }
  if op.eventAckCount = op.instances.length then op.syncAllInstances else pure op

/-- `chunk.storeStateMessage(msg, this.instancesExcludingSource)`, and its task. -/
def submitState (op : ShareOperation) (msg : StateMessage) : ShareOperation :=
  let chunk := op.obtainStateChunk msg.hashkey
  let stored := { op.stateChunks chunk with msg := some msg, dsts := op.instancesExcludingSource }
  { op with toOperation := (op.setChunk chunk stored).submit (.chunk chunk) }

/-- The puts of a strict share, which compares each instance with a source that may be null. -/
def putState (op : ShareOperation) (putMsg : PutMessage) : List Effect :=
  match op.currentSource with
  | some src => (op.instances.filter (· ≠ src)).map fun inst => .send inst (.put putMsg)
  | none => if op.instances.isEmpty then [] else [.thrown .nullPointer]

/-- The handlers for the three classes; there is none for configuration. -/
def receiveState (op : ShareOperation) (msg : StateMessage) : Emit Effect ShareOperation :=
  match msg.toPut with
  | none => pure op
  | some putMsg =>
      match op.consistency with
      | .strong => pure (op.submitState msg)
      | .strict => .emit op (op.putState putMsg)

def receiveGetAck [Charset] (op : ShareOperation) (cls : StateClass) (count : Int) :
    Emit Effect ShareOperation :=
  match cls with
  | .perflow | .multiflow | .allflows =>
      checkIfInstFinished { op with counters := op.counters.recordGetAck cls count }
  | .config => pure op

/-- `putPerflowAcks++` and `chunk.incrementAcked()`. -/
def countPutAck (op : ShareOperation) (cls : StateClass) (hashkey : Int) : ShareOperation :=
  let chunk := op.obtainStateChunk hashkey
  { op with
    counters := op.counters.recordPutAck cls
    toOperation := op.setChunk chunk (op.stateChunks chunk).incrementAcked }

variable [PacketUtil] [Charset]

/-- The body of the handlers for the three classes. -/
def receivePutAckOf (op : ShareOperation) (cls : StateClass) (hashkey : Int) :
    Emit Effect ShareOperation :=
  let op := op.countPutAck cls hashkey
  let chunk := op.obtainStateChunk hashkey
  if (op.stateChunks chunk).numAckedInst + 1 = op.instances.length then do
    let acked ← (op.stateChunks chunk).receivedPutAck
    let op := { op with toOperation := op.setChunk chunk acked.1 }
    match acked.2 with
    | some e => .emit op [.thrown e]
    | none => op.checkIfInstFinished
  else pure op

def receivePutAck (op : ShareOperation) (cls : StateClass) (hashkey : Int) :
    Emit Effect ShareOperation :=
  match cls with
  | .perflow | .multiflow | .allflows => op.receivePutAckOf cls hashkey
  | .config => pure op

/-- The packet of an event, with its flag. -/
def flagged (msg : ReprocessMessage) : Except JavaException Packet :=
  match PacketUtil.setFlag (ReprocessEvent.base64Decode msg.packet) PacketUtil.flagDoNotDrop with
  | .error e => .error e
  | .ok none => .error .nullPointer
  | .ok (some pkt) => .ok pkt

/-- An event whose packet is the last one that was given back is taken for its echo. -/
def receiveReprocess (op : ShareOperation) (msg : ReprocessMessage) (source : Middlebox) :
    Emit Effect ShareOperation :=
  match flagged msg with
  | .error e => .emit op [.thrown e]
  | .ok pkt =>
      let packet := Charset.newString pkt
      if op.isSyncFinished = false then
        pure { op with originalEvents := op.originalEvents.put packet source }
      else if op.lastPacket = some pkt then
        let op := { op with originalEvents := op.originalEvents.remove packet }
        match OFMatch.loadFromPacket pkt 1 with
        | .error e => .emit op [.thrown e]
        | .ok fields => { op with key := .fromOFMatch fields }.syncFromInstance source
      else
        let op := { op with originalEvents := op.originalEvents.put packet source }
        if op.callFromReprocess then { op with callFromReprocess := false }.dequeueEvent
        else pure op

def receive (source : Middlebox) (msg : Message) (op : ShareOperation) :
    Emit Effect ShareOperation :=
  match msg with
  | .state msg => op.receiveState msg
  | .getAck cls count => op.receiveGetAck cls count
  | .putAck cls hashkey => op.receivePutAck cls hashkey
  | .eventsAck => op.receiveEventsAck
  | .reprocess msg => op.receiveReprocess msg source

instance : Handlers ShareOperation where
  base := toOperation
  setBase op b := { op with toOperation := b }
  base_setBase _ _ := rfl
  execute := execute
  receive _ source msg op := receive source msg op
  receivePacket _ _ _ op := pure op

end ShareOperation

def ShareStrongOperation.new (id : Int) (instances : List Middlebox) (key : PerflowKey)
    (scope : Scope) : ShareOperation :=
  ShareOperation.new .strong id instances key scope

def ShareStrictOperation.new (id : Int) (instances : List Middlebox) (key : PerflowKey)
    (scope : Scope) : ShareOperation :=
  ShareOperation.new .strict id instances key scope

end OFM.Controller
