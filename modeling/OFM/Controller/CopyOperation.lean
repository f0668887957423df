import OFM.Controller.Operation

/-!
# Copying state and moving configuration

`CopyOperation.java` and `MoveConfigOperation.java`. The fields and log lines that only serve the
statistics are left out.
-/

namespace OFM.Controller
open OFM.Lib

/-! ## `CopyOperation` -/

structure CopyOperation extends Operation where
  src : Middlebox
  dst : Middlebox
  key : PerflowKey
  scope : Scope
  counters : Counters

namespace CopyOperation

def new (id : Int) (src dst : Middlebox) (key : PerflowKey) (scope : Scope) : CopyOperation where
  toOperation := Operation.new id
  src := src
  dst := dst
  key := key
  scope := scope
  counters := Counters.new

def execute (op : CopyOperation) : Emit Effect Int :=
  let getPerflow := op.scope = .perflow ∨ op.scope = .pfMf ∨ op.scope = .pfAf ∨ op.scope = .pfMfAf
  let getMultiflow :=
    op.scope = .multiflow ∨ op.scope = .pfMf ∨ op.scope = .mfAf ∨ op.scope = .pfMfAf
  let getAllflows := op.scope = .allflows ∨ op.scope = .pfAf ∨ op.scope = .mfAf ∨ op.scope = .pfMfAf
  .emit (if ¬ getPerflow ∧ ¬ getMultiflow ∧ ¬ getAllflows then -1 else op.id)
    ((if getPerflow then [.send op.src (.getPerflow op.id op.key false)] else []) ++
      (if getMultiflow then [.send op.src (.getMultiflow op.id op.key)] else []) ++
      (if getAllflows then [.send op.src (.getAllflows op.id)] else []))

/-- The body of the handlers for the three classes. -/
def submitState (op : CopyOperation) (msg : StateMessage) : CopyOperation :=
  let chunk := op.obtainStateChunk msg.hashkey
  let stored := (op.stateChunks chunk).storeStateMessage msg [op.dst]
  { op with toOperation := (op.setChunk chunk stored).submit (.chunk chunk) }

/-- The handler for configuration is inherited and does nothing. -/
def receiveState (op : CopyOperation) (msg : StateMessage) : Emit Effect CopyOperation :=
  match msg with
  | .perflow .. | .multiflow .. | .allflows .. => pure (op.submitState msg)
  | .config .. => pure op

def completed (op : CopyOperation) : Bool :=
  let k := op.counters
  match op.scope with
  | .perflow => k.getAcked .perflow && k.acksMatch .perflow
  | .multiflow => k.getAcked .multiflow && k.acksMatch .multiflow
  | .allflows => k.getAcked .allflows && k.acksMatch .allflows
  | .pfMf => k.getAcked .perflow && k.getAcked .multiflow && k.acksMatch .perflow
      && k.acksMatch .multiflow
  | .pfAf => k.getAcked .perflow && k.getAcked .allflows && k.acksMatch .perflow
      && k.acksMatch .allflows
  | .mfAf => k.getAcked .multiflow && k.getAcked .allflows && k.acksMatch .multiflow
      && k.acksMatch .allflows
  | .pfMfAf => k.getAcked .perflow && k.getAcked .multiflow && k.getAcked .allflows
      && k.acksMatch .perflow && k.acksMatch .multiflow && k.acksMatch .allflows

def checkIfFinished (op : CopyOperation) : Emit Effect CopyOperation :=
  if op.completed then .emit { op with toOperation := op.finish.val } op.finish.out
  else pure op

def receiveGetAck (op : CopyOperation) (cls : StateClass) (count : Int) :
    Emit Effect CopyOperation :=
  match cls with
  | .perflow | .multiflow | .allflows =>
      checkIfFinished { op with counters := op.counters.recordGetAck cls count }
  | .config => pure op

variable [PacketUtil]

def receivePutAck (op : CopyOperation) (cls : StateClass) (hashkey : Int) :
    Emit Effect CopyOperation :=
  match cls with
  | .perflow | .multiflow | .allflows => do
      let chunk := op.obtainStateChunk hashkey
      let acked ← (op.stateChunks chunk).receivedPutAck
      let op := { op with
        counters := op.counters.recordPutAck cls
        toOperation := op.setChunk chunk acked.1 }
      match acked.2 with
      | some e => .emit op [.thrown e]
      | none => op.checkIfFinished
  | .config => pure op

/-- An event is only logged; the assertion that follows is off by default. -/
def receive (msg : Message) (op : CopyOperation) : Emit Effect CopyOperation :=
  match msg with
  | .state msg => op.receiveState msg
  | .getAck cls count => op.receiveGetAck cls count
  | .putAck cls hashkey => op.receivePutAck cls hashkey
  | .eventsAck => pure op
  | .reprocess _ => pure op

instance : Handlers CopyOperation where
  base := toOperation
  setBase op b := { op with toOperation := b }
  base_setBase _ _ := rfl
  execute := execute
  receive _ _ msg op := receive msg op
  receivePacket _ _ _ op := pure op

end CopyOperation

/-! ## `MoveConfigOperation` -/

structure MoveConfigOperation extends Operation where
  src : Middlebox
  dst : Middlebox
  key : PerflowKey
  counters : Counters

namespace MoveConfigOperation

/-- `getAcked`, `getCount` and `putAcks` are the counters of the one class. -/
def new (id : Int) (src dst : Middlebox) (key : PerflowKey) : MoveConfigOperation where
  toOperation := Operation.new id
  src := src
  dst := dst
  key := key
  counters := Counters.new

def execute (op : MoveConfigOperation) : Emit Effect Int :=
  .emit op.id [.send op.src (.getConfig op.id op.key)]

/-- The message is put at once; its chunk is only obtained. -/
def receiveStateConfig (op : MoveConfigOperation) (msg : StateMessage) :
    Emit Effect MoveConfigOperation :=
  match msg with
  | .config id seq key hashkey state =>
      .emit op [.send op.dst (.put (.config id seq key hashkey state))]
  | _ => pure op

def checkIfFinished (op : MoveConfigOperation) : Emit Effect MoveConfigOperation :=
  if op.counters.getAcked .config && op.counters.acksMatch .config then
    .emit { op with toOperation := op.finish.val } op.finish.out
  else pure op

variable [PacketUtil]

def receivePutConfigAck (op : MoveConfigOperation) (hashkey : Int) :
    Emit Effect MoveConfigOperation := do
  let chunk := op.obtainStateChunk hashkey
  let acked ← (op.stateChunks chunk).receivedPutAck
  let op := { op with
    counters := op.counters.recordPutAck .config
    toOperation := op.setChunk chunk acked.1 }
  match acked.2 with
  | some e => .emit op [.thrown e]
  | none => op.checkIfFinished

def receive (msg : Message) (op : MoveConfigOperation) : Emit Effect MoveConfigOperation :=
  match msg with
  | .state msg => op.receiveStateConfig msg
  | .getAck .config count =>
      checkIfFinished { op with counters := op.counters.recordGetAck .config count }
  | .putAck .config hashkey => op.receivePutConfigAck hashkey
  | _ => pure op

instance : Handlers MoveConfigOperation where
  base := toOperation
  setBase op b := { op with toOperation := b }
  base_setBase _ _ := rfl
  execute := execute
  receive _ _ msg op := receive msg op
  receivePacket _ _ _ op := pure op

end MoveConfigOperation

end OFM.Controller
