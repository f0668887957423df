import OFM.Controller.Message

/-!
# The two channels of a network function

What a line from a network function says as a JSON object, the object with all fields that Gson makes of it, and
the message of the class that its type names: `AllFieldsMessage.java`. What becomes of the line: `processMessage`
of `StateChannel.java` and of `EventChannel.java`. The handler of the channel catches a `MessageException` and
logs it.
-/

namespace OFM.Controller

/-! ## Lines -/

/-- The constants of `Message.java`, which those of `SDMBNJson.h` repeat. -/
inductive MessageType
  | getPerflow | putPerflow | getMultiflow | putMultiflow | getAllflows | putAllflows | getConfig
  | putConfig | deleteMultiflow | deletePerflow | enableEvents | disableEvents
  | getPerflowAck | putPerflowAck | getMultiflowAck | putMultiflowAck | getAllflowsAck | putAllflowsAck
  | getConfigAck | putConfigAck | eventsAck | syn | error | statePerflow | stateMultiflow
  | stateAllflows | stateConfig | deletePerflowAck | deleteMultiflowAck | reprocess
  | unknown (type : JavaString)
  deriving DecidableEq, Repr

/-- The members a network function writes, as far as a line has them. -/
structure JsonObject where
  type : MessageType
  id : Option Int
  count : Option Int
  key : Option PerflowKey
  host : Option JavaString
  pid : Option Int
  hashkey : Option Int
  cause : Option JavaString
  state : Option JavaString
  seq : Option Int
  header : Option JavaString
  packet : Option JavaString

/-- `json_object_new_object`, with its type. -/
def JsonObject.new (type : MessageType) : JsonObject :=
  ⟨type, none, none, none, none, none, none, none, none, none, none, none⟩

/-- A number is 0 and an object null when the line lacks it. -/
structure AllFieldsMessage where
  type : MessageType
  id : Int
  count : Int
  key : Option PerflowKey
  host : Option JavaString
  pid : Int
  hashkey : Int
  cause : Option JavaString
  state : Option JavaString
  seq : Int
  header : Option JavaString
  packet : Option JavaString

/-- `gson.fromJson` -/
def AllFieldsMessage.fromJson (line : JsonObject) : AllFieldsMessage where
  type := line.type
  id := line.id.getD 0
  count := line.count.getD 0
  key := line.key
  host := line.host
  pid := line.pid.getD 0
  hashkey := line.hashkey.getD 0
  cause := line.cause
  state := line.state
  seq := line.seq.getD 0
  header := line.header
  packet := line.packet

/-- The messages a line can be cast to. A text that the line lacks is null in them. -/
inductive CastMessage
  | syn (host : Option JavaString) (pid : Int)
  | statePerflow (id seq : Int) (key : Option PerflowKey) (hashkey : Int) (state : Option JavaString)
  | stateMultiflow (id seq : Int) (key : Option PerflowKey) (hashkey : Int) (state : Option JavaString)
  | stateAllflows (id hashkey : Int) (state : Option JavaString)
  | stateConfig (id seq : Int) (key : Option PerflowKey) (hashkey : Int) (state : Option JavaString)
  | getAck (cls : StateClass) (count : Int)
  | putAck (cls : StateClass) (hashkey : Int)
  | deletePerflowAck (count : Int)
  | deleteMultiflowAck (count : Int)
  | eventsAck
  | reprocess (hashkey : Int) (header packet : Option JavaString)
  | error (hashkey : Int) (cause : Option JavaString)
  /-- What only the controller sends. -/
  | command (type : MessageType)
  deriving DecidableEq, Repr

/-- `cast`; nothing for a type that is not known. -/
def AllFieldsMessage.cast (msg : AllFieldsMessage) : Option CastMessage :=
  match msg.type with
  | .reprocess => some (.reprocess msg.hashkey msg.header msg.packet)
  | .deleteMultiflowAck => some (.deleteMultiflowAck msg.count)
  | .deletePerflowAck => some (.deletePerflowAck msg.count)
  | .error => some (.error msg.hashkey msg.cause)
  | .eventsAck => some .eventsAck
  | .getAllflowsAck => some (.getAck .allflows msg.count)
  | .getConfigAck => some (.getAck .config msg.count)
  | .getMultiflowAck => some (.getAck .multiflow msg.count)
  | .getPerflowAck => some (.getAck .perflow msg.count)
  | .putAllflowsAck => some (.putAck .allflows msg.hashkey)
  | .putConfigAck => some (.putAck .config msg.hashkey)
  | .putMultiflowAck => some (.putAck .multiflow msg.hashkey)
  | .putPerflowAck => some (.putAck .perflow msg.hashkey)
  | .stateAllflows => some (.stateAllflows msg.id msg.hashkey msg.state)
  | .stateConfig => some (.stateConfig msg.id msg.seq msg.key msg.hashkey msg.state)
  | .stateMultiflow => some (.stateMultiflow msg.id msg.seq msg.key msg.hashkey msg.state)
  | .statePerflow => some (.statePerflow msg.id msg.seq msg.key msg.hashkey msg.state)
  | .syn => some (.syn msg.host msg.pid)
  | .unknown _ => none
  | type => some (.command type)

/-! ## The channels -/

inductive MessageException
  | unknownOperation (id : Int)
  | unexpectedType (type : MessageType)
  deriving DecidableEq, Repr

/-- What comes of a line. -/
inductive Outcome
  /-- A handler of the operation is called. -/
  | handler (msg : Message)
  /-- The handler for the acks of deletions, which no operation overrides. -/
  | ignored
  /-- A handler is called with a null text, which the library writes into no line. -/
  | nullText
  | connected (host : Option JavaString) (pid : Int)
  /-- The operation has failed. -/
  | discarded
  | logged
  | messageException (e : MessageException)
  /-- The message names no operation, and the reference is null. -/
  | nullPointer
  deriving DecidableEq, Repr

/-- A call of a handler of the operation that has been looked up, if one has. -/
def callHandler (found : Bool) (outcome : Outcome) : Outcome :=
  if found then outcome else .nullPointer

/-- A message with a text. -/
def withText (text : Option JavaString) (msg : JavaString → Message) : Outcome :=
  text.elim .nullText fun text => .handler (msg text)

/-- What both channels do first; `lookupOperation` yields whether the operation has failed. -/
def lookedUp (lookupOperation : Int → Option Bool) (id : Int) (process : Bool → Outcome) : Outcome :=
  if 0 < id then
    match lookupOperation id with
    | none => .messageException (.unknownOperation id)
    | some true => .discarded
    | some false => process true
  else process false

/-- A line that cannot be parsed or cast is logged. -/
def parsed (line : Option JsonObject) (process : AllFieldsMessage → CastMessage → Outcome) : Outcome :=
  match line with
  | none => .logged
  | some line =>
      match (AllFieldsMessage.fromJson line).cast with
      | none => .logged
      | some msg => process (.fromJson line) msg

/-- The handler for the class of a message. -/
def StateChannel.dispatch (type : MessageType) (op : Bool) : CastMessage → Outcome
  | .syn host pid => .connected host pid
  | .statePerflow id seq key hashkey state =>
      callHandler op (withText state fun state => .state (.perflow id seq key hashkey state))
  | .stateMultiflow id seq key hashkey state =>
      callHandler op (withText state fun state => .state (.multiflow id seq key hashkey state))
  | .stateConfig id seq key hashkey state =>
      callHandler op (withText state fun state => .state (.config id seq key hashkey state))
  | .getAck cls count => callHandler op (.handler (.getAck cls count))
  | .deletePerflowAck _ => callHandler op .ignored
  | .deleteMultiflowAck _ => callHandler op .ignored
  | .eventsAck => callHandler op (.handler .eventsAck)
  | .error _ _ => .logged
  | _ => .messageException (.unexpectedType type)

def StateChannel.processMessage (lookupOperation : Int → Option Bool) (line : Option JsonObject) : Outcome :=
  parsed line fun fields msg => lookedUp lookupOperation fields.id fun op =>
    StateChannel.dispatch fields.type op msg

def EventChannel.dispatch (type : MessageType) (op : Bool) : CastMessage → Outcome
  | .syn host pid => .connected host pid
  | .reprocess hashkey header packet =>
      callHandler op (header.elim .nullText fun header =>
        withText packet fun packet => .reprocess ⟨hashkey, header, packet⟩)
  | .putAck cls hashkey => callHandler op (.handler (.putAck cls hashkey))
  | _ => .messageException (.unexpectedType type)

def EventChannel.processMessage (lookupOperation : Int → Option Bool) (line : Option JsonObject) : Outcome :=
  parsed line fun fields msg => lookedUp lookupOperation fields.id fun op =>
    EventChannel.dispatch fields.type op msg

/-! ## Lines for an operation that has been found -/

variable {lookupOperation : Int → Option Bool} {id : Int}

theorem lookedUp_eq (hid : 0 < id) (hop : lookupOperation id = some false) (process : Bool → Outcome) :
    lookedUp lookupOperation id process = process true := by
  rw [lookedUp, if_pos hid, hop]

theorem parsed_eq (line : JsonObject) (hline : line.id = some id)
    (dispatch : MessageType → Bool → CastMessage → Outcome) :
    (parsed (some line) fun fields msg => lookedUp lookupOperation fields.id fun op =>
      dispatch fields.type op msg) =
    (AllFieldsMessage.fromJson line).cast.elim .logged fun msg =>
      lookedUp lookupOperation id fun op => dispatch line.type op msg := by
  have hid : (AllFieldsMessage.fromJson line).id = id := by
    rw [AllFieldsMessage.fromJson, hline]
    rfl
  rw [parsed, hid]
  cases (AllFieldsMessage.fromJson line).cast <;> rfl

theorem StateChannel.processMessage_eq (line : JsonObject) (hline : line.id = some id) (hid : 0 < id)
    (hop : lookupOperation id = some false) : processMessage lookupOperation (some line) =
      (AllFieldsMessage.fromJson line).cast.elim .logged (dispatch line.type true) := by
  rw [processMessage, parsed_eq line hline]
  exact congrArg _ (funext fun msg => lookedUp_eq hid hop _)

theorem EventChannel.processMessage_eq (line : JsonObject) (hline : line.id = some id) (hid : 0 < id)
    (hop : lookupOperation id = some false) : processMessage lookupOperation (some line) =
      (AllFieldsMessage.fromJson line).cast.elim .logged (dispatch line.type true) := by
  rw [processMessage, parsed_eq line hline]
  exact congrArg _ (funext fun msg => lookedUp_eq hid hop _)

end OFM.Controller
