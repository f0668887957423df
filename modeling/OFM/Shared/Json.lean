import OFM.Controller.Channel

/-!
# Lines that the library composes

`SDMBNJson.c`. The members of a key are left as the controller reads them.
-/

namespace OFM.Shared
open OFM.Controller (JsonObject MessageType JavaString StateClass)

/-- The body of the two functions that compose a chunk with a key; nothing is sent for a null pointer. -/
def composeKeyedState (type : MessageType) (id : Int) (key : Option Controller.PerflowKey)
    (state : Option JavaString) (hashkey seq : Int) : Option JsonObject :=
  match key, state with
  | some key, some state => some { JsonObject.new type with
      id := some id
      key := some key
      hashkey := some hashkey
      state := some state
      seq := some seq }
  | _, _ => none

/-- The body of the two functions that compose a chunk without a key. -/
def composeState (type : MessageType) (id : Int) (state : Option JavaString) (seq : Int) :
    Option JsonObject :=
  match state with
  | some state => some { JsonObject.new type with
      id := some id
      state := some state
      seq := some seq }
  | none => none

def jsonComposePerflowState (id : Int) (key : Option Controller.PerflowKey) (state : Option JavaString)
    (hashkey seq : Int) : Option JsonObject :=
  composeKeyedState .statePerflow id key state hashkey seq

def jsonComposeMultiflowState (id : Int) (key : Option Controller.PerflowKey)
    (state : Option JavaString) (hashkey seq : Int) : Option JsonObject :=
  composeKeyedState .stateMultiflow id key state hashkey seq

/-- The controller reads a hashkey, which is not written. -/
def jsonComposeAllflowsState (id : Int) (state : Option JavaString) (seq : Int) : Option JsonObject :=
  composeState .stateAllflows id state seq

def jsonComposeConfigState (id : Int) (state : Option JavaString) (seq : Int) : Option JsonObject :=
  composeState .stateConfig id state seq

/-- `json_compose_get_perflow_ack` and its like. -/
def jsonComposeGetAck (cls : StateClass) (id count : Int) : JsonObject :=
  { JsonObject.new (match cls with
      | .perflow => .getPerflowAck
      | .multiflow => .getMultiflowAck
      | .allflows => .getAllflowsAck
      | .config => .getConfigAck) with
    id := some id
    count := some count }

/-- `json_compose_put_perflow_ack` and its like. -/
def jsonComposePutAck (cls : StateClass) (id hashkey : Int) : JsonObject :=
  { JsonObject.new (match cls with
      | .perflow => .putPerflowAck
      | .multiflow => .putMultiflowAck
      | .allflows => .putAllflowsAck
      | .config => .putConfigAck) with
    id := some id
    hashkey := some hashkey }

def jsonComposeEventsAck (id : Int) : JsonObject :=
  { JsonObject.new .eventsAck with id := some id }

def jsonComposeError (id hashkey : Int) (reason : JavaString) : JsonObject :=
  { JsonObject.new .error with
    id := some id
    hashkey := some hashkey
    cause := some reason }

/-- The header and the packet are given as `json_compose_base64_field` encodes them. -/
def jsonComposeReprocessEvent (id hashkey : Int) (header packet : JavaString) : JsonObject :=
  { JsonObject.new .reprocess with
    id := some id
    hashkey := some hashkey
    header := some header
    packet := some packet }

end OFM.Shared
