import OFM.Controller.Network
import OFM.Shared.Json

/-!
# Operations behind their channels

The way of a message from the library of a network function to a handler: it is composed as a line, and
the channel that the line comes over parses it, looks the operation up and calls the handler.
-/

namespace OFM.Controller
open OFM.Lib OFM.Shared

/-- The line in which the library sends a message for the operation with the id. The number of an
all-flows chunk is written, but not read. -/
def lineOf (id : Int) : Message → Option JsonObject
  | .state (.perflow _ seq key hashkey state) => jsonComposePerflowState id key (some state) hashkey seq
  | .state (.multiflow _ seq key hashkey state) => jsonComposeMultiflowState id key (some state) hashkey seq
  | .state (.allflows _ _ state) => jsonComposeAllflowsState id (some state) 0
  | .state (.config _ seq _ _ state) => jsonComposeConfigState id (some state) seq
  | .getAck cls count => some (jsonComposeGetAck cls id count)
  | .putAck cls hashkey => some (jsonComposePutAck cls id hashkey)
  | .eventsAck => some (jsonComposeEventsAck id)
  | .reprocess msg => some (jsonComposeReprocessEvent id msg.hashkey msg.header msg.packet)

/-- `lookupOperation`, while the operation is the only one there is. -/
def Operation.lookup (op : Operation) (id : Int) : Option Bool :=
  if id = op.id then some op.failed else none

theorem Operation.lookup_self (op : Operation) : op.lookup op.id = some op.failed := if_pos rfl

/-- What the channel of a message makes of its line. -/
def outcomeOf (op : Operation) (msg : Message) : Outcome :=
  if msg.onEventChannel then EventChannel.processMessage op.lookup (lineOf op.id msg)
  else StateChannel.processMessage op.lookup (lineOf op.id msg)

/-- An operation whose messages come as lines. -/
def Channelled (σ : Type) : Type := σ

instance (σ : Type) [Handlers σ] : Handlers (Channelled σ) where
  base := Handlers.base (σ := σ)
  setBase := Handlers.setBase (σ := σ)
  base_setBase := Handlers.base_setBase (σ := σ)
  execute := Handlers.execute (σ := σ)
  receive sched source msg op :=
    match outcomeOf (Handlers.base (σ := σ) op) msg with
    | .handler msg => Handlers.receive (σ := σ) sched source msg op
    | _ => .emit op []
  receivePacket := Handlers.receivePacket (σ := σ)

/-- The messages that come out of their line as they went in. -/
def Message.Preserved (id : Int) : Message → Prop
  | .state (.perflow id' _ key _ _) | .state (.multiflow id' _ key _ _) => id' = id ∧ key ≠ none
  | .state (.allflows ..) => False
  | .state (.config id' _ key hashkey _) => id' = id ∧ key = none ∧ hashkey = 0
  | _ => True

section

variable {op : Operation} (hid : 0 < op.id) (hf : op.failed = false)
include hid hf

theorem outcomeOf_state {msg : Message} {line : JsonObject} (hmsg : msg.onEventChannel = false)
    (hline : lineOf op.id msg = some line) (hlineId : line.id = some op.id) : outcomeOf op msg =
      (AllFieldsMessage.fromJson line).cast.elim .logged (StateChannel.dispatch line.type true) := by
  rw [outcomeOf, hmsg, hline]
  exact StateChannel.processMessage_eq line hlineId hid (op.lookup_self.trans (congrArg some hf))

theorem outcomeOf_event {msg : Message} {line : JsonObject} (hmsg : msg.onEventChannel = true)
    (hline : lineOf op.id msg = some line) (hlineId : line.id = some op.id) : outcomeOf op msg =
      (AllFieldsMessage.fromJson line).cast.elim .logged (EventChannel.dispatch line.type true) := by
  rw [outcomeOf, hmsg, hline]
  exact EventChannel.processMessage_eq line hlineId hid (op.lookup_self.trans (congrArg some hf))

/-- Each message is handed to the handler for its class, but for all-flows chunks. -/
theorem outcomeOf_eq (msg : Message) (hmsg : msg.Preserved op.id) :
    outcomeOf op msg = .handler msg := by
  cases msg with
  | state msg =>
      cases msg with
      | perflow id seq key hashkey state =>
          obtain ⟨rfl, hkey⟩ := hmsg
          obtain ⟨key, rfl⟩ := Option.ne_none_iff_exists'.mp hkey
          exact (outcomeOf_state hid hf rfl rfl rfl).trans rfl
      | multiflow id seq key hashkey state =>
          obtain ⟨rfl, hkey⟩ := hmsg
          obtain ⟨key, rfl⟩ := Option.ne_none_iff_exists'.mp hkey
          exact (outcomeOf_state hid hf rfl rfl rfl).trans rfl
      | allflows => exact hmsg.elim
      | config id seq key hashkey state =>
          obtain ⟨rfl, rfl, rfl⟩ := hmsg
          exact (outcomeOf_state hid hf rfl rfl rfl).trans rfl
  | getAck cls count => cases cls <;> exact (outcomeOf_state hid hf rfl rfl rfl).trans rfl
  | putAck cls hashkey => cases cls <;> exact (outcomeOf_event hid hf rfl rfl rfl).trans rfl
  | eventsAck => exact (outcomeOf_state hid hf rfl rfl rfl).trans rfl
  | reprocess msg => exact (outcomeOf_event hid hf rfl rfl rfl).trans rfl

/-- The state channel casts an all-flows chunk, but has no branch for it. -/
theorem outcomeOf_allflows (id hashkey : Int) (state : JavaString) :
    outcomeOf op (.state (.allflows id hashkey state)) =
      .messageException (.unexpectedType .stateAllflows) :=
  (outcomeOf_state hid hf rfl rfl rfl).trans rfl

end

end OFM.Controller
