import OFM.Lib.Machine
import OFM.Shared.PerflowCalls
import OFM.Shared.Theorems.Filters

/-!
# Commands about events

`handle_enable_events` and `handle_disable_events` of `event.c`, and which filters there should be after
commands.
-/

namespace OFM.Shared
open OFM.Lib
open OFM.Controller (EventAction JavaString JsonObject utf16)

/-- The members of the two commands. -/
inductive EventsCommand where
  | enable (id : BitVec 32) (key : Option Controller.PerflowKey) (action : Option JavaString)
  | disable (id : BitVec 32) (key : Option Controller.PerflowKey)

/-- The action of a new filter: it is not set for a text that is none of the three. -/
def eventAction (uninit : EventAction) (action : JavaString) : EventAction :=
  if action = utf16 "drop".toList then .drop
  else if action = utf16 "buffer".toList then .buffer
  else if action = utf16 "process".toList then .process
  else uninit

section Handle

variable (uninit : EventAction)

/-- `handle_enable_events`: the filters and the answer. -/
def handleEnableEvents (filters : List EventFilter) (id : BitVec 32) (key : Option Controller.PerflowKey)
    (action : Option JavaString) : List EventFilter × JsonObject :=
  match key with
  | none => (filters, jsonComposeError id.toInt (-1) errorMalformed)
  | some keyField =>
      match action with
      | none => (filters, jsonComposeError id.toInt (-1) errorMalformed)
      | some action =>
          (eventsAddFilter filters (jsonParsePerflowKey keyField) (eventAction uninit action) id,
            jsonComposeEventsAck id.toInt)

/-- `handle_disable_events`; what is released of the buffer is left out. -/
def handleDisableEvents (filters : List EventFilter) (id : BitVec 32) (key : Option Controller.PerflowKey) :
    List EventFilter × JsonObject :=
  match key with
  | none => (filters, jsonComposeError id.toInt (-1) errorMalformed)
  | some keyField =>
      ((eventsRemoveFilter filters (jsonParsePerflowKey keyField)).1, jsonComposeEventsAck id.toInt)

def handleEvents (filters : List EventFilter) : EventsCommand → List EventFilter × JsonObject
  | .enable id key action => handleEnableEvents uninit filters id key action
  | .disable id key => handleDisableEvents filters id key

end Handle

/-! ## Filters and the commands they come from -/

/-- A filter in memory of its own, which the number stands for, and the command that has enabled it. -/
structure Enabled where
  number : Nat
  msg : EnableEvents

/-- The filters in the list, and those that have been enabled and not been disabled since; the newest first. -/
structure FilterHistory where
  next : Nat
  filters : List Enabled
  due : List Enabled

namespace FilterHistory

/-- The filter has the key of a command, as it has been parsed. -/
def hasKey (key : Controller.PerflowKey) (x : Enabled) : Bool := x.msg.filter.key = jsonParsePerflowKey key

/-- The filter has been enabled under the id and the key of a command. -/
def owned (id : BitVec 32) (key : Controller.PerflowKey) (x : Enabled) : Bool := x.msg.id = id ∧ x.msg.key = key

def step (uninit : EventAction) (h : FilterHistory) : EventsCommand → Option FilterHistory
  | .enable id (some key) (some action) =>
      let new := ⟨h.next, ⟨id, key, eventAction uninit action⟩⟩
      some ⟨h.next + 1, new :: h.filters, new :: h.due⟩
  | .disable id (some key) => some { h with
      filters := h.filters.eraseP (hasKey key)
      due := h.due.filter fun x => !owned id key x }
  | _ => some h

/-- What the list has in memory. -/
def list (h : FilterHistory) : List EventFilter := h.filters.map fun x => x.msg.filter

/-- The list of the code goes through the commands as the handlers do. -/
theorem list_step {uninit : EventAction} {h h' : FilterHistory} {cmd : EventsCommand}
    (hs : h.step uninit cmd = some h') : h'.list = (handleEvents uninit h.list cmd).1 := by
  cases cmd with
  | enable id key action =>
      cases key with
      | none => cases hs; rfl
      | some key =>
          cases action with
          | none => cases hs; rfl
          | some action => cases hs; rfl
  | disable id key =>
      cases key with
      | none => cases hs; rfl
      | some key =>
          cases hs
          simp only [list, handleEvents, handleDisableEvents, eventsRemoveFilter, List.eraseP_map]
          rfl

/-- Exactly the filters that should be there are there. -/
def Exact (h : FilterHistory) : Prop := h.filters = h.due

/-- The filter that a command removes is the one filter that has been enabled under its id and its key, if
there is either of them. -/
def RemovesOwn (h : FilterHistory) : EventsCommand → Prop
  | .disable id (some key) => h.filters.filter (owned id key) = (h.filters.find? (hasKey key)).toList
  | _ => True

end FilterHistory

end OFM.Shared
