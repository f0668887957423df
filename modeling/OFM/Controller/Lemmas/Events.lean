import Mathlib.Data.List.Flatten
import OFM.Controller.Operation

/-!
# Releasing events

What calling one event does, and what polling a queue of them does until one throws.
-/

namespace OFM.Controller
open OFM.Lib

variable [PacketUtil]

namespace ReprocessEvent

/-- A call of the event throws nothing: its packet is a frame that can be flagged, and the switch of
its destination is known. -/
def Releases (event : ReprocessEvent) : Prop := ∃ out, event.call = .ok out

theorem sent_of_call {event : ReprocessEvent} {out} (h : event.call = .ok out) :
    event.sent = out := by
  simp [sent, h]

/-- An event that goes through the switch is one packet-out. -/
theorem call_viaSwitch {event : ReprocessEvent} {out} (hd : event.sendDirect = false)
    (h : event.call = .ok out) : ∃ sw packet, out = [.eventOut event sw packet] := by
  simp only [call, hd, sendViaSwitch, Bool.false_eq_true, ↓reduceIte] at h
  split at h
  · cases h
  · split at h
    · cases h; exact ⟨_, _, rfl⟩
    · cases h

theorem eventOut_of_mem_sent {event : ReprocessEvent} {e} (h : e ∈ event.sent) :
    ∃ sw packet, e = .eventOut event sw packet := by
  unfold sent at h
  split at h
  · rename_i out hc
    cases hd : event.sendDirect with
    | false =>
        obtain ⟨sw, packet, rfl⟩ := call_viaSwitch hd hc
        exact ⟨sw, packet, by simpa using h⟩
    | true =>
        simp only [call, hd, sendDirectly, ↓reduceIte] at hc
        split at hc
        · cases hc
        · cases hc; cases h
  · cases h

theorem releases_iff {event : ReprocessEvent} (hd : event.sendDirect = false) :
    event.Releases ↔
      (∃ packet, PacketUtil.setFlag (base64Decode event.packet) PacketUtil.flagDoNotBuffer =
        .ok (some packet)) ∧ event.dst.sw ≠ none := by
  unfold Releases
  simp only [call, hd, sendViaSwitch, Bool.false_eq_true, ↓reduceIte]
  cases PacketUtil.setFlag (base64Decode event.packet) PacketUtil.flagDoNotBuffer with
  | error e => simp
  | ok p => cases p <;> cases event.dst.sw <;> simp

end ReprocessEvent

/-- Every effect of a list of released events is the packet-out of one of them. -/
theorem eventOut_of_mem_flatMap_sent {events : List ReprocessEvent} {e}
    (h : e ∈ events.flatMap ReprocessEvent.sent) :
    ∃ event ∈ events, ∃ sw packet, e = .eventOut event sw packet := by
  obtain ⟨event, hm, he⟩ := List.mem_flatMap.mp h
  exact ⟨event, hm, ReprocessEvent.eventOut_of_mem_sent he⟩

/-- Polling a queue either releases all of it, or stops behind the first event that throws. -/
theorem StateChunk.processAll_cases (events : List ReprocessEvent) :
    (StateChunk.processAll events = ⟨([], none), events.flatMap ReprocessEvent.sent⟩ ∧
      ∀ event ∈ events, event.Releases) ∨
    ∃ pre event rest e, events = pre ++ event :: rest ∧ ¬ event.Releases ∧
      StateChunk.processAll events = ⟨(rest, some e), pre.flatMap ReprocessEvent.sent⟩ := by
  induction events with
  | nil => exact Or.inl ⟨rfl, by simp⟩
  | cons event events ih =>
      cases hc : event.call with
      | error e =>
          refine Or.inr ⟨[], event, events, e, rfl, ?_, ?_⟩
          · rintro ⟨out, h⟩; rw [hc] at h; cases h
          · simp only [StateChunk.processAll, hc]; rfl
      | ok out =>
          have hp : StateChunk.processAll (event :: events) =
              ⟨(StateChunk.processAll events).val,
                event.sent ++ (StateChunk.processAll events).out⟩ := by
            rw [ReprocessEvent.sent_of_call hc]
            simp only [StateChunk.processAll, hc]; rfl
          rcases ih with ⟨he, hr⟩ | ⟨pre, event', rest, e, rfl, hn, he⟩
          · refine Or.inl ⟨by rw [hp, he]; rfl, ?_⟩
            intro event' hm
            rcases List.mem_cons.mp hm with rfl | hm
            · exact ⟨out, hc⟩
            · exact hr event' hm
          · exact Or.inr ⟨event :: pre, event', rest, e, rfl, hn, by rw [hp, he]; rfl⟩

omit [PacketUtil] in
theorem StateChunk.put_of_mem_call {chunk : StateChunk} {e : Effect} (h : e ∈ chunk.call.out) :
    ∃ mb putMsg, e = .send mb (.put putMsg) := by
  unfold StateChunk.call at h
  split at h
  · split at h
    · obtain ⟨mb, -, rfl⟩ := List.mem_map.mp h
      exact ⟨mb, _, rfl⟩
    · cases h
  · cases h

/-- A task of the pool puts its chunk or releases its event. -/
theorem Operation.mem_call {task : Task} {b : Operation} {e : Effect} (h : e ∈ b.call task) :
    (∃ mb putMsg, e = .send mb (.put putMsg)) ∨ ∃ event sw packet, e = .eventOut event sw packet := by
  cases task with
  | chunk ref => exact Or.inl (StateChunk.put_of_mem_call h)
  | event event => exact Or.inr ⟨event, ReprocessEvent.eventOut_of_mem_sent h⟩

end OFM.Controller
