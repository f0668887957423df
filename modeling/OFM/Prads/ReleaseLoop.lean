import OFM.Lib.Rotation
import OFM.Prads.Instance
import OFM.Shared.Release

/-!
# The release of packets to PRADS

`events_remove_filter` where `process_packet` is `local_process_packet`, so that each packet comes to the
filters again on its way through `got_packet`.
-/

namespace OFM.Prads
open OFM.Lib OFM.Shared
open OFM.Controller (EventAction)

/-- A packet with its place in the order of arrival. -/
abbrev BufferedPkt := List (BitVec 8) × Nat

/-- What `got_packet` finds on the stack each time it is called. -/
abbrev Stack := Nat → Undefined × ProcessContext

/-! ## The loop -/

section Loop

variable [Macros] [PacketPath]

/-- `local_process_packet` -/
def localProcessPacket (held : Undefined × ProcessContext) (inst : Instance) (packet : List (BitVec 8)) :
    Instance :=
  (gotPacket held.1 held.2 inst packet).1

/-- `got_packet` does not return after `sdmbn_preprocess_packet`. -/
def Processes (held : Undefined × ProcessContext) (filters : List EventFilter) (packet : List (BitVec 8)) :
    Prop :=
  (sdmbnPreprocessPacket held.1 filters (inMemory packet) held.2).2.1.stop = 0

instance (held : Undefined × ProcessContext) (filters : List EventFilter) (packet : List (BitVec 8)) :
    Decidable (Processes held filters packet) :=
  inferInstanceAs (Decidable (_ = _))

/-- What an iteration does: the packet at the head is processed, and its entry is taken out. -/
def release (held : Undefined × ProcessContext) (i : Nat) (inst : Instance) (packet : List (BitVec 8)) :
    Instance :=
  let inst := localProcessPacket held inst packet
  { inst with filters := dequeue inst.filters i }

/-- The loop of `events_remove_filter` over the buffer of the filter at a place, with the entries of the
buffer: what the instance has become, and the packets that it has processed. -/
def releaseLoop (stack : Stack) (i : Nat) :
    Nat → Nat → Instance → List BufferedPkt → Option (Instance × List BufferedPkt)
  | 0, _, _, _ => none
  | fuel + 1, k, inst, entries =>
      if bufferAt inst.filters i = [] then some (inst, [])
      else match entries with
        | [] => none
        | entry :: rest =>
            let processed := Processes (stack k) inst.filters entry.1
            let kept := keeper (stack k).1 inst.filters (inMemory entry.1) (stack k).2 = some i
            let inst := release (stack k) i inst entry.1
            -- The new entry is behind the one that is taken out.
            let entries := if kept then rest ++ [entry] else rest
            (releaseLoop stack i fuel (k + 1) inst entries).map fun (inst, out) =>
              (inst, if processed then entry :: out else out)

/-- `events_remove_filter`, with the packets that the filter has in its buffer. -/
def eventsRemoveFilter (stack : Stack) (fuel : Nat) (inst : Instance) (key : PerflowKey)
    (packets : List (List (BitVec 8))) : Option (Instance × List BufferedPkt) :=
  match inst.filters.findIdx? fun filter => filter.key = key with
  | none => some (inst, [])
  | some i => (releaseLoop stack i fuel 0 inst packets.zipIdx).map fun (inst, out) =>
      ({ inst with filters := inst.filters.eraseIdx i }, out)

/-- The function returns, and the packets have been processed, each once and in the order of arrival. -/
def Released (stack : Stack) (inst : Instance) (key : PerflowKey) (packets : List (List (BitVec 8))) : Prop :=
  ∃ fuel inst', eventsRemoveFilter stack fuel inst key packets = some (inst', packets.zipIdx)

end Loop

/-! ## What becomes of a packet -/

/-- The outcome for a packet of the filter at a place, by the filter that it matches now. -/
def fate (stack : Stack) (filters : List EventFilter) (i k : Nat) (entry : BufferedPkt) : Rotation.Fate :=
  let (u, context) := stack k
  let pkt := inMemory entry.1
  match (matchesFilter u filters pkt).map EventFilter.action with
  | none => .through
  | some action =>
      if passes action pkt then .through
      else match action with
        | .buffer =>
            if context.injected ≠ 0 then .through
            else if matchIdx u filters pkt = some i then .again
            else .lost
        | _ => .lost

section Fates

variable {stack : Stack} {filters : List EventFilter} {i k : Nat} {entry : BufferedPkt}

theorem fate_none (hm : matchesFilter (stack k).1 filters (inMemory entry.1) = none) :
    fate stack filters i k entry = .through := by
  simp only [fate, hm, Option.map_none]

section Matched

variable {filter : EventFilter} (hm : matchesFilter (stack k).1 filters (inMemory entry.1) = some filter)
include hm

theorem fate_passes (hp : passes filter.action (inMemory entry.1) = true) :
    fate stack filters i k entry = .through := by
  simp only [fate, hm, Option.map_some, if_pos hp]

theorem fate_drop (ha : filter.action = .drop) (hp : passes .drop (inMemory entry.1) = false) :
    fate stack filters i k entry = .lost := by
  simp only [fate, hm, Option.map_some, ha, hp, Bool.false_eq_true, if_false]

theorem fate_injected (ha : filter.action = .buffer) (hp : passes .buffer (inMemory entry.1) = false)
    (hi : (stack k).2.injected ≠ 0) : fate stack filters i k entry = .through := by
  simp only [fate, hm, Option.map_some, ha, hp, Bool.false_eq_true, if_false, if_pos hi]

theorem fate_buffer (ha : filter.action = .buffer) (hp : passes .buffer (inMemory entry.1) = false)
    (hi : (stack k).2.injected = 0) : fate stack filters i k entry =
      if matchIdx (stack k).1 filters (inMemory entry.1) = some i then .again else .lost := by
  have hi : ¬ (stack k).2.injected ≠ 0 := fun h => h hi
  simp only [fate, hm, Option.map_some, ha, hp, Bool.false_eq_true, if_false, if_neg hi]

end Matched

/-- A packet is processed exactly if it gets through, and comes into the buffer again exactly if that is its
fate. -/
theorem processes_keeper_iff (stack : Stack) (filters : List EventFilter) (i k : Nat) (entry : BufferedPkt) :
    (Processes (stack k) filters entry.1 ↔ fate stack filters i k entry = .through) ∧
      (keeper (stack k).1 filters (inMemory entry.1) (stack k).2 = some i ↔
        fate stack filters i k entry = .again) := by
  cases hm : matchesFilter (stack k).1 filters (inMemory entry.1) with
  | none =>
      rw [fate_none hm, Processes, preprocess_none hm, keeper, hm]
      simp
  | some filter =>
      rw [keeper, hm, Option.bind_some]
      cases hp : passes filter.action (inMemory entry.1) with
      | true =>
          have hkept : ¬ (filter.action = .buffer ∧ passes .buffer (inMemory entry.1) = false ∧
              (stack k).2.injected = 0) := by
            rintro ⟨ha, hb, -⟩
            rw [ha, hb] at hp
            cases hp
          rw [fate_passes hm hp, Processes, preprocess_passes hm hp, if_neg hkept]
          simp
      | false =>
          cases ha : filter.action with
          | buffer =>
              have hb : passes .buffer (inMemory entry.1) = false := ha ▸ hp
              by_cases hi : (stack k).2.injected = 0
              · have hkept : EventAction.buffer = .buffer ∧ passes .buffer (inMemory entry.1) = false ∧
                    (stack k).2.injected = 0 := ⟨rfl, hb, hi⟩
                rw [fate_buffer hm ha hb hi, Processes, preprocess_buffer hm ha hp hi, if_pos hkept]
                by_cases hplace : matchIdx (stack k).1 filters (inMemory entry.1) = some i
                · simp [hplace]
                · simp [hplace]
              · rw [fate_injected hm ha hb hi, Processes, preprocess_injected hm ha hp hi,
                  if_neg fun h => hi h.2.2]
                simp
          | drop =>
              have hb : passes .drop (inMemory entry.1) = false := ha ▸ hp
              rw [fate_drop hm ha hb, Processes, preprocess_drop hm ha hp]
              simp
          | process =>
              rw [ha] at hp
              cases hp

/-- What filters decide does not depend on their buffers. -/
def ruleOf (filter : EventFilter) : PerflowKey × EventAction := (filter.key, filter.action)

theorem fate_congr {filters' : List EventFilter}
    (h : filters'.map ruleOf = filters.map ruleOf) :
    fate stack filters' i k entry = fate stack filters i k entry := by
  have hmatches : ∀ fs : List EventFilter,
      (matchesFilter (stack k).1 fs (inMemory entry.1)).map EventFilter.action =
        ((fs.map ruleOf).find? fun rule =>
          matchesKey (stack k).1 rule.1 (buildPacketKey (inMemory entry.1) (stack k).1.pKey)).map Prod.snd :=
    fun fs => by
      rw [List.find?_map, Option.map_map]
      rfl
  have hplace : ∀ fs : List EventFilter, matchIdx (stack k).1 fs (inMemory entry.1) =
      (fs.map ruleOf).findIdx? fun rule =>
        matchesKey (stack k).1 rule.1 (buildPacketKey (inMemory entry.1) (stack k).1.pKey) :=
    fun fs => by
      rw [List.findIdx?_map]
      rfl
  simp only [fate, hmatches, hplace, h]

end Fates

end OFM.Prads
