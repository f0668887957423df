import OFM.Shared.Event

/-!
# The way of a packet

What the filter that a packet matches makes of it, and what is raised for it in all when the middlebox calls
`sdmbn_preprocess_packet` before it processes a packet and `sdmbn_postprocess_packet` after.
-/

namespace OFM.Shared
open OFM.Lib
open OFM.Controller (EventAction)

/-- The marks of a packet that take it past a filter. -/
def passes (action : EventAction) (pkt : Memory) : Bool :=
  match action with
  | .buffer => isPacketFlagSet pkt packetFlagDoNotBuffer
  | .drop => isPacketFlagSet pkt packetFlagDoNotDrop
  | .process => true

section Path

variable (u : Undefined) (filters : List EventFilter) (pkt : Memory) (context : ProcessContext)

/-- A packet that is not stopped is processed in between. -/
def raisedFor : List Raised :=
  let (_, context, raised) := sdmbnPreprocessPacket u filters pkt context
  if context.stop ≠ 0 then raised else raised ++ sdmbnPostprocessPacket pkt context

end Path

/-! ## Buffers -/

/-- A packet goes to the end of the buffer of one filter. -/
def Queued (filters : List EventFilter) (filter : EventFilter) (pkt : Memory)
    (filters' : List EventFilter) : Prop :=
  ∃ pre post, filters = pre ++ filter :: post ∧
    filters' = pre ++ { filter with buffer := filter.buffer ++ [pkt] } :: post

section Buffers

variable {u : Undefined} {filters : List EventFilter} {filter : EventFilter} {pkt : Memory}

@[simp] theorem bufferPacket_nil : bufferPacket u [] pkt = [] := rfl

theorem bufferPacket_cons : bufferPacket u (filter :: filters) pkt =
    if matchesKey u filter.key (buildPacketKey pkt u.pKey) then
      { filter with buffer := filter.buffer ++ [pkt] } :: filters
    else filter :: bufferPacket u filters pkt := by
  simp only [bufferPacket, List.findIdx?_cons]
  split
  · rfl
  · cases List.findIdx? (fun filter => matchesKey u filter.key (buildPacketKey pkt u.pKey)) filters <;> rfl

theorem matchesFilter_cons : matchesFilter u (filter :: filters) pkt =
    if matchesKey u filter.key (buildPacketKey pkt u.pKey) then some filter
    else matchesFilter u filters pkt := by
  simp only [matchesFilter, List.find?_cons]
  split <;> simp_all

/-- The packet is kept by the filter that it matches. -/
theorem queued_bufferPacket (h : matchesFilter u filters pkt = some filter) :
    Queued filters filter pkt (bufferPacket u filters pkt) := by
  induction filters with
  | nil => cases h
  | cons first filters ih =>
      rw [matchesFilter_cons] at h
      rw [bufferPacket_cons]
      split at h
      · rename_i hm
        cases h
        rw [if_pos hm]
        exact ⟨[], filters, rfl, rfl⟩
      · rename_i hm
        rw [if_neg hm]
        obtain ⟨pre, post, he, he'⟩ := ih h
        exact ⟨first :: pre, post, by rw [he]; rfl, by rw [he']; rfl⟩

end Buffers

/-! ## The filter that a packet matches -/

section Matched

variable {u : Undefined} {filters : List EventFilter} {filter : EventFilter} {pkt : Memory}
  {context : ProcessContext}

/-- A packet that the filter lets pass is to be reported after it has been processed. -/
theorem preprocess_passes (hm : matchesFilter u filters pkt = some filter)
    (hp : passes filter.action pkt = true) : sdmbnPreprocessPacket u filters pkt context =
      (filters, { context with stop := 0, event := filter.id.setWidth 8 }, []) := by
  rw [sdmbnPreprocessPacket, hm]
  cases ha : filter.action with
  | buffer =>
      rw [ha, passes] at hp
      simp only [ha, hp, if_true]
  | drop =>
      rw [ha, passes] at hp
      simp only [ha, hp, if_true]
  | process => simp only [ha]

/-- A packet that has been dropped is reported at once. -/
theorem preprocess_drop (hm : matchesFilter u filters pkt = some filter) (ha : filter.action = .drop)
    (hp : passes filter.action pkt = false) : sdmbnPreprocessPacket u filters pkt context =
      (filters, { context with stop := 1, event := -1 }, [⟨filter.id, -1, pkt⟩]) := by
  rw [ha, passes] at hp
  rw [sdmbnPreprocessPacket, hm]
  simp [ha, hp]

theorem preprocess_buffer (hm : matchesFilter u filters pkt = some filter) (ha : filter.action = .buffer)
    (hp : passes filter.action pkt = false) (hi : context.injected = 0) :
    sdmbnPreprocessPacket u filters pkt context =
      (bufferPacket u filters pkt, { context with stop := 1, event := -1 }, []) := by
  rw [ha, passes] at hp
  rw [sdmbnPreprocessPacket, hm]
  simp [ha, hp, hi]

/-- A packet that comes from a buffer is not kept again. -/
theorem preprocess_injected (hm : matchesFilter u filters pkt = some filter) (ha : filter.action = .buffer)
    (hp : passes filter.action pkt = false) (hi : context.injected ≠ 0) :
    sdmbnPreprocessPacket u filters pkt context =
      (filters, { context with stop := 0, event := 0 }, []) := by
  rw [ha, passes] at hp
  rw [sdmbnPreprocessPacket, hm]
  simp only [ha, hp, Bool.false_eq_true, if_false, if_pos hi]

theorem preprocess_none (hm : matchesFilter u filters pkt = none) :
    sdmbnPreprocessPacket u filters pkt context =
      (filters, { context with stop := 0, event := 0 }, []) := by
  rw [sdmbnPreprocessPacket, hm]

end Matched

end OFM.Shared
