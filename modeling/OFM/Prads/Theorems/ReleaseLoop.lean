import OFM.Prads.ReleaseLoop
import OFM.Prads.Lemmas.Instance
import OFM.Shared.Theorems.PacketPath

/-!
# Packets that come back

The loop of `events_remove_filter` works off a queue from which packets may go to the end again; when it ends
with every packet processed in its turn.
-/

namespace OFM.Prads
open OFM.Lib OFM.Shared

section Loop

variable [Macros] [PacketPath] {stack : Stack} {inst : Instance} {filters : List EventFilter} {i k : Nat}
  {held : Undefined × ProcessContext} {packet : List (BitVec 8)}

/-! ## The filters after a packet -/

omit [Macros] [PacketPath] in
theorem map_rule_modify {f : EventFilter → EventFilter} (hf : ∀ filter, ruleOf (f filter) = ruleOf filter) :
    (filters.modify i f).map ruleOf = filters.map ruleOf := by
  induction filters generalizing i with
  | nil => cases i <;> rfl
  | cons filter filters ih =>
      cases i with
      | zero => simp [hf]
      | succ i => simp [ih]

omit [Macros] [PacketPath] in
theorem bufferAt_modify {f : EventFilter → EventFilter} {g : List Memory → List Memory}
    (hf : ∀ filter, (f filter).buffer = g filter.buffer) (hne : bufferAt filters i ≠ []) :
    bufferAt (filters.modify i f) i = g (bufferAt filters i) := by
  cases h : filters[i]? with
  | none => simp [bufferAt, h] at hne
  | some filter => simp [bufferAt, h, hf]

theorem processPacket_filters : (processPacket inst packet).1.filters = inst.filters := by
  rw [processPacket]
  cases PacketPath.parse inst.rest packet <;> rfl

/-- Filters change at a packet only by what is buffered. -/
theorem localProcessPacket_filters : (localProcessPacket held inst packet).filters =
    (keeper held.1 inst.filters (inMemory packet) held.2).elim inst.filters fun i =>
      inst.filters.modify i fun filter => { filter with buffer := filter.buffer ++ [inMemory packet] } := by
  rw [← preprocess_filters, localProcessPacket, gotPacket]
  simp only []
  split
  · rfl
  · exact processPacket_filters

theorem localProcessPacket_rules :
    (localProcessPacket held inst packet).filters.map ruleOf = inst.filters.map ruleOf := by
  rw [localProcessPacket_filters]
  cases keeper held.1 inst.filters (inMemory packet) held.2 with
  | none => rfl
  | some j => exact map_rule_modify fun _ => rfl

/-- What is in the buffer that is being emptied when a packet has been processed. -/
theorem localProcessPacket_bufferAt (held : Undefined × ProcessContext) (packet : List (BitVec 8))
    (hne : bufferAt inst.filters i ≠ []) :
    bufferAt (localProcessPacket held inst packet).filters i = bufferAt inst.filters i ++
      if keeper held.1 inst.filters (inMemory packet) held.2 = some i then [inMemory packet] else [] := by
  rw [localProcessPacket_filters]
  cases hk : keeper held.1 inst.filters (inMemory packet) held.2 with
  | none => simp
  | some j =>
      by_cases hj : j = i
      · subst hj
        rw [if_pos rfl]
        exact bufferAt_modify (g := (· ++ [inMemory packet])) (fun _ => rfl) hne
      · have hji : some j ≠ some i := fun h => hj (Option.some.inj h)
        rw [if_neg hji, List.append_nil, bufferAt, Option.elim_some, List.getElem?_modify_ne _ _ hj, bufferAt]

theorem release_rules : (release held i inst packet).filters.map ruleOf = inst.filters.map ruleOf := by
  have hrules : (release held i inst packet).filters.map ruleOf =
      (localProcessPacket held inst packet).filters.map ruleOf := map_rule_modify fun _ => rfl
  rw [hrules, localProcessPacket_rules]

theorem release_bufferAt (hne : bufferAt inst.filters i ≠ []) :
    bufferAt (release held i inst packet).filters i = (bufferAt inst.filters i).tail ++
      if keeper held.1 inst.filters (inMemory packet) held.2 = some i then [inMemory packet] else [] := by
  have hbuffer := localProcessPacket_bufferAt held packet hne
  have htail : bufferAt (release held i inst packet).filters i =
      (bufferAt (localProcessPacket held inst packet).filters i).tail := by
    refine bufferAt_modify (fun _ => rfl) ?_
    rw [hbuffer]
    simp [hne]
  rw [htail, hbuffer, List.tail_append_of_ne_nil hne]

/-! ## The loop -/

/-- The loop works off the queue of the entries. -/
theorem releaseLoop_eq {fuel : Nat} {entries : List BufferedPkt}
    (hrules : inst.filters.map ruleOf = filters.map ruleOf)
    (hentries : entries.map (fun entry => inMemory entry.1) = bufferAt inst.filters i) :
    (releaseLoop stack i fuel k inst entries).map Prod.snd =
      Rotation.drain (fate stack filters i) fuel k entries := by
  induction fuel generalizing k inst entries with
  | zero => rfl
  | succ fuel ih =>
      cases entries with
      | nil =>
          have hnil : bufferAt inst.filters i = [] := hentries.symm
          rw [releaseLoop, if_pos hnil]
          rfl
      | cons entry rest =>
          have hne : bufferAt inst.filters i ≠ [] := by
            rw [← hentries]
            simp
          have hrec := fun entries => @ih (release (stack k) i inst entry.1) (k + 1) entries
            (release_rules.trans hrules)
          rw [release_bufferAt hne, ← hentries, List.map_cons, List.tail_cons] at hrec
          obtain ⟨hprocesses, hkeeper⟩ := processes_keeper_iff stack inst.filters i k entry
          rw [fate_congr hrules] at hprocesses hkeeper
          rw [releaseLoop, if_neg hne, Option.map_map]
          cases hf : fate stack filters i k entry with
          | through =>
              rw [hf] at hprocesses hkeeper
              have hkept : ¬ keeper (stack k).1 inst.filters (inMemory entry.1) (stack k).2 = some i :=
                fun h => nomatch hkeeper.mp h
              rw [if_neg hkept, List.append_nil] at hrec
              rw [Rotation.drain_through hf, if_neg hkept, ← hrec rest rfl, Option.map_map]
              simp [Function.comp_def, hprocesses]
          | again =>
              rw [hf] at hprocesses hkeeper
              have hkept : keeper (stack k).1 inst.filters (inMemory entry.1) (stack k).2 = some i :=
                hkeeper.mpr rfl
              rw [if_pos hkept] at hrec
              rw [Rotation.drain_again hf, if_pos hkept, ← hrec (rest ++ [entry]) (by simp)]
              simp [Function.comp_def, hprocesses]
          | lost =>
              rw [hf] at hprocesses hkeeper
              have hkept : ¬ keeper (stack k).1 inst.filters (inMemory entry.1) (stack k).2 = some i :=
                fun h => nomatch hkeeper.mp h
              rw [if_neg hkept, List.append_nil] at hrec
              rw [Rotation.drain_lost hf, if_neg hkept, ← hrec rest rfl]
              simp [Function.comp_def, hprocesses]

end Loop

/-! ## The whole release -/

theorem nodup_zipIdx (packets : List (List (BitVec 8))) : packets.zipIdx.Nodup := by
  apply List.Nodup.of_map Prod.snd
  rw [List.zipIdx_map_snd]
  exact List.nodup_range'

section Release

variable [Macros] [PacketPath] {stack : Stack} {inst : Instance} {key : PerflowKey} {i : Nat}
  {packets : List (List (BitVec 8))}

omit [Macros] in
/-- The packets are those in the buffer. -/
theorem entries_bufferAt (hb : packets.map inMemory = bufferAt inst.filters i) :
    packets.zipIdx.map (fun entry => inMemory entry.1) = bufferAt inst.filters i := by
  have hfst := congrArg (List.map inMemory) (List.zipIdx_map_fst 0 packets)
  rw [List.map_map] at hfst
  exact hfst.trans hb

theorem released_iff_drain (hi : inst.filters.findIdx? (fun filter => filter.key = key) = some i)
    (hb : packets.map inMemory = bufferAt inst.filters i) : Released stack inst key packets ↔
      ∃ fuel, Rotation.drain (fate stack inst.filters i) fuel 0 packets.zipIdx = some packets.zipIdx := by
  apply exists_congr
  intro fuel
  rw [← releaseLoop_eq rfl (entries_bufferAt hb), Option.map_eq_some_iff, eventsRemoveFilter, hi]
  constructor
  · rintro ⟨inst', h⟩
    obtain ⟨⟨inst'', out⟩, hloop, heq⟩ := Option.map_eq_some_iff.mp h
    cases heq
    exact ⟨_, hloop, rfl⟩
  · rintro ⟨⟨inst', out⟩, hloop, heq⟩
    cases heq
    exact ⟨{ inst' with filters := inst'.filters.eraseIdx i }, by simp [hloop]⟩

/-- Every packet is processed, once and in its turn, if and only if each one is let through when it has come
to the head of the buffer, up to rounds in which everything that is left is buffered again. -/
theorem released_iff_inTurn (hi : inst.filters.findIdx? (fun filter => filter.key = key) = some i)
    (hb : packets.map inMemory = bufferAt inst.filters i) : Released stack inst key packets ↔
      Rotation.InTurn (fate stack inst.filters i) 0 packets.zipIdx :=
  (released_iff_drain hi hb).trans (Rotation.drain_iff (nodup_zipIdx packets))

/-- The function does not return when `injected` is never set: all packets that the filter stops come back. -/
theorem eventsRemoveFilter_stuck {filter : EventFilter}
    (hi : inst.filters.findIdx? (fun filter => filter.key = key) = some i)
    (hb : packets.map inMemory = bufferAt inst.filters i) (ht : inst.filters[i]? = some filter)
    (ha : filter.action = .buffer) (hne : packets ≠ [])
    (hm : ∀ k, ∀ packet ∈ packets, matchIdx (stack k).1 inst.filters (inMemory packet) = some i)
    (hp : ∀ packet ∈ packets, passes .buffer (inMemory packet) = false)
    (hinjected : ∀ k, (stack k).2.injected = 0) (fuel : Nat) :
    eventsRemoveFilter stack fuel inst key packets = none := by
  have hagain : ∀ k, ∀ entry ∈ packets.zipIdx, fate stack inst.filters i k entry = .again := by
    intro k entry hentry
    have hmem : entry.1 ∈ packets := List.fst_mem_of_mem_zipIdx hentry
    have hplace := hm k entry.1 hmem
    have hmatches : matchesFilter (stack k).1 inst.filters (inMemory entry.1) = some filter := by
      rw [matchesFilter_eq_getElem?, hplace, Option.bind_some, ht]
    rw [fate_buffer hmatches ha (hp entry.1 hmem) (hinjected k), if_pos hplace]
  have hstuck := Rotation.drain_stuck fuel 0 hagain (by simpa using hne)
  rw [← releaseLoop_eq rfl (entries_bufferAt hb), Option.map_eq_none_iff] at hstuck
  rw [eventsRemoveFilter, hi]
  simp [hstuck]

end Release

/-! ## Samples -/

/-- A filter that has buffered packets. -/
def fullFilter (packets : List (List (BitVec 8))) : EventFilter :=
  { anyFilter .buffer 1 with buffer := packets.map inMemory }

/-- An instance with that filter. -/
@[reducible] def bufferingInstance (packets : List (List (BitVec 8))) : letI := plainPath; Instance :=
  letI := plainPath
  { startedInstance with filters := [fullFilter packets] }

/-- What the calls find on the stack, one after the other; all that come later find the same. -/
def stackOf (injected : List (BitVec 8)) (later : BitVec 8) : Stack :=
  fun k => (.const .zero 0, ⟨injected.getD k later, 0, 0⟩)

/-- A frame to another host. -/
def otherFrame : List (BitVec 8) := sampleFrame.set 33 3

theorem matchIdx_full (packets : List (List (BitVec 8))) (u : Undefined) (pkt : Memory) :
    matchIdx u [fullFilter packets] pkt = some 0 := by
  rw [matchIdx_cons, if_pos]
  exact matchesKey_any u .buffer 1 pkt

theorem fate_stackOf (packets : List (List (BitVec 8))) (injected : List (BitVec 8)) (later : BitVec 8) (k : Nat)
    (entry : BufferedPkt) (hp : passes .buffer (inMemory entry.1) = false) :
    fate (stackOf injected later) [fullFilter packets] 0 k entry =
      if injected.getD k later = 0 then .again else .through := by
  have hm : matchesFilter (stackOf injected later k).1 [fullFilter packets] (inMemory entry.1) =
      some (fullFilter packets) := by
    rw [matchesFilter_eq_getElem?, matchIdx_full]
    rfl
  by_cases hi : (stackOf injected later k).2.injected = 0
  · rw [fate_buffer hm rfl hp hi, if_pos (matchIdx_full ..)]
    exact (if_pos hi).symm
  · rw [fate_injected hm rfl hp hi]
    exact (if_neg hi).symm

/-- Both packets are buffered again, and then both get through. -/
theorem released_iff_inTurn_two : letI := plainMacros; letI := plainPath
    Released (stackOf [0, 0] 1) (bufferingInstance [sampleFrame, otherFrame])
      (fullFilter [sampleFrame, otherFrame]).key [sampleFrame, otherFrame] := by
  let _ := plainMacros
  let _ := plainPath
  have hfate : ∀ k, ∀ entry ∈ [sampleFrame, otherFrame].zipIdx,
      fate (stackOf [0, 0] 1) [fullFilter [sampleFrame, otherFrame]] 0 k entry =
        if [0, 0].getD k 1 = (0 : BitVec 8) then .again else .through := by
    intro k entry hentry
    refine fate_stackOf _ _ _ k entry ?_
    have hall : ∀ packet ∈ [sampleFrame, otherFrame], passes .buffer (inMemory packet) = false := by decide
    exact hall entry.1 (List.fst_mem_of_mem_zipIdx hentry)
  have hturn : Rotation.InTurn (fate (stackOf [0, 0] 1) [fullFilter [sampleFrame, otherFrame]] 0) 0
      [sampleFrame, otherFrame].zipIdx := by
    refine .round ⟨?_, ?_, trivial⟩ (.through ?_ (.through ?_ .nil))
    · exact hfate 0 _ (by simp)
    · exact hfate 1 _ (by simp)
    · exact hfate 2 _ (by simp)
    · exact hfate 3 _ (by simp)
  exact (released_iff_inTurn (i := 0) (by simp) rfl).mpr hturn

/-- Where the stack holds a zero, the packet is buffered again each time. -/
theorem not_released_zero : letI := plainMacros; letI := plainPath
    ¬ Released (stackOf [] 0) (bufferingInstance [sampleFrame]) (fullFilter [sampleFrame]).key [sampleFrame] := by
  let _ := plainMacros
  let _ := plainPath
  rintro ⟨fuel, inst', h⟩
  have hi : (bufferingInstance [sampleFrame]).filters.findIdx?
      (fun filter => filter.key = (fullFilter [sampleFrame]).key) = some 0 := by
    simp
  have hb : [sampleFrame].map inMemory = bufferAt (bufferingInstance [sampleFrame]).filters 0 := rfl
  have hm : ∀ k, ∀ packet ∈ [sampleFrame],
      matchIdx (stackOf [] 0 k).1 (bufferingInstance [sampleFrame]).filters (inMemory packet) = some 0 :=
    fun k packet _ => matchIdx_full _ _ _
  rw [eventsRemoveFilter_stuck hi hb rfl rfl (by simp) hm (by decide) (fun _ => rfl)] at h
  cases h

end OFM.Prads
