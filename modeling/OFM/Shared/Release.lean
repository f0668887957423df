import OFM.Lib.Machine
import OFM.Shared.PacketPath

/-!
# The release of buffered packets

`events_remove_filter` step by step, for a filter that buffers: the lock of the buffer is free while a
packet is processed, and again before the filter is taken out of the list, so that packets may arrive.
-/

namespace OFM.Shared
open OFM.Lib
open OFM.Controller (EventAction)

/-! ## Places in the list -/

section Places

variable (u : Undefined) (filters : List EventFilter) (pkt : Memory) (context : ProcessContext) (i : Nat)

/-- The place of the filter that a packet matches. -/
def matchIdx : Option Nat :=
  filters.findIdx? fun filter => matchesKey u filter.key (buildPacketKey pkt u.pKey)

/-- The place of the filter that keeps a packet in its buffer. -/
def keeper : Option Nat :=
  (matchesFilter u filters pkt).bind fun filter =>
    if filter.action = .buffer ∧ passes .buffer pkt = false ∧ context.injected = 0 then matchIdx u filters pkt
    else none

def bufferAt : List Memory := filters[i]?.elim [] EventFilter.buffer

/-- `bufferHead = entry->next` -/
def dequeue : List EventFilter := filters.modify i fun filter => { filter with buffer := filter.buffer.tail }

variable {u filters pkt context i}

theorem matchIdx_cons {filter : EventFilter} : matchIdx u (filter :: filters) pkt =
    if matchesKey u filter.key (buildPacketKey pkt u.pKey) then some 0
    else (matchIdx u filters pkt).map (· + 1) := by
  simp only [matchIdx, List.findIdx?_cons]

theorem matchesFilter_eq_getElem? :
    matchesFilter u filters pkt = (matchIdx u filters pkt).bind fun i => filters[i]? := by
  induction filters with
  | nil => rfl
  | cons filter filters ih =>
      rw [matchesFilter_cons, matchIdx_cons]
      split
      · rfl
      · rw [ih]
        cases matchIdx u filters pkt <;> rfl

/-- A packet goes into the buffer of its keeper, and the filters do not change otherwise. -/
theorem preprocess_filters : (sdmbnPreprocessPacket u filters pkt context).1 =
    (keeper u filters pkt context).elim filters fun i =>
      filters.modify i fun filter => { filter with buffer := filter.buffer ++ [pkt] } := by
  cases hm : matchesFilter u filters pkt with
  | none => rw [preprocess_none hm, keeper, hm]; rfl
  | some filter =>
      cases hp : passes filter.action pkt with
      | true =>
          rw [preprocess_passes hm hp, keeper, hm, Option.bind_some, if_neg]
          · rfl
          · rintro ⟨ha, hb, -⟩
            rw [ha, hb] at hp
            cases hp
      | false =>
          cases ha : filter.action with
          | buffer =>
              have hb : passes .buffer pkt = false := ha ▸ hp
              by_cases hi : context.injected = 0
              · rw [preprocess_buffer hm ha hp hi, keeper, hm, Option.bind_some, if_pos ⟨ha, hb, hi⟩]
                rfl
              · rw [preprocess_injected hm ha hp hi, keeper, hm, Option.bind_some, if_neg fun h => hi h.2.2]
                rfl
          | drop =>
              rw [preprocess_drop hm ha hp, keeper, hm, Option.bind_some, if_neg]
              · rfl
              · rintro ⟨hb, -⟩
                rw [ha] at hb
                cases hb
          | process =>
              rw [ha] at hp
              cases hp

end Places

/-! ## Steps -/

/-- Where `events_remove_filter` is. -/
inductive Remover where
  /-- It is about to look for a first packet. -/
  | testing
  /-- It has a packet to release. -/
  | releasing
  /-- The packet has been processed, and is to be taken out of the buffer. -/
  | unchaining
  /-- The buffer has been found empty, and the filter is to be taken out of the list. -/
  | unlinking
  | done
  deriving DecidableEq

/-- The filters, with the one that is removed at a place of its own, and what has happened to its packets;
these are numbered as they arrive. -/
structure Release where
  filters : List EventFilter
  index : Nat
  key : PerflowKey
  remover : Remover
  next : Nat
  /-- The packets in the buffer. -/
  waiting : List (Nat × Memory)
  /-- The packets that the filter has stopped. -/
  stopped : List (Nat × Memory)
  /-- The packets that have been given to `process_packet`. -/
  passed : List (Nat × Memory)
  /-- Packets that were let through before others that had come earlier. -/
  overtook : List Nat

/-- What threads do: a packet arrives, or the function goes on. -/
inductive ReleaseStep where
  | arrive (u : Undefined) (pkt : Memory) (context : ProcessContext)
  | goOn

namespace Release

/-- The filter has the packet's key, and no filter in front of it has. -/
def Belongs (r : Release) (u : Undefined) (pkt : Memory) : Prop :=
  matchIdx u (r.filters.take r.index) pkt = none ∧ matchesKey u r.key (buildPacketKey pkt u.pKey) = true

instance (r : Release) (u : Undefined) (pkt : Memory) : Decidable (r.Belongs u pkt) :=
  inferInstanceAs (Decidable (_ ∧ _))

/-- `sdmbn_preprocess_packet` -/
def arrive (r : Release) (u : Undefined) (pkt : Memory) (context : ProcessContext) : Release :=
  let (filters, context, _) := sdmbnPreprocessPacket u r.filters pkt context
  let kept := context.stop ≠ 0 ∧ r.remover ≠ .done ∧ r.Belongs u pkt
  let overtakes := context.stop = 0 ∧ r.Belongs u pkt ∧ r.passed.length < r.stopped.length
  { r with
    filters
    next := r.next + 1
    waiting := if kept then r.waiting ++ [(r.next, pkt)] else r.waiting
    stopped := if kept then r.stopped ++ [(r.next, pkt)] else r.stopped
    overtook := if overtakes then r.overtook ++ [r.next] else r.overtook }

/-- The test of the loop, which is made with the buffer locked. -/
def test (r : Release) : Release :=
  { r with remover := if bufferAt r.filters r.index = [] then .unlinking else .releasing }

/-- The steps of `events_remove_filter`. -/
def goOn (r : Release) : Option Release :=
  match r.remover with
  | .testing => some r.test
  | .releasing => some { r with remover := .unchaining, passed := r.passed ++ r.waiting.head?.toList }
  | .unchaining => some { r with filters := dequeue r.filters r.index, waiting := r.waiting.tail }.test
  | .unlinking => some { r with filters := r.filters.eraseIdx r.index, remover := .done }
  | .done => none

def step (r : Release) : ReleaseStep → Option Release
  | .arrive u pkt context => some (r.arrive u pkt context)
  | .goOn => r.goOn

/-- Packets with their numbers. -/
def numbered (pkts : List Memory) : List (Nat × Memory) := pkts.zipIdx.map Prod.swap

/-- With the packets that the filter has buffered so far. -/
def init (filters : List EventFilter) (key : PerflowKey) (index : Nat) : Release :=
  let waiting := numbered (bufferAt filters index)
  ⟨filters, index, key, .testing, waiting.length, waiting, waiting, [], []⟩

/-- `events_remove_filter` looks for the filter with a key, and does nothing if there is none. -/
def find (filters : List EventFilter) (key : PerflowKey) : Option Release :=
  (filters.findIdx? fun filter => filter.key = key).map (init filters key)

/-- All the packets that the filter has stopped have been processed, each of them once and in the order in
which they arrived, and no packet that was let through has overtaken one of them. -/
def Delivered (r : Release) : Prop := r.passed = r.stopped ∧ r.overtook = []

/-- The packets that are still to be processed. -/
def pending (r : Release) : List (Nat × Memory) :=
  if r.remover = .unchaining then r.waiting.tail else r.waiting

/-- The packet goes past a buffer. -/
def GoesPast (pkt : Memory) (context : ProcessContext) : Prop :=
  passes .buffer pkt = true ∨ context.injected ≠ 0

/-- No packet is kept once the buffer has been found empty, and none goes past packets that are still to be
processed. -/
def Safe (r : Release) : ReleaseStep → Prop
  | .arrive u pkt context => r.Belongs u pkt →
      match r.remover with
      | .done => True
      | .unlinking => GoesPast pkt context
      | _ => GoesPast pkt context → r.pending = []
  | .goOn => True

end Release

end OFM.Shared
