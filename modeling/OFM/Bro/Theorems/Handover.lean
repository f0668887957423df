import OFM.Bro.Handover
import OFM.Bro.Theorems.FoundAgain
import OFM.Lib.Machine

/-!
# What becomes of the packets of a connection that is sent

Up to the get they are processed, and then they are discarded.
-/

namespace OFM.Bro
open OFM.Lib OFM.Lib.Machine

/-! ## A packet on its way to a connection -/

/-- What is new in memory has not been marked, and what was there is as it was. -/
structure Grown (s s' : NetSessions) : Prop where
  fresh : s.fresh ≤ s'.fresh
  old : ∀ q < s.fresh, s'.heap q = s.heap q
  new : ∀ q, s.fresh ≤ q → q < s'.fresh → (s'.heap q).moved = false

section Grown

variable {s s' : NetSessions} {hashBytes : List (BitVec 8) → BitVec 64} {p : Packet} {input : PacketInput}

theorem grown_of_heap_eq (hf : s'.fresh = s.fresh) (hh : s'.heap = s.heap) : Grown s s' :=
  ⟨hf.ge, fun _ _ => congrFun hh _, fun _ hle hlt => absurd hlt (hf ▸ Nat.not_lt.mpr hle)⟩

theorem Grown.create (hf : s'.fresh = s.fresh) (hh : s'.heap = s.heap) :
    Grown s (s'.create hashBytes p input).1 ∧
      ∀ conn ∈ (s'.create hashBytes p input).2, conn < (s'.create hashBytes p input).1.fresh := by
  rw [NetSessions.create]
  split
  · exact ⟨grown_of_heap_eq hf hh, fun _ h => absurd h (Option.not_mem_none _)⟩
  case h_2 setup _ =>
    refine ⟨⟨?_, fun q hq => ?_, fun q hle hlt => ?_⟩, fun conn hc => ?_⟩
    · exact hf ▸ Nat.le_succ _
    · have hne : q ≠ s'.fresh := hf ▸ Nat.ne_of_lt hq
      exact (Function.update_of_ne hne ..).trans (congrFun hh q)
    · have hq : q = s'.fresh := Nat.le_antisymm (Nat.le_of_lt_succ hlt) (hf ▸ hle)
      have hheap : ((s'.allocate (newConn hashBytes p input.flip setup)).heap q) =
          newConn hashBytes p input.flip setup := hq ▸ Function.update_self ..
      have hmoved : ((s'.allocate (newConn hashBytes p input.flip setup)).heap q).moved = false := by
        rw [hheap]
        rfl
      exact hmoved
    · cases hc
      exact s'.fresh_lt_allocate (newConn hashBytes p input.flip setup)

/-- A packet gets to a connection in memory. -/
theorem grown_doNextPacket {r : NetSessions × Option Pointer} (h : s.doNextPacket hashBytes p input = some r) :
    Grown s r.1 ∧ ∀ q ∈ r.2, q < r.1.fresh := by
  rw [NetSessions.doNextPacket] at h
  split at h
  · exact Option.some.inj h ▸ Grown.create rfl rfl
  case h_2 q hfind =>
    split at h
    · cases h
      exact ⟨grown_of_heap_eq rfl rfl, fun _ h => absurd h (Option.not_mem_none _)⟩
    · cases h
      refine ⟨grown_of_heap_eq rfl rfl, fun q' hq' => ?_⟩
      cases hq'
      obtain ⟨e, he, -, rfl⟩ := Dictionary.lookup_eq_some_iff.mp hfind
      exact s.allocated p.table e he
    · obtain ⟨s'', hr, he⟩ := Option.map_eq_some_iff.mp h
      obtain ⟨t, -, rfl⟩ := Option.map_eq_some_iff.mp hr
      exact he ▸ Grown.create rfl rfl

end Grown

/-! ## One connection -/

section Threads

variable [TextArchive]

namespace Threads

/-- The chunks that are sent, the one under way included. -/
def chunks (w : Threads) : List Sent :=
  w.sent ++ match w.loop with
    | .send chunk => [chunk]
    | _ => []

/-- The first packets of a connection have been processed, and the others discarded. While it is not marked,
it is what the packets have made of it; its chunk has what the first ones have made of it. -/
structure Divided (process : Processing) (input : GetInput) (w : Threads) (conn : Pointer)
    (before after : List Packet) : Prop where
  handled : w.handledOf conn = before.map (⟨conn, ·, .processed⟩) ++ after.map (⟨conn, ·, .discarded⟩)
  unmarked : (w.sessions.heap conn).moved = false →
    after = [] ∧ w.sessions.heap conn = process.all (w.born conn) before
  chunk : ∀ chunk ∈ w.chunks, chunk.conn = conn → chunk.id = input.id ∧
    chunk.state = TextArchive.write (save true ++ (process.all (w.born conn) before).save) ∧
    (w.sessions.heap conn).moved = true ∧ (w.sessions.heap conn).getOpId = input.id

/-- What holds at every moment. -/
structure Accurate (process : Processing) (input : GetInput) (w : Threads) : Prop where
  raised : w.raised = []
  divided : ∀ conn < w.sessions.fresh, ∃ before after, Divided process input w conn before after
  handled : ∀ h ∈ w.handled, h.conn < w.sessions.fresh
  sent : ∀ chunk ∈ w.chunks, chunk.conn < w.sessions.fresh
  arrived : ∀ a ∈ w.arrived, a.2 < w.sessions.fresh
  chosen : ∀ conn, w.loop = .lock conn → conn < w.sessions.fresh ∧ (w.sessions.heap conn).moved = false
  once : (w.chunks.map Sent.conn).Nodup

variable {process : Processing} {input : GetInput} {w w' : Threads}

theorem accurate_start (s : NetSessions) : Accurate process input (start input s) where
  raised := rfl
  divided _ _ := ⟨[], [], rfl, fun _ => ⟨rfl, rfl⟩, fun _ h => nomatch h⟩
  handled _ h := nomatch h
  sent _ h := nomatch h
  arrived _ h := nomatch h
  chosen _ h := nomatch h
  once := List.nodup_nil

theorem Divided.congr {conn : Pointer} {before after : List Packet}
    (h : Divided process input w conn before after) (hhandled : w'.handledOf conn = w.handledOf conn)
    (hheap : w'.sessions.heap conn = w.sessions.heap conn) (hborn : w'.born conn = w.born conn)
    (hchunks : ∀ chunk ∈ w'.chunks, chunk.conn = conn → chunk ∈ w.chunks) :
    Divided process input w' conn before after where
  handled := hhandled.trans h.handled
  unmarked := by
    rw [hheap, hborn]
    exact h.unmarked
  chunk chunk hc he := by
    rw [hheap, hborn]
    exact h.chunk chunk (hchunks chunk hc he) he

/-! ## Steps -/

theorem Accurate.packet (h : Accurate process input w) {s : NetSessions} (hg : Grown w.sessions s)
    {arrived : Option (Packet × Pointer)} (ha : ∀ a ∈ arrived, a.2 < s.fresh) :
    Accurate process input { w with
      sessions := s
      arrived := arrived
      born := fun q => if q < w.sessions.fresh then w.born q else s.heap q } where
  raised := h.raised
  divided conn hconn := by
    by_cases hold : conn < w.sessions.fresh
    · obtain ⟨before, after, hd⟩ := h.divided conn hold
      exact ⟨before, after, hd.congr rfl (hg.old conn hold) (if_pos hold) fun _ hc _ => hc⟩
    · have hhandled : w.handledOf conn = [] := by
        refine List.filter_eq_nil_iff.mpr fun x hx hxc => hold ?_
        exact of_decide_eq_true hxc ▸ h.handled x hx
      have hborn : (if conn < w.sessions.fresh then w.born conn else s.heap conn) = s.heap conn := if_neg hold
      refine ⟨[], [], hhandled, fun _ => ⟨rfl, hborn.symm⟩, fun chunk hchunk hc => ?_⟩
      exact absurd (h.sent chunk hchunk) (hc ▸ hold)
  handled x hx := Nat.lt_of_lt_of_le (h.handled x hx) hg.fresh
  sent chunk hc := Nat.lt_of_lt_of_le (h.sent chunk hc) hg.fresh
  arrived := ha
  chosen conn hconn := by
    obtain ⟨hold, hmoved⟩ := h.chosen conn hconn
    refine ⟨Nat.lt_of_lt_of_le hold hg.fresh, ?_⟩
    rw [hg.old conn hold]
    exact hmoved
  once := h.once

/-- A step of the loop that leaves the connections and the chunks alone. -/
theorem Accurate.loop (h : Accurate process input w) (tables : List Table) (loop : Loop) (count : Nat)
    (sent : List Sent) (hchunks : Threads.chunks { w with tables, loop, count, sent } = w.chunks)
    (hchosen : ∀ conn, loop = .lock conn →
      conn < w.sessions.fresh ∧ (w.sessions.heap conn).moved = false) :
    Accurate process input { w with tables, loop, count, sent } where
  raised := h.raised
  divided conn hconn := by
    obtain ⟨before, after, hd⟩ := h.divided conn hconn
    exact ⟨before, after, hd.congr rfl rfl rfl fun chunk hc _ => hchunks ▸ hc⟩
  handled := h.handled
  sent chunk hc := h.sent chunk (hchunks ▸ hc)
  arrived := h.arrived
  chosen := hchosen
  once := hchunks ▸ h.once

/-- One more packet has been handled. -/
theorem handledOf_append {x : Handled} (hw : w'.handled = w.handled ++ [x]) (q : Pointer) :
    w'.handledOf q = w.handledOf q ++ if x.conn = q then [x] else [] := by
  rw [handledOf, hw, List.filter_append]
  by_cases hx : x.conn = q <;> simp [handledOf, hx]

theorem Accurate.discarded (h : Accurate process input w) {p : Packet} {conn : Pointer}
    (ha : w.arrived = some (p, conn)) (hmoved : (w.sessions.heap conn).moved = true) :
    Accurate process input
      { w with arrived := none, handled := w.handled ++ [⟨conn, p, .discarded⟩] } where
  raised := h.raised
  divided q hq := by
    obtain ⟨before, after, hd⟩ := h.divided q hq
    have hhandled := @handledOf_append _ w { w with
      arrived := none, handled := w.handled ++ [⟨conn, p, .discarded⟩] } _ rfl q
    by_cases hc : conn = q
    · subst hc
      rw [if_pos rfl, hd.handled, List.append_assoc] at hhandled
      refine ⟨before, after ++ [p], ?_, fun hnot => ?_, hd.chunk⟩
      · rw [hhandled, List.map_append]
        rfl
      · rw [hmoved] at hnot
        cases hnot
    · rw [if_neg hc, List.append_nil] at hhandled
      exact ⟨before, after, hd.congr hhandled rfl rfl fun _ hc _ => hc⟩
  handled x hx := by
    rcases List.mem_append.mp hx with hx | hx
    · exact h.handled x hx
    · rw [List.mem_singleton.mp hx]
      exact h.arrived (p, conn) ha
  sent := h.sent
  arrived _ ha := nomatch ha
  chosen := h.chosen
  once := h.once

theorem Accurate.processed (h : Accurate process input w) {p : Packet} {conn : Pointer}
    (ha : w.arrived = some (p, conn)) (hmoved : (w.sessions.heap conn).moved = false) :
    Accurate process input { w with
      sessions := w.sessions.modify conn (process.apply · p)
      arrived := none
      handled := w.handled ++ [⟨conn, p, .processed⟩] } where
  raised := h.raised
  divided q hq := by
    obtain ⟨before, after, hd⟩ := h.divided q hq
    have hhandled := @handledOf_append _ w { w with
      sessions := w.sessions.modify conn (process.apply · p)
      arrived := none
      handled := w.handled ++ [⟨conn, p, .processed⟩] } _ rfl q
    by_cases hc : conn = q
    · subst hc
      obtain ⟨rfl, hheap⟩ := hd.unmarked hmoved
      have hself := w.sessions.heap_modify_self conn (process.apply · p)
      rw [if_pos rfl, hd.handled, List.append_assoc] at hhandled
      refine ⟨before ++ [p], [], ?_, fun _ => ⟨rfl, ?_⟩, fun chunk hchunk he => ?_⟩
      · rw [hhandled, List.map_append, List.append_assoc]
        rfl
      · rw [Processing.all, List.foldl_append]
        refine hself.trans ?_
        rw [hheap]
        rfl
      · have hmarked := (hd.chunk chunk hchunk he).2.2.1
        rw [hmoved] at hmarked
        cases hmarked
    · rw [if_neg hc, List.append_nil] at hhandled
      have hheap := w.sessions.heap_modify_of_ne (Ne.symm hc) (process.apply · p)
      exact ⟨before, after, hd.congr hhandled hheap rfl fun _ hc _ => hc⟩
  handled x hx := by
    rcases List.mem_append.mp hx with hx | hx
    · exact h.handled x hx
    · rw [List.mem_singleton.mp hx]
      exact h.arrived (p, conn) ha
  sent := h.sent
  arrived _ ha := nomatch ha
  chosen q hq := by
    refine ⟨(h.chosen q hq).1, ?_⟩
    by_cases hc : q = conn
    · subst hc
      have hself := w.sessions.heap_modify_self q (process.apply · p)
      exact (congrArg Connection.moved hself).trans ((process.moved ..).trans hmoved)
    · have hheap := w.sessions.heap_modify_of_ne hc (process.apply · p)
      exact (congrArg Connection.moved hheap).trans (h.chosen q hq).2
  once := h.once

/-- The connection whose lock the get has is marked, and its chunk is what the packets so far have made of
it. -/
theorem Accurate.marked (h : Accurate process input w) {conn : Pointer} (hl : w.loop = .lock conn)
    {f : Connection → Connection} (hf : ∀ c, (f c).moved = true ∧ (f c).getOpId = input.id) {loop : Loop}
    (hloop : loop = .next ∨ ∃ chunk, loop = .send chunk ∧ chunk.conn = conn ∧ chunk.id = input.id ∧
      chunk.state = TextArchive.write (save true ++ (w.sessions.heap conn).save)) :
    Accurate process input { w with sessions := w.sessions.modify conn f, loop } := by
  obtain ⟨hconn, hmoved⟩ := h.chosen conn hl
  have hsent : w.chunks = w.sent := by
    rw [chunks, hl, List.append_nil]
  have hfirst : ∀ chunk ∈ w.sent, chunk.conn ≠ conn := by
    intro chunk hc he
    obtain ⟨before, after, hd⟩ := h.divided conn hconn
    have hmarked := (hd.chunk chunk (hsent ▸ hc) he).2.2.1
    rw [hmoved] at hmarked
    cases hmarked
  have hchunks : ∀ chunk ∈ Threads.chunks { w with sessions := w.sessions.modify conn f, loop },
      chunk ∈ w.chunks ∨ chunk.conn = conn ∧ chunk.id = input.id ∧
        chunk.state = TextArchive.write (save true ++ (w.sessions.heap conn).save) := by
    intro chunk hc
    rw [hsent]
    rcases List.mem_append.mp hc with hc | hc
    · exact Or.inl hc
    · rcases hloop with rfl | ⟨chunk', rfl, hchunk'⟩
      · cases hc
      · rw [List.mem_singleton.mp hc]
        exact Or.inr hchunk'
  have hself := w.sessions.heap_modify_self conn f
  constructor
  · exact h.raised
  · intro q hq
    obtain ⟨before, after, hd⟩ := h.divided q hq
    by_cases hc : q = conn
    · subst hc
      obtain ⟨rfl, hheap⟩ := hd.unmarked hmoved
      refine ⟨before, [], hd.handled, fun hnot => ?_, fun chunk hchunk he => ?_⟩
      · dsimp only at hnot
        rw [hself, (hf _).1] at hnot
        cases hnot
      · dsimp only
        rw [hself, ← hheap]
        rcases hchunks chunk hchunk with hold | ⟨-, hid, hstate⟩
        · exact absurd he (hfirst chunk (hsent ▸ hold))
        · exact ⟨hid, hstate, hf _⟩
    · refine ⟨before, after, hd.congr rfl (w.sessions.heap_modify_of_ne hc f) rfl fun chunk hchunk he => ?_⟩
      rcases hchunks chunk hchunk with hold | ⟨hnew, -⟩
      · exact hold
      · exact absurd (he.symm.trans hnew) hc
  · exact h.handled
  · intro chunk hchunk
    rcases hchunks chunk hchunk with hold | ⟨hnew, -⟩
    · exact h.sent chunk hold
    · exact hnew ▸ hconn
  · exact h.arrived
  · intro q hq
    rcases hloop with rfl | ⟨chunk, rfl, -⟩ <;> cases hq
  · rw [chunks, List.map_append, List.nodup_append]
    refine ⟨hsent ▸ h.once, ?_, fun q hq q' hq' he => ?_⟩
    · rcases hloop with rfl | ⟨chunk, rfl, -⟩ <;> simp
    · rcases hloop with rfl | ⟨chunk, rfl, hnew, -⟩
      · cases hq'
      · obtain ⟨old, hold, rfl⟩ := List.mem_map.mp hq
        refine hfirst old hold (he.trans ?_)
        simpa [hnew] using hq'

/-! ## Runs -/

omit [TextArchive] in
theorem take_marks (hraise : input.raiseEvents = true) (c : Connection) :
    (input.take c).moved = true ∧ (input.take c).getOpId = input.id := by
  rw [GetInput.take, hraise]
  exact ⟨rfl, rfl⟩

omit [TextArchive] in
theorem moved_of_selects {c : Connection} (h : input.selects c = true) : c.moved = false := by
  rw [GetInput.selects, getSelects] at h
  split at h
  · cases h
  case isFalse hmoved => exact Bool.eq_false_iff.mpr hmoved

theorem Accurate.handle (h : Accurate process input w) (hs : w.handle process = some w') :
    Accurate process input w' := by
  rw [Threads.handle] at hs
  split at hs
  · cases hs
  case h_2 p conn ha =>
    dsimp only at hs
    split at hs
    · cases hs
    · split at hs
      case isTrue hmoved =>
        cases hs
        exact h.discarded ha hmoved
      case isFalse hmoved =>
        cases hs
        exact h.processed ha (Bool.eq_false_iff.mpr hmoved)

theorem Accurate.take (h : Accurate process input w) (hraise : input.raiseEvents = true)
    (hs : w.take input = some w') : Accurate process input w' := by
  rw [Threads.take] at hs
  split at hs
  case h_1 conn hl =>
    dsimp only at hs
    split at hs
    · cases hs
    · split at hs
      · cases hs
      · cases hs
        exact h.marked (f := fun c => { input.take c with lock := true }) hl
          (fun c => take_marks hraise c) (Or.inl rfl)
      case h_3 state hstate =>
        cases hs
        obtain ⟨-, -, hstate⟩ := sdmbnBoostEncode_eq_some hstate
        exact h.marked hl (fun c => take_marks hraise c) (Or.inr ⟨_, rfl, rfl, rfl, hstate⟩)
  · cases hs

theorem Accurate.step (h : Accurate process input w) (hraise : input.raiseEvents = true)
    {hashBytes : List (BitVec 8) → BitVec 64} {action : Action}
    (hs : w.step hashBytes process input action = some w') : Accurate process input w' := by
  cases action with
  | packet p packetInput =>
      rw [Threads.step] at hs
      split at hs
      · cases hs
      · obtain ⟨r, hr, rfl⟩ := Option.map_eq_some_iff.mp hs
        obtain ⟨hg, ha⟩ := grown_doNextPacket hr
        refine h.packet hg fun a he => ?_
        obtain ⟨conn, hconn, rfl⟩ := Option.map_eq_some_iff.mp he
        exact ha conn hconn
  | handle => exact h.handle hs
  | next conn =>
      rw [Threads.step] at hs
      split at hs
      case h_1 t rest htables hloop =>
        split at hs
        case isTrue hmem =>
          split at hs
          case isTrue hsel =>
            cases hs
            obtain ⟨e, he, rfl⟩ := List.mem_map.mp hmem
            refine h.loop w.tables (.lock e.value) w.count w.sent ?_ fun q hq => ?_
            · rw [chunks, chunks, hloop]
            · cases hq
              exact ⟨w.sessions.allocated t e he, moved_of_selects hsel⟩
          case isFalse =>
            cases hs
            exact h
        case isFalse => cases hs
      · cases hs
  | endTable =>
      rw [Threads.step] at hs
      split at hs
      case h_1 t rest htables hloop =>
        cases hs
        exact h.loop rest w.loop 0 w.sent rfl h.chosen
      · cases hs
  | take => exact h.take hraise hs
  | send =>
      rw [Threads.step] at hs
      split at hs
      case h_1 chunk hloop =>
        cases hs
        refine h.loop w.tables .next (w.count + 1) (w.sent ++ [chunk]) ?_ fun q hq => nomatch hq
        rw [chunks, chunks, hloop, List.append_nil]
      · cases hs

/-- The packets of a connection that is sent: the first ones are processed and are in its chunk, which is
the only one, and the others are discarded, without an event. -/
structure HandedOver (process : Processing) (input : GetInput) (w : Threads) : Prop where
  raised : w.raised = []
  once : (w.sent.map Sent.conn).Nodup
  marked : ∀ chunk ∈ w.sent, chunk.id = input.id ∧ (w.sessions.heap chunk.conn).moved = true ∧
    (w.sessions.heap chunk.conn).getOpId = input.id
  divided : ∀ chunk ∈ w.sent, ∃ before after : List Packet,
    w.handledOf chunk.conn =
      before.map (⟨chunk.conn, ·, .processed⟩) ++ after.map (⟨chunk.conn, ·, .discarded⟩) ∧
    chunk.state = TextArchive.write (save true ++ (process.all (w.born chunk.conn) before).save)

theorem Accurate.handedOver (h : Accurate process input w) : HandedOver process input w := by
  have hchunk : ∀ chunk ∈ w.sent, chunk ∈ w.chunks := fun _ hc => List.mem_append_left _ hc
  constructor
  · exact h.raised
  · have honce := h.once
    rw [chunks, List.map_append] at honce
    exact honce.of_append_left
  · intro chunk hc
    obtain ⟨before, after, hd⟩ := h.divided chunk.conn (h.sent chunk (hchunk chunk hc))
    obtain ⟨hid, -, hmarked⟩ := hd.chunk chunk (hchunk chunk hc) rfl
    exact ⟨hid, hmarked⟩
  · intro chunk hc
    obtain ⟨before, after, hd⟩ := h.divided chunk.conn (h.sent chunk (hchunk chunk hc))
    obtain ⟨-, hstate, -⟩ := hd.chunk chunk (hchunk chunk hc) rfl
    exact ⟨before, after, hd.handled, hstate⟩

end Threads

open Threads in
/-- Whatever the order of the steps, what is sent of a connection has all packets that are processed. -/
theorem handedOver_of_run {process : Processing} {input : GetInput} {s : NetSessions}
    (hraise : input.raiseEvents = true) {hashBytes : List (BitVec 8) → BitVec 64} {actions : List Action}
    {w : Threads} (hrun : run (Threads.step hashBytes process input) (start input s) actions = some w) :
    HandedOver process input w := by
  have haccurate : Accurate process input w :=
    run_invariant' (accurate_start s) (fun _ _ _ h hs => h.step hraise hs) hrun
  exact haccurate.handedOver

/-! ## The account -/

namespace Threads

/-- The packets of a connection that have been processed. -/
def processedOf (w : Threads) (conn : Pointer) : List Packet :=
  ((w.handledOf conn).filter fun h => h.fate = .processed).map Handled.packet

/-- The packets of the connections of the get that have not been processed. -/
def lost (w : Threads) : List Packet :=
  (w.handled.filter fun h => h.fate = .discarded ∧ h.conn ∈ w.chunks.map Sent.conn).map Handled.packet

/-- Every packet of a connection of the get is processed and is in its chunk, or is raised as one event with
the id of the get. -/
structure Accounted (process : Processing) (input : GetInput) (w : Threads) : Prop where
  reflected : ∀ chunk ∈ w.chunks, chunk.state =
    TextArchive.write (save true ++ (process.all (w.born chunk.conn) (w.processedOf chunk.conn)).save)
  raised : ((w.raised.filter fun event => event.id = input.id).map Reprocess.packet).Perm w.lost

/-- No packet gets the lock of a connection that the get has serialised. -/
def Timely (w : Threads) (action : Action) : Prop :=
  action = .handle → ∀ a ∈ w.arrived, a.2 ∉ w.chunks.map Sent.conn

/-- The discarded packets belong to connections that were marked before. -/
def NoneLost (w : Threads) : Prop :=
  ∀ h ∈ w.handled, h.fate = .discarded →
    h.conn ∉ w.chunks.map Sent.conn ∧ (w.sessions.heap h.conn).moved = true

variable {process : Processing} {input : GetInput} {w w' : Threads} {action : Action}
  {hashBytes : List (BitVec 8) → BitVec 64}

theorem lost_ne_nil_iff :
    w.lost ≠ [] ↔ ∃ x ∈ w.handled, x.fate = .discarded ∧ x.conn ∈ w.chunks.map Sent.conn := by
  rw [lost, ne_eq, List.map_eq_nil_iff, List.filter_eq_nil_iff]
  simp

theorem NoneLost.lost_eq (h : NoneLost w) : w.lost = [] := by
  by_contra hlost
  obtain ⟨x, hx, hfate, hmem⟩ := lost_ne_nil_iff.mp hlost
  exact (h x hx hfate).1 hmem

theorem Divided.processedOf_eq {conn : Pointer} {before after : List Packet}
    (h : Divided process input w conn before after) : w.processedOf conn = before := by
  have hbefore : (before.map fun p => (⟨conn, p, .processed⟩ : Handled)).filter
      (fun h => decide (h.fate = .processed)) = before.map fun p => ⟨conn, p, .processed⟩ := by
    refine List.filter_eq_self.mpr fun x hx => ?_
    obtain ⟨p, -, rfl⟩ := List.mem_map.mp hx
    rfl
  have hafter : (after.map fun p => (⟨conn, p, .discarded⟩ : Handled)).filter
      (fun h => decide (h.fate = .processed)) = [] := by
    refine List.filter_eq_nil_iff.mpr fun x hx => ?_
    obtain ⟨p, -, rfl⟩ := List.mem_map.mp hx
    exact Bool.false_ne_true
  rw [processedOf, h.handled, List.filter_append, hbefore, hafter, List.append_nil, List.map_map]
  exact List.map_id _

theorem Accurate.accounted_iff_lost (h : Accurate process input w) : Accounted process input w ↔ w.lost = [] := by
  constructor
  · intro ha
    have hraised := ha.raised
    rw [h.raised] at hraised
    exact hraised.nil_eq.symm
  · intro hlost
    refine ⟨fun chunk hc => ?_, ?_⟩
    · obtain ⟨before, after, hd⟩ := h.divided chunk.conn (h.sent chunk hc)
      rw [hd.processedOf_eq]
      exact (hd.chunk chunk hc rfl).2.1
    · rw [h.raised, hlost]
      exact .nil

/-- What a step keeps that handles no packet. -/
structure Quiet (w w' : Threads) : Prop where
  handled : w'.handled = w.handled
  moved : ∀ q < w.sessions.fresh, (w.sessions.heap q).moved = true → (w'.sessions.heap q).moved = true
  grown : w.chunks.map Sent.conn ⊆ w'.chunks.map Sent.conn
  taken : ∀ q ∈ w'.chunks.map Sent.conn, q ∈ w.chunks.map Sent.conn ∨ (w.sessions.heap q).moved = false

theorem Quiet.of_eq (hhandled : w'.handled = w.handled) (hchunks : w'.chunks = w.chunks)
    (hmoved : ∀ q < w.sessions.fresh, (w.sessions.heap q).moved = true → (w'.sessions.heap q).moved = true) :
    Quiet w w' :=
  ⟨hhandled, hmoved, hchunks ▸ List.Subset.refl _, fun _ hq => Or.inl (hchunks ▸ hq)⟩

/-- The get marks a connection, and has its chunk if that can be written. -/
theorem Quiet.marked {conn : Pointer} (hl : w.loop = .lock conn) (hmoved : (w.sessions.heap conn).moved = false)
    {f : Connection → Connection} (hf : ∀ c, (f c).moved = true) {loop : Loop}
    (hloop : loop = .next ∨ ∃ chunk, loop = .send chunk ∧ chunk.conn = conn) :
    Quiet w { w with sessions := w.sessions.modify conn f, loop } := by
  have hsent : w.chunks = w.sent := by
    rw [chunks, hl, List.append_nil]
  refine ⟨rfl, fun q _ hq => ?_, ?_, fun q hq => ?_⟩
  · by_cases hc : q = conn
    · subst hc
      exact (congrArg Connection.moved (w.sessions.heap_modify_self q f)).trans (hf _)
    · exact (congrArg Connection.moved (w.sessions.heap_modify_of_ne hc f)).trans hq
  · rw [hsent, chunks, List.map_append]
    exact List.subset_append_left _ _
  · rw [chunks, List.map_append] at hq
    rcases List.mem_append.mp hq with hq | hq
    · exact Or.inl (hsent ▸ hq)
    · rcases hloop with rfl | ⟨chunk, rfl, rfl⟩
      · cases hq
      · exact Or.inr (List.mem_singleton.mp hq ▸ hmoved)

theorem Accurate.quiet (h : Accurate process input w) (hraise : input.raiseEvents = true)
    (hs : w.step hashBytes process input action = some w') (hne : action ≠ .handle) : Quiet w w' := by
  cases action with
  | packet p packetInput =>
      rw [Threads.step] at hs
      split at hs
      · cases hs
      · obtain ⟨r, hr, rfl⟩ := Option.map_eq_some_iff.mp hs
        obtain ⟨hg, -⟩ := grown_doNextPacket hr
        refine .of_eq rfl rfl fun q hq hmoved => ?_
        exact (congrArg Connection.moved (hg.old q hq)).trans hmoved
  | handle => exact absurd rfl hne
  | next conn =>
      rw [Threads.step] at hs
      split at hs
      case h_1 t rest htables hloop =>
        split at hs
        case isTrue hmem =>
          split at hs
          case isTrue hsel =>
            cases hs
            refine .of_eq rfl ?_ fun _ _ hq => hq
            rw [chunks, chunks, hloop]
          case isFalse =>
            cases hs
            exact .of_eq rfl rfl fun _ _ hq => hq
        case isFalse => cases hs
      · cases hs
  | endTable =>
      rw [Threads.step] at hs
      split at hs
      · cases hs
        exact .of_eq rfl rfl fun _ _ hq => hq
      · cases hs
  | take =>
      rw [Threads.step, Threads.take] at hs
      split at hs
      case h_1 conn hl =>
        obtain ⟨-, hmoved⟩ := h.chosen conn hl
        dsimp only at hs
        split at hs
        · cases hs
        · split at hs
          · cases hs
          · cases hs
            exact .marked (f := fun c => { input.take c with lock := true }) hl hmoved
              (fun c => (take_marks hraise c).1) (Or.inl rfl)
          · cases hs
            exact .marked hl hmoved (fun c => (take_marks hraise c).1) (Or.inr ⟨_, rfl, rfl⟩)
      · cases hs
  | send =>
      rw [Threads.step] at hs
      split at hs
      case h_1 chunk hloop =>
        cases hs
        refine .of_eq rfl ?_ fun _ _ hq => hq
        rw [chunks, chunks, hloop, List.append_nil]
      · cases hs

/-- A packet that is handled is lost where its connection is marked, and only there. -/
theorem handle_cases (hs : w.handle process = some w') :
    ∃ p conn, w.arrived = some (p, conn) ∧
      ((w.sessions.heap conn).moved = true ∧
          w' = { w with arrived := none, handled := w.handled ++ [⟨conn, p, .discarded⟩] } ∨
        (w.sessions.heap conn).moved = false ∧
          w' = { w with
            sessions := w.sessions.modify conn (process.apply · p)
            arrived := none
            handled := w.handled ++ [⟨conn, p, .processed⟩] }) := by
  rw [Threads.handle] at hs
  split at hs
  · cases hs
  case h_2 p conn ha =>
    refine ⟨p, conn, ha, ?_⟩
    dsimp only at hs
    split at hs
    · cases hs
    · split at hs
      case isTrue hmoved => exact Or.inl ⟨hmoved, (Option.some.inj hs).symm⟩
      case isFalse hmoved => exact Or.inr ⟨Bool.eq_false_iff.mpr hmoved, (Option.some.inj hs).symm⟩

theorem NoneLost.quiet (h : NoneLost w) (ha : Accurate process input w) (hq : Quiet w w') : NoneLost w' := by
  intro x hx hfate
  rw [hq.handled] at hx
  obtain ⟨hmem, hmoved⟩ := h x hx hfate
  refine ⟨fun hnew => ?_, hq.moved _ (ha.handled x hx) hmoved⟩
  rcases hq.taken _ hnew with hold | hnot
  · exact hmem hold
  · rw [hmoved] at hnot
    cases hnot

theorem NoneLost.handle (h : NoneLost w) (hok : Timely w .handle) (hs : w.handle process = some w') :
    NoneLost w' := by
  obtain ⟨p, conn, ha, ⟨hmoved, rfl⟩ | ⟨hmoved, rfl⟩⟩ := handle_cases hs
  · intro x hx hfate
    rcases List.mem_append.mp hx with hx | hx
    · exact h x hx hfate
    · rw [List.mem_singleton.mp hx]
      exact ⟨hok rfl (p, conn) ha, hmoved⟩
  · intro x hx hfate
    rcases List.mem_append.mp hx with hx | hx
    · obtain ⟨hmem, hold⟩ := h x hx hfate
      refine ⟨hmem, ?_⟩
      have hc : x.conn ≠ conn := by
        rintro rfl
        rw [hmoved] at hold
        cases hold
      exact (congrArg Connection.moved (w.sessions.heap_modify_of_ne hc (process.apply · p))).trans hold
    · rw [List.mem_singleton.mp hx] at hfate
      cases hfate

/-- A packet that gets the lock of a connection of the get is lost. -/
theorem Accurate.lost_of_handle (h : Accurate process input w) (hnot : ¬ Timely w .handle)
    (hs : w.handle process = some w') : w'.lost ≠ [] := by
  obtain ⟨p, conn, ha, hcases⟩ := handle_cases hs
  have hmem : conn ∈ w.chunks.map Sent.conn := by
    by_contra hmem
    refine hnot fun _ a hin => ?_
    rw [ha] at hin
    cases hin
    exact hmem
  obtain ⟨chunk, hc, rfl⟩ := List.mem_map.mp hmem
  obtain ⟨before, after, hd⟩ := h.divided chunk.conn (h.sent chunk hc)
  obtain ⟨-, -, hmarked, -⟩ := hd.chunk chunk hc rfl
  rcases hcases with ⟨-, rfl⟩ | ⟨hmoved, -⟩
  · refine lost_ne_nil_iff.mpr ⟨⟨chunk.conn, p, .discarded⟩, ?_, rfl, hmem⟩
    exact List.mem_append_right _ (List.mem_singleton_self _)
  · rw [hmarked] at hmoved
    cases hmoved

/-- What is lost stays lost. -/
theorem lost_ne_nil_of_le (hhandled : w.handled ⊆ w'.handled)
    (hchunks : w.chunks.map Sent.conn ⊆ w'.chunks.map Sent.conn) (h : w.lost ≠ []) : w'.lost ≠ [] := by
  obtain ⟨x, hx, hfate, hconn⟩ := lost_ne_nil_iff.mp h
  exact lost_ne_nil_iff.mpr ⟨x, hhandled hx, hfate, hchunks hconn⟩

theorem Accurate.lost_stays (h : Accurate process input w) (hraise : input.raiseEvents = true)
    (hs : w.step hashBytes process input action = some w') (hlost : w.lost ≠ []) : w'.lost ≠ [] := by
  by_cases hne : action = .handle
  · subst hne
    obtain ⟨p, conn, -, ⟨-, rfl⟩ | ⟨-, rfl⟩⟩ := handle_cases hs
    · exact lost_ne_nil_of_le (List.subset_append_left _ _) (List.Subset.refl _) hlost
    · exact lost_ne_nil_of_le (List.subset_append_left _ _) (List.Subset.refl _) hlost
  · have hq := h.quiet hraise hs hne
    exact lost_ne_nil_of_le (hq.handled ▸ List.Subset.refl _) hq.grown hlost

end Threads

omit [TextArchive]

/-- A get of all connections. -/
def getAll : GetInput := ⟨⟨.zero, fun _ => 0⟩, OFM.Shared.jsonParsePerflowKey .new, 1, true, fun _ => .good⟩

/-- An instance that has seen one packet. -/
def onePacket : NetSessions :=
  ((NetSessions.start fun _ => ipv4Connection .tcp 0 0 0 0).create (fun _ => 0) samplePacket
    ⟨some (ipv4Connection .tcp 0 0 0 0), false, .consistent, false⟩).1

/-- Packets that change nothing. -/
def noProcessing : Processing := ⟨fun c _ => c, fun _ _ => rfl, fun _ _ => rfl, fun _ _ => rfl⟩

/-- A packet is processed. Another one comes to its connection, which is sent before the packet has the
lock. -/
def lateLock : List Action :=
  [.packet samplePacket ⟨none, false, .consistent, false⟩, .handle,
    .packet samplePacket ⟨none, false, .consistent, false⟩, .next 0, .take, .send, .handle]

theorem handedOver_of_run_lateLock : letI := plainArchive
    ∃ w, run (Threads.step (fun _ => 0) noProcessing getAll) (.start getAll onePacket) lateLock = some w ∧
      Threads.HandedOver noProcessing getAll w := by
  let _ := plainArchive
  have hrun : run (Threads.step (fun _ => 0) noProcessing getAll) (.start getAll onePacket) lateLock = some _ := rfl
  exact ⟨_, hrun, handedOver_of_run rfl hrun⟩

end Threads

end OFM.Bro
