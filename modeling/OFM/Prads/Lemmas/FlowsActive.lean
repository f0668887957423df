import Mathlib.Algebra.BigOperators.Group.Finset.Basic
import OFM.Prads.Lemmas.Instance
import OFM.Shared.Thresholds

/-!
# How many connections PRADS has

What packets and commands do to the number of connections in the buckets.
-/

namespace OFM.Prads
open OFM.Lib OFM.Shared
open OFM.Controller (JavaString)

/-! ## Flows in PRADS

What PRADS tells the library of the connections in its tables, and how many there are.
-/

section Flows

variable [Macros] [PacketPath] [Serializer]

inductive FlowEvent where
  | packet (stack : ProcessContext) (packet : List (BitVec 8))
  | getPerflow (key : PerflowKey) (id : BitVec 32) (raiseEvents : Bool)
  | putPerflow (key : PerflowKey) (state : Option JavaString)
  | deletePerflow (key : Option PerflowKey)

omit [Serializer] in
/-- What the library is told of a packet from `cx_track` on. -/
def tracked (inst : Instance) (packet : List (BitVec 8)) : List Happening :=
  match PacketPath.parse inst.rest packet with
  | none => [.packetReceived]
  | some pi =>
      if (trackBucket pi (inst.tables.bucket (hash pi))).isNone then [.flowCreated, .packetReceived]
      else [.packetReceived]

omit [Serializer] in
/-- What the library is told during an event. The loop of `local_del_perflow` calls `del_connection` for each
connection. -/
def happenings (u : Undefined) (inst : Instance) : FlowEvent → List Happening
  | .packet stack packet =>
      if (sdmbnPreprocessPacket u inst.filters (inMemory packet) stack).2.1.stop ≠ 0 then []
      else tracked inst packet
  | .getPerflow .. => []
  | .putPerflow _ state => [.put (if state.isNone then -1 else 1)]
  | .deletePerflow none => [.delete (-1)]
  | .deletePerflow (some key) =>
      let deleted := (localDelPerflow key inst.tables).2
      deleted.map (fun _ => .flowDestroyed) ++ [.delete deleted.length]

/-- What is left of an instance after an event, unless a text is missing. -/
def flowStep (u : Undefined) (inst : Instance) : FlowEvent → Option Instance
  | .packet stack packet => some (gotPacket u stack inst packet).1
  | .getPerflow key id raiseEvents =>
      (localGetPerflow u key id raiseEvents inst.tables).toOption.map fun out => { inst with tables := out.1 }
  | .putPerflow key state => some { inst with tables := localPutPerflow key state inst.tables }
  | .deletePerflow none => some inst
  | .deletePerflow (some key) => some { inst with tables := (localDelPerflow key inst.tables).1 }

/-- The connections in the buckets. -/
def flowTables (u : Undefined) : FlowTables Instance FlowEvent where
  flows inst := inst.tables.connections.length
  step inst event := (flowStep u inst event).map fun inst' => (inst', happenings u inst event)

/-- A deletion that is carried out is counted as one more than what it deletes. -/
def FlowEvent.CountsRight : FlowEvent → Prop
  | .deletePerflow key => key = none
  | _ => True

end Flows

variable [Macros] {t t' : Tables} {i : Nat} {new : List Connection}

theorem length_connections (t : Tables) :
    t.connections.length = ∑ h ∈ Finset.range Macros.bucketSize, (t.bucket h).length := by
  rw [Tables.connections, List.length_flatMap]
  rfl

/-- A change of one bucket. -/
theorem connections_update (hi : i < Macros.bucketSize) (ht : t'.bucket = Function.update t.bucket i new) :
    t'.connections.length + (t.bucket i).length = t.connections.length + new.length := by
  have hmem : i ∈ Finset.range Macros.bucketSize := Finset.mem_range.mpr hi
  have hsame : ∑ h ∈ (Finset.range Macros.bucketSize).erase i, (t'.bucket h).length =
      ∑ h ∈ (Finset.range Macros.bucketSize).erase i, (t.bucket h).length := by
    refine Finset.sum_congr rfl fun h hh => ?_
    rw [ht, Function.update_of_ne (Finset.ne_of_mem_erase hh)]
  have hnew : (t'.bucket i).length = new.length := by rw [ht, Function.update_self]
  rw [length_connections, length_connections, ← Finset.add_sum_erase _ _ hmem, hsame, hnew,
    ← Finset.add_sum_erase _ _ hmem]
  omega

section Packets

variable [PacketPath] {inst : Instance} {packet : List (BitVec 8)}

/-- A packet is told to be the first of its flow if a connection is made for it. -/
theorem connections_processPacket : ((processPacket inst packet).1.tables.connections.length : Int) =
    inst.tables.connections.length + adjusted (tracked inst packet) := by
  have hreceived : adjusted [.packetReceived] = 0 := rfl
  have hcreated : adjusted [.flowCreated, .packetReceived] = 1 := rfl
  rw [tracked]
  cases hparse : PacketPath.parse inst.rest packet with
  | none =>
      rw [processPacket_of_unparsed hparse]
      exact (Int.add_zero _).symm
  | some pi =>
      dsimp only
      rcases bucket_cases pi (inst.tables.bucket (hash pi)) with ⟨pre, c, post, tr, hb, hpre, htr⟩ | hall
      · have hfound : (trackBucket pi (inst.tables.bucket (hash pi))).isNone = false := by
          rw [hb, trackBucket_of_some htr hpre]
          rfl
        have hlength := @connections_update _ inst.tables
          (processPacket inst packet).1.tables _ _ (hash_lt pi) (by
            rw [processPacket_of_some hparse hb hpre htr]
            rfl)
        rw [hb] at hlength
        simp only [List.length_append, List.length_cons] at hlength
        rw [hfound, if_neg Bool.false_ne_true, hreceived]
        omega
      · have hnew : (trackBucket pi (inst.tables.bucket (hash pi))).isNone = true := by
          rw [trackBucket_of_none hall]
          rfl
        have hlength := @connections_update _ inst.tables
          (processPacket inst packet).1.tables _ _ (hash_lt pi) (by
            rw [processPacket_of_new hparse hall]
            rfl)
        rw [List.length_cons] at hlength
        rw [hnew, if_pos rfl, hcreated]
        omega

theorem connections_gotPacket (u : Undefined) (stack : ProcessContext) :
    ((gotPacket u stack inst packet).1.tables.connections.length : Int) =
      inst.tables.connections.length + adjusted (happenings u inst (.packet stack packet)) := by
  by_cases hstop : (preprocessed u stack inst packet).2.1.stop = 0
  · have htold : happenings u inst (.packet stack packet) = tracked inst packet := by
      rw [happenings]
      exact if_neg (not_not.mpr hstop)
    rw [gotPacket_of_go hstop, htold]
    exact connections_processPacket
  · have htold : happenings u inst (.packet stack packet) = [] := by
      rw [happenings]
      exact if_pos hstop
    rw [gotPacket_of_stop hstop, htold]
    exact (Int.add_zero _).symm

end Packets

/-! ## Commands -/

section Commands

variable [Serializer]

theorem connections_localGetPerflow {u : Undefined} {key : PerflowKey} {id : BitVec 32} {raiseEvents : Bool}
    {out : Tables × List Sent} (h : localGetPerflow u key id raiseEvents t = .ok out) :
    out.1.connections.length = t.connections.length := by
  rw [getBuckets_ok List.nodup_range h, length_connections, length_connections]
  refine Finset.sum_congr rfl fun h _ => ?_
  rw [Tables.gotten]
  dsimp only
  split
  · exact List.length_map ..
  · rfl

theorem connections_localPutPerflow (key : PerflowKey) (state : JavaString) :
    (localPutPerflow key (some state) t).connections.length = t.connections.length + 1 := by
  have hi : putHash key < Macros.bucketSize := Macros.cxtHash4_lt _ _ _ _ _
  have hlength := @connections_update _ t (localPutPerflow key (some state) t) _ _ hi rfl
  rw [List.length_cons] at hlength
  omega

omit [Serializer] in
theorem connections_localDelPerflow (key : PerflowKey) :
    (localDelPerflow key t).1.connections.length + (localDelPerflow key t).2.length =
      t.connections.length := by
  have hdeleted : (localDelPerflow key t).2.length =
      ∑ h ∈ Finset.range Macros.bucketSize, ((t.bucket h).filter (delSelects key)).length := by
    rw [localDelPerflow, List.length_flatMap]
    rfl
  rw [length_connections, length_connections, hdeleted, ← Finset.sum_add_distrib]
  refine Finset.sum_congr rfl fun h hh => ?_
  rw [localDelPerflow]
  dsimp only
  rw [if_pos (Finset.mem_range.mp hh), Nat.add_comm]
  exact (List.length_eq_length_filter_add _).symm

omit [Macros] [Serializer] in
/-- What a deletion tells the library: every connection that it deletes, and then itself. -/
theorem adjusted_delete (deleted : List Connection) :
    adjusted (deleted.map (fun _ => .flowDestroyed) ++ [.delete deleted.length]) = -deleted.length - 1 := by
  have hdestroyed : ((deleted.map fun _ => Happening.flowDestroyed).map Happening.adjusts).sum =
      -(deleted.length : Int) := by
    rw [List.map_map]
    induction deleted with
    | nil => rfl
    | cons c deleted ih =>
        rw [List.map_cons, List.sum_cons, ih, List.length_cons]
        simp only [Function.comp, Happening.adjusts]
        omega
  have hitself : Happening.adjusts (.delete deleted.length) = -1 := by
    rw [Happening.adjusts, if_neg (Int.not_lt.mpr (Int.natCast_nonneg _))]
  rw [adjusted, List.map_append, List.sum_append, hdestroyed, List.map_singleton, List.sum_singleton,
    hitself]
  rfl

end Commands

/-- An event that counts for as much as it changes. -/
theorem flowTables_step_iff [PacketPath] [Serializer] {u : Undefined} {inst : Instance} {event : FlowEvent}
    {out : Instance × List Happening} (hs : (flowTables u).step inst event = some out) :
    ((flowTables u).flows out.1 : Int) = (flowTables u).flows inst + adjusted out.2 ↔ event.CountsRight := by
  obtain ⟨inst', hstep, rfl⟩ := Option.map_eq_some_iff.mp hs
  cases event with
  | packet stack packet =>
      cases hstep
      exact iff_of_true (connections_gotPacket u stack) trivial
  | getPerflow key id raiseEvents =>
      obtain ⟨r, hr, rfl⟩ := Option.map_eq_some_iff.mp hstep
      have hget : localGetPerflow u key id raiseEvents inst.tables = .ok r := by
        cases hout : localGetPerflow u key id raiseEvents inst.tables with
        | error e =>
            rw [hout] at hr
            cases hr
        | ok r' =>
            rw [hout] at hr
            cases hr
            rfl
      have hlength := connections_localGetPerflow hget
      refine iff_of_true ?_ trivial
      exact (congrArg Nat.cast hlength).trans (Int.add_zero _).symm
  | putPerflow key state =>
      cases hstep
      refine iff_of_true ?_ trivial
      cases state with
      | none => exact (Int.add_zero _).symm
      | some state => exact congrArg Nat.cast (connections_localPutPerflow key state)
  | deletePerflow key =>
      cases key with
      | none =>
          cases hstep
          exact iff_of_true (Int.add_zero _).symm rfl
      | some key =>
          cases hstep
          refine iff_of_false ?_ (Option.some_ne_none key)
          have hlength := connections_localDelPerflow key (t := inst.tables)
          have hadjusted := adjusted_delete (localDelPerflow key inst.tables).2
          rw [happenings, hadjusted, flowTables]
          dsimp only
          omega

end OFM.Prads
