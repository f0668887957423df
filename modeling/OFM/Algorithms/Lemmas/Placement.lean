import OFM.Algorithms.Lemmas.Destinations

/-!
# Load balancing with a plan that fits

What load balancing adds to the plan refers to different flows of network functions that have their index as
id, and leaves a plan for which there is room, if there was room for the plan that was there.
-/

namespace OFM.OFMAlgorithm
open OFM.Lib

/-- Ids and destinations are of network functions that there are. -/
structure Algorithms.Valid (s : Algorithms) : Prop where
  ids : IdsIn s.globalVNFinfo.length s.globalVNFinfo
  dst : ∀ tuple ∈ s.migrateInfo, 0 ≤ tuple.dstVNFid ∧ tuple.dstVNFid < s.globalVNFinfo.length

/-- There is room for what is still in the plan. -/
def Algorithms.HasRoom (s : Algorithms) : Prop :=
  Room (size s.globalVNFinfo) (s.migrateInfo.map MigrateTuple.source)

variable {s : Algorithms} {vnfs : List VNFinfo} {avgLoad : ℚ} {allowed : Fault → Prop}

theorem Algorithms.Valid.of_plan {plan : List MigrateTuple} (h : s.Valid)
    (hids : vnfs.map VNFinfo.vnfId = s.globalVNFinfo.map VNFinfo.vnfId)
    (hdst : ∀ tuple ∈ plan, 0 ≤ tuple.dstVNFid ∧ tuple.dstVNFid < s.globalVNFinfo.length) (vnfNum : Int) :
    Algorithms.Valid ⟨plan, vnfs, vnfNum⟩ := by
  have hlen : vnfs.length = s.globalVNFinfo.length := by
    simpa using congrArg List.length hids
  constructor
  · show IdsIn vnfs.length vnfs
    rw [IdsIn, hlen, hids]
    exact h.ids
  · show ∀ tuple ∈ plan, _ ∧ _ < (vnfs.length : Int)
    rw [hlen]
    exact hdst

/-- The plan is carried out, and what is between calls holds again. -/
theorem ends_migrateTotal_valid (hvalid : s.Valid) (hroom : s.HasRoom) :
    Ends InRange (migrateTotal s) fun s' =>
      allFlows s'.globalVNFinfo = allFlows s.globalVNFinfo ∧ s'.Valid := by
  refine (ends_migrateTotal_room hroom hvalid.dst).mono ?_
  rintro ⟨plan, vnfs, vnfNum⟩ ⟨hflows, hids, hperm⟩
  refine ⟨hflows, hvalid.of_plan hids (fun tuple ht => ?_) vnfNum⟩
  exact hvalid.dst tuple (hperm.mem_iff.mp ht)

/-! ## What is planned -/

/-- What load balancing adds to the plan refers to. -/
def freshSources (avgLoad : ℚ) (vnfs : List VNFinfo) : List (Int × Nat) :=
  vnfs.flatMap fun vnf => (planned avgLoad vnf).2.map MigrateTuple.source

theorem mem_planned_source {vnf : VNFinfo} {p : Int × Nat}
    (hp : p ∈ (planned avgLoad vnf).2.map MigrateTuple.source) :
    avgLoad < vnf.loadPercentage ∧ p.1 = vnf.vnfId ∧ p.2 < vnf.flow.length := by
  obtain ⟨tuple, ht, rfl⟩ := List.mem_map.mp hp
  have hplanned := planned_planned avgLoad vnf
  refine ⟨?_, (hplanned.tuples tuple ht).1, hplanned.flowid_lt tuple ht⟩
  by_contra hlight
  rw [planned, if_neg hlight] at ht
  cases ht

/-- The heavy ones have their index as id. -/
def HeavyIndexed (avgLoad : ℚ) (vnfs : List VNFinfo) : Prop :=
  ∀ (i : Nat) (vnf : VNFinfo), vnfs[i]? = some vnf → avgLoad < vnf.loadPercentage → vnf.vnfId = i

theorem nodup_freshSources (h : HeavyIndexed avgLoad vnfs) : (freshSources avgLoad vnfs).Nodup := by
  refine List.nodup_flatMap.mpr ⟨fun vnf _ => ?_, List.pairwise_iff_getElem.mpr ?_⟩
  · refine List.Nodup.of_map Prod.snd ?_
    rw [List.map_map]
    exact (planned_planned avgLoad vnf).flowids
  · intro i j hi hj hij p hp hp'
    obtain ⟨hheavy, hid, -⟩ := mem_planned_source hp
    obtain ⟨hheavy', hid', -⟩ := mem_planned_source hp'
    rw [h i _ (List.getElem?_eq_getElem hi) hheavy] at hid
    rw [h j _ (List.getElem?_eq_getElem hj) hheavy', hid, Int.ofNat_inj] at hid'
    exact absurd hid' hij.ne

theorem room_freshSources (h : HeavyIndexed avgLoad vnfs) : Room (size vnfs) (freshSources avgLoad vnfs) := by
  refine room_of_nodup (nodup_freshSources h) fun p hp => ?_
  obtain ⟨vnf, hvnf, hp⟩ := List.mem_flatMap.mp hp
  obtain ⟨i, hi⟩ := List.getElem?_of_mem hvnf
  obtain ⟨hheavy, hid, hlt⟩ := mem_planned_source hp
  rw [hid, h i vnf hi hheavy, size_eq hi]
  exact hlt

/-- The heavy ones have their index as id and no flow in the plan that is there, for which there is room. -/
structure BalancingFits (s : Algorithms) : Prop where
  room : s.HasRoom
  indexed : HeavyIndexed (averageLoad s.globalVNFinfo) s.globalVNFinfo
  light : ∀ tuple ∈ s.migrateInfo, ∀ (i : Nat) (vnf : VNFinfo), tuple.srcVNFid = i →
    s.globalVNFinfo[i]? = some vnf → ¬ averageLoad s.globalVNFinfo < vnf.loadPercentage

theorem BalancingFits.room_planned (h : BalancingFits s) :
    Room (size s.globalVNFinfo) (s.migrateInfo.map MigrateTuple.source ++
      freshSources (averageLoad s.globalVNFinfo) s.globalVNFinfo) := by
  refine h.room.append (room_freshSources h.indexed) ?_
  rintro p hp q hq he
  obtain ⟨tuple, ht, rfl⟩ := List.mem_map.mp hp
  obtain ⟨vnf, hvnf, hq⟩ := List.mem_flatMap.mp hq
  obtain ⟨i, hi⟩ := List.getElem?_of_mem hvnf
  obtain ⟨hheavy, hid, -⟩ := mem_planned_source hq
  rw [h.indexed i vnf hi hheavy] at hid
  exact h.light tuple ht i vnf (he.trans hid) hi hheavy

/-! ## Nothing in the plan before -/

theorem valid_of_indexed (h : Indexed s.globalVNFinfo) (hplan : s.migrateInfo = []) : s.Valid := by
  refine ⟨fun vnfId hid => ?_, hplan ▸ List.forall_mem_nil _⟩
  obtain ⟨i, hi⟩ := List.getElem?_of_mem hid
  obtain rfl := (indexed_iff s.globalVNFinfo).mp h i vnfId hi
  have hlt := (List.getElem?_eq_some_iff.mp hi).1
  rw [List.length_map] at hlt
  exact ⟨Int.natCast_nonneg i, Int.ofNat_lt.mpr hlt⟩

/-- Nothing is in the plan before the first call. -/
theorem balancingFits_of_nil (h : Indexed s.globalVNFinfo) (hplan : s.migrateInfo = []) : BalancingFits s where
  room := by
    rw [Algorithms.HasRoom, hplan]
    exact List.forall_mem_nil _
  indexed i vnf hi _ := h i vnf hi
  light := hplan ▸ List.forall_mem_nil _

/-! ## The check -/

/-- Where flows are marked and sorted. -/
theorem size_planned (avgLoad : ℚ) (vnfs : List VNFinfo) :
    size (vnfs.map fun vnf => (planned avgLoad vnf).1) = size vnfs := by
  refine size_congr ?_
  rw [List.map_map]
  exact List.map_congr_left fun vnf _ => length_eq_of_keys (planned_planned avgLoad vnf).keys

theorem allFlows_planned (avgLoad : ℚ) (vnfs : List VNFinfo) :
    allFlows (vnfs.map fun vnf => (planned avgLoad vnf).1) = allFlows vnfs := by
  rw [allFlows, allFlows, List.map_map]
  refine congrArg List.sum (List.map_congr_left fun vnf _ => ?_)
  exact Multiset.coe_eq_coe.mpr (planned_planned avgLoad vnf).keys

/-- The heavy ones have been planned. -/
def plannedVNFs (s : Algorithms) : List VNFinfo :=
  s.globalVNFinfo.map fun vnf => (planned (averageLoad s.globalVNFinfo) vnf).1

/-- What `LoadBalancingCheck` has done when it calls `MigrateTotal`. -/
def assigned (s : Algorithms) : Except Fault (List VNFinfo × List MigrateTuple × Nat) := do
  let avgLoad := averageLoad s.globalVNFinfo
  let plan ← sortByFlowRate (plannedVNFs s)
    (s.migrateInfo ++ s.globalVNFinfo.flatMap fun vnf => (planned avgLoad vnf).2)
  (lightVNFs avgLoad s.globalVNFinfo).zipIdx.reverse.foldlM (assignVNF avgLoad) (plannedVNFs s, plan, 0)

theorem loadBalancingCheck_eq (s : Algorithms) : loadBalancingCheck s = assigned s >>= fun st =>
    migrateTotal { s with migrateInfo := st.2.1, globalVNFinfo := st.1 } >>= fun s' =>
      .ok (quotient (variance (s.globalVNFinfo.map VNFinfo.loadPercentage))
        (variance (st.1.map VNFinfo.loadPercentage)), s') := by
  rw [assigned]
  cases hplan : sortByFlowRate (plannedVNFs s) (s.migrateInfo ++ s.globalVNFinfo.flatMap fun vnf =>
      (planned (averageLoad s.globalVNFinfo) vnf).2) with
  | error e =>
      rw [loadBalancingCheck, ← plannedVNFs]
      dsimp only
      rw [hplan]
      rfl
  | ok plan =>
      rw [loadBalancingCheck, ← plannedVNFs]
      dsimp only
      rw [hplan]
      rfl

/-- The tuples have destinations, and refer to what they referred to. -/
structure Placed (s : Algorithms) (st : List VNFinfo × List MigrateTuple × Nat) : Prop where
  carried : st.1.map VNFinfo.carried = (plannedVNFs s).map VNFinfo.carried
  valid : Algorithms.Valid ⟨st.2.1, st.1, s.vnfNum⟩
  room : Algorithms.HasRoom ⟨st.2.1, st.1, s.vnfNum⟩

theorem ends_assigned (hvalid : s.Valid) (hfits : BalancingFits s) :
    Ends allowed (assigned s) (Placed s) := by
  set avgLoad := averageLoad s.globalVNFinfo with havg
  let plan := s.migrateInfo ++ s.globalVNFinfo.flatMap fun vnf => (planned avgLoad vnf).2
  have hids : (plannedVNFs s).map VNFinfo.vnfId = s.globalVNFinfo.map VNFinfo.vnfId := planned_vnfId ..
  have hroom : Room (size (plannedVNFs s)) (plan.map MigrateTuple.source) := by
    rw [List.map_append, List.map_flatMap, plannedVNFs, size_planned]
    exact hfits.room_planned
  refine (ends_sortByFlowRate_room (fun p hp => hroom.lt hp)).bind fun plan' hperm => ?_
  have hroom' := hroom.perm (hperm.map MigrateTuple.source)
  have hlight : ∀ i ∈ lightVNFs avgLoad s.globalVNFinfo, i < (plannedVNFs s).length := by
    intro i hi
    obtain ⟨vnf, hvnf, -⟩ := mem_lightVNFs.mp hi
    rw [plannedVNFs, List.length_map]
    exact (List.getElem?_eq_some_iff.mp hvnf).1
  have hidsIn : IdsIn s.globalVNFinfo.length (plannedVNFs s) := by
    rw [IdsIn, hids]
    exact hvalid.ids
  refine (ends_assignVNFs_room avgLoad hlight hidsIn fun p hp => hroom'.lt hp).mono ?_
  rintro ⟨vnfs', plan'', last⟩ ⟨hcarried, hdestined, hdone⟩
  -- Every tuple has a destination now.
  have hlt : ∀ tuple ∈ plan', tuple.dstVNFid < s.globalVNFinfo.length := by
    intro tuple ht
    rcases List.mem_append.mp (hperm.mem_iff.mp ht) with ht | ht
    · exact (hvalid.dst tuple ht).2
    · obtain ⟨vnf, -, ht⟩ := List.mem_flatMap.mp ht
      rw [((planned_planned avgLoad vnf).tuples tuple ht).2]
      omega
  have hnonneg : ∀ tuple ∈ plan'', 0 ≤ tuple.dstVNFid := by
    by_cases hnil : s.globalVNFinfo = []
    · intro tuple ht
      have hmem := List.mem_map_of_mem (f := MigrateTuple.source) ht
      rw [hdestined.kept.1] at hmem
      obtain ⟨n, vnf, -, -, hvnf, -⟩ := of_lt_size (hroom'.lt hmem)
      simp [plannedVNFs, hnil] at hvnf
    · exact hdone (lightVNFs_ne_nil hnil)
  refine ⟨hcarried, ?_, ?_⟩
  · exact hvalid.of_plan ((vnfId_carried hcarried).trans hids)
      (fun tuple ht => ⟨hnonneg tuple ht, hdestined.lt hlt tuple ht⟩) s.vnfNum
  · show Room (size vnfs') (plan''.map MigrateTuple.source)
    rw [size_carried hcarried, hdestined.kept.1]
    exact hroom'

theorem ends_loadBalancingCheck_room (hvalid : s.Valid) (hfits : BalancingFits s) :
    Ends InRange (loadBalancingCheck s) fun result =>
      allFlows result.2.globalVNFinfo = allFlows s.globalVNFinfo ∧ result.2.Valid := by
  rw [loadBalancingCheck_eq]
  refine (ends_assigned hvalid hfits).bind fun st hst => ?_
  refine (ends_migrateTotal_valid hst.valid hst.room).bind ?_
  rintro s' ⟨hflows, hvalid'⟩
  refine Ends.ok_iff.mpr ⟨hflows.trans ?_, hvalid'⟩
  exact (allFlows_carried hst.carried).trans (allFlows_planned ..)

/-! ## One tuple -/

section Tuples

variable {d f : Nat} {vnfId : Int} {st : Assignment} {tuple : MigrateTuple} {flow : Flowinfo}

/-- The flow fits, or its tuple is at `end`. -/
def Takes (avgLoad : ℚ) (st : Assignment) (f : Nat) (flow : Flowinfo) : Prop :=
  st.dstLoad + flow.flowRate / maxLoad < avgLoad ∨ f = st.last

instance : Decidable (Takes avgLoad st f flow) := inferInstanceAs (Decidable (_ ∨ _))

namespace Assignment

/-- The tuple gets an id. -/
def take (st : Assignment) (f : Nat) (vnfId : Int) (flow : Flowinfo) : Assignment where
  plan := st.plan.modify f fun tuple => { tuple with dstVNFid := vnfId }
  dstLoad := st.dstLoad + flow.flowRate / maxLoad
  last := if f = st.last then st.last + 1 else st.last

/-- The tuple is left with the position 0. -/
def leave (st : Assignment) (f : Nat) : Assignment :=
  { st with plan := st.plan.modify f fun tuple => { tuple with dstVNFid := 0 } }

end Assignment

theorem map_source_modify (plan : List MigrateTuple) (f : Nat) (dst : Int) :
    (plan.modify f fun tuple => { tuple with dstVNFid := dst }).map MigrateTuple.source =
      plan.map MigrateTuple.source := by
  refine List.ext_getElem? fun k => ?_
  rw [List.getElem?_map, List.getElem?_map, List.getElem?_modify]
  cases plan[k]? with
  | none => rfl
  | some tuple => split <;> rfl

@[simp] theorem source_take : (st.take f vnfId flow).plan.map MigrateTuple.source = st.plan.map MigrateTuple.source :=
  map_source_modify ..

/-- What becomes of a tuple. -/
theorem assignTuple_eq (ht : st.plan[f]? = some tuple) (hflow : flowOf vnfs tuple = .ok flow) :
    assignTuple vnfs avgLoad d vnfId st f = .ok (
      if 0 ≤ tuple.dstVNFid then st
      else if Takes avgLoad st f flow then st.take f vnfId flow
      else if d = 0 then st.leave f else st) := by
  rw [assignTuple, get_eq ht, ok_bind]
  split
  · rfl
  · rw [hflow]
    show (if Takes avgLoad st f flow then _ else _) = _
    split
    · refine congrArg Except.ok ?_
      rw [Assignment.take, ite_modify_dst]
    · split
      · rename_i hd
        rw [hd]
        rfl
      · rfl

end Tuples

/-! ## The rounds -/

/-- What every round keeps. -/
structure Round (s : Algorithms) (st : List VNFinfo × List MigrateTuple × Nat) : Prop where
  carried : st.1.map VNFinfo.carried = (plannedVNFs s).map VNFinfo.carried
  sources : (st.2.1.map MigrateTuple.source).Perm (freshSources (averageLoad s.globalVNFinfo) s.globalVNFinfo)

/-- The network function of a round, with its id. -/
theorem Round.light {st : List VNFinfo × List MigrateTuple × Nat} (h : Round s st) {light : Nat × Nat}
    (hlight : light ∈ (lightVNFs (averageLoad s.globalVNFinfo) s.globalVNFinfo).zipIdx) :
    ∃ vnf vnf', s.globalVNFinfo[light.1]? = some vnf ∧ vnf.loadPercentage ≤ averageLoad s.globalVNFinfo ∧
      st.1[light.1]? = some vnf' ∧ vnf'.vnfId = vnf.vnfId := by
  obtain ⟨vnf, hvnf, hle⟩ := mem_lightVNFs.mp (List.fst_mem_of_mem_zipIdx hlight)
  have hids := (vnfId_carried h.carried).trans (planned_vnfId (averageLoad s.globalVNFinfo) s.globalVNFinfo)
  have hlt : light.1 < st.1.length := by
    have hlen := congrArg List.length hids
    rw [List.length_map, List.length_map] at hlen
    rw [hlen]
    exact (List.getElem?_eq_some_iff.mp hvnf).1
  have hget := List.getElem?_eq_getElem hlt
  refine ⟨vnf, _, hvnf, not_lt.mp hle, hget, ?_⟩
  have hid := congrArg (·[light.1]?) hids
  simp only [List.getElem?_map, hget, hvnf, Option.map_some] at hid
  exact Option.some.inj hid

section Rounds

variable (hindexed : Indexed s.globalVNFinfo)

include hindexed

theorem fresh_lt {p : Int × Nat} (hp : p ∈ freshSources (averageLoad s.globalVNFinfo) s.globalVNFinfo) :
    p.2 < size (plannedVNFs s) p.1 := by
  rw [plannedVNFs, size_planned]
  exact (room_freshSources fun i vnf hi _ => hindexed i vnf hi).lt hp

theorem Round.lt {st : List VNFinfo × List MigrateTuple × Nat} (h : Round s st) :
    ∀ p ∈ st.2.1.map MigrateTuple.source, p.2 < size st.1 p.1 := by
  intro p hp
  rw [size_carried h.carried]
  exact fresh_lt hindexed (h.sources.mem_iff.mp hp)

end Rounds

end OFM.OFMAlgorithm
