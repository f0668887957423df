import OFM.Algorithms.Distribution
import OFM.Algorithms.Lemmas.Placement
import OFM.Algorithms.Lemmas.Plan
import OFM.Lib.Machine

/-!
# Whether the flows that are migrated may be

Step 2 marks the flows that may be migrated. The mark stays when rate and SLA of the flow change, and the plan stays
when it has been carried out: a later call trusts both.
-/

namespace OFM.OFMAlgorithm
open OFM.Lib

variable {s : Algorithms} {vnfs vnfs' : List VNFinfo} {avgLoad : ℚ} {vnf : VNFinfo} {tuple : MigrateTuple}
  {plan : List MigrateTuple} {flow flow' : Flowinfo} {p q : Int × Nat}

theorem mayMigrate_congr (h : flow'.key = flow.key) : MayMigrate flow' ↔ MayMigrate flow := by
  obtain ⟨hrate, hsla⟩ := Prod.mk.inj h
  rw [MayMigrate, MayMigrate, hrate, hsla]

/-- What is marked may be migrated, if the marks of before are right. -/
theorem mayMigrate_markFlow (h : flow.migrateFlag = true → MayMigrate flow)
    (hmark : (markFlow flow).migrateFlag = true) : MayMigrate (markFlow flow) := by
  rw [mayMigrate_congr (markFlow_key flow)]
  rw [markFlow_eq] at hmark
  split at hmark
  · assumption
  · exact h hmark

/-! ## The flows that are migrated -/

/-- The flows that the loop of `MigrateTotal` migrates, until it ends or an exception ends it. -/
def migratedFlows : List VNFinfo → List MigrateTuple → List Flowinfo
  | _, [] => []
  | vnfs, tuple :: plan =>
      (flowOf vnfs tuple).toOption.toList ++
        match migrateOne vnfs tuple with
        | .ok vnfs => migratedFlows vnfs plan
        | .error _ => []

/-- The flows that a call of `LoadBalancingCheck` migrates. -/
def migratedBy (s : Algorithms) : List Flowinfo :=
  match assigned s with
  | .ok (vnfs, plan, _) =>
      migratedFlows vnfs (plan.insertionSort fun t₁ t₂ => t₁.flowid ≤ t₂.flowid).reverse
  | .error _ => []

/-- Where the loop ends, every tuple has migrated a flow. -/
theorem length_migratedFlows (h : plan.foldlM migrateOne vnfs = .ok vnfs') :
    (migratedFlows vnfs plan).length = plan.length := by
  induction plan generalizing vnfs with
  | nil => rfl
  | cons tuple plan ih =>
      rw [List.foldlM_cons, bind_eq_ok] at h
      obtain ⟨vnfs₁, hone, hrest⟩ := h
      obtain ⟨src, dst, v, w, flow, hsrc, -, hv, -, hflow, -⟩ := (ends_migrateOne vnfs tuple).of_eq hone
      have hof : flowOf vnfs tuple = .ok flow := flowOf_eq_ok.mpr ⟨src, v, hsrc, hv, hflow⟩
      rw [migratedFlows, hone, hof, List.length_append, ih hrest, List.length_cons, Nat.add_comm]
      rfl

/-- A call that returns has migrated as many flows as there are tuples in the plan that it leaves. -/
theorem length_migratedBy {ratio : Option ℚ} {s' : Algorithms} (h : loadBalancingCheck s = .ok (ratio, s')) :
    (migratedBy s).length = s'.migrateInfo.length := by
  rw [loadBalancingCheck_eq, bind_eq_ok] at h
  obtain ⟨⟨vnfs, plan, last⟩, hassigned, h⟩ := h
  obtain ⟨s'', htotal, h⟩ := bind_eq_ok.mp h
  obtain ⟨-, rfl⟩ := Prod.mk.inj (Except.ok.inj h)
  obtain ⟨vnfs', hmigrate, h⟩ := bind_eq_ok.mp htotal
  obtain rfl := Except.ok.inj h
  rw [migratedBy, hassigned]
  exact (length_migratedFlows hmigrate).trans List.length_reverse

/-- The flows of an index. -/
def flowsAt (vnfs : List VNFinfo) (i : Int) : List Flowinfo :=
  match get vnfs i with
  | .ok vnf => vnf.flow
  | .error _ => []

theorem flowsAt_eq {i : Nat} (h : vnfs[i]? = some vnf) : flowsAt vnfs i = vnf.flow := by
  rw [flowsAt, get_eq h]

theorem flowsAt_of_flowOf (h : flowOf vnfs tuple = .ok flow) :
    (flowsAt vnfs tuple.srcVNFid)[tuple.flowid]? = some flow := by
  obtain ⟨src, vnf, hsrc, hvnf, hflow⟩ := flowOf_eq_ok.mp h
  rw [hsrc, flowsAt_eq hvnf, hflow]

theorem flowsAt_carried (h : vnfs'.map VNFinfo.carried = vnfs.map VNFinfo.carried) :
    flowsAt vnfs' = flowsAt vnfs := by
  have hflows : ∀ (vnfs : List VNFinfo) (i : Int), flowsAt vnfs i =
      match get (vnfs.map VNFinfo.carried) i with
      | .ok carried => carried.2
      | .error _ => [] := by
    intro vnfs i
    rw [flowsAt, get_map]
    cases get vnfs i <;> rfl
  funext i
  rw [hflows, hflows vnfs, h]

/-- The flow that is referred to may be migrated, if there is one. -/
def PassesAt (vnfs : List VNFinfo) (p : Int × Nat) : Prop :=
  ∀ flow, (flowsAt vnfs p.1)[p.2]? = some flow → MayMigrate flow

/-- The flow that is referred to and all flows behind it may be migrated. -/
def PassesFrom (vnfs : List VNFinfo) (p : Int × Nat) : Prop :=
  ∀ flow ∈ (flowsAt vnfs p.1).drop p.2, MayMigrate flow

theorem PassesFrom.at (h : PassesFrom vnfs p) : PassesAt vnfs p := by
  intro flow hflow
  refine h flow (List.mem_of_getElem? (i := 0) ?_)
  rw [List.getElem?_drop, Nat.add_zero, hflow]

theorem getElem?_or_mem {α : Type} {l l' : List α} {k : Nat} {a : α} (h : (l ++ l')[k]? = some a) :
    l[k]? = some a ∨ a ∈ l' := by
  rw [List.getElem?_append] at h
  split at h
  · exact Or.inl h
  · exact Or.inr (List.mem_of_getElem? h)

section Migrated

variable {src f dst : Nat} {moved : Flowinfo} {v w : VNFinfo}

theorem flowsAt_migrated (hv : vnfs[src]? = some v) (hf : f < v.flow.length) (hw : vnfs[dst]? = some w) (i : Int) :
    flowsAt (migrated vnfs src f dst moved) i =
      (if i = src then (flowsAt vnfs i).eraseIdx f else flowsAt vnfs i) ++ if i = dst then [moved] else [] := by
  rcases get_cases vnfs i with ⟨n, vnf, rfl, hvnf, -⟩ | hget
  · obtain ⟨vnf', hvnf', hflow⟩ := @flow_migrated vnfs src f dst n moved v vnf hv hf hvnf
    rw [flowsAt_eq hvnf', flowsAt_eq hvnf, hflow]
    simp only [Int.ofNat_inj]
  · have hnone : ∀ k : Nat, i = k → (vnfs[k]? : Option VNFinfo) = none := by
      rintro k rfl
      cases hk : vnfs[k]? with
      | none => rfl
      | some vnf =>
          rw [get_eq hk] at hget
          cases hget
    have hsrc : ¬ i = src := fun he => by
      rw [hnone src he] at hv
      cases hv
    have hdst : ¬ i = dst := fun he => by
      rw [hnone dst he] at hw
      cases hw
    have hflows : flowsAt vnfs i = [] := by
      rw [flowsAt, hget]
    rw [if_neg hsrc, if_neg hdst, hflows, List.append_nil]
    rcases get_cases (migrated vnfs src f dst moved) i with ⟨n, vnf, rfl, hvnf, -⟩ | hget'
    · have hlt := (List.getElem?_eq_some_iff.mp hvnf).1
      rw [length_migrated_vnfs] at hlt
      have hsome := hnone n rfl
      rw [List.getElem?_eq_getElem hlt] at hsome
      cases hsome
    · rw [flowsAt, hget']

variable (hv : vnfs[src]? = some v) (hf : f < v.flow.length) (hw : vnfs[dst]? = some w) (hmoved : MayMigrate moved)

include hv hf hw hmoved

/-- A migration takes a flow away and puts one that may be migrated at the end. -/
theorem PassesFrom.migrated (h : PassesFrom vnfs p) :
    PassesFrom (OFMAlgorithm.migrated vnfs src f dst moved) p := by
  intro flow hflow
  rw [flowsAt_migrated hv hf hw, List.drop_append, List.mem_append] at hflow
  rcases hflow with hflow | hflow
  · split at hflow
    · refine h flow ?_
      obtain ⟨k, hk⟩ := List.getElem?_of_mem hflow
      rw [List.getElem?_drop, List.getElem?_eraseIdx] at hk
      split at hk
      · exact List.mem_of_getElem? (i := k) (by rw [List.getElem?_drop, hk])
      · exact List.mem_of_getElem? (i := k + 1) (by rw [List.getElem?_drop, ← Nat.add_assoc, hk])
    · exact h flow hflow
  · have hmem := List.mem_of_mem_drop hflow
    split at hmem
    · exact List.mem_singleton.mp hmem ▸ hmoved
    · cases hmem

/-- What is referred to before the flow that goes stays where it is. -/
theorem PassesAt.migrated (h : PassesAt vnfs p) (hlt : p.1 = src → p.2 < f) :
    PassesAt (OFMAlgorithm.migrated vnfs src f dst moved) p := by
  have hstay : ∀ flow, (if p.1 = src then (flowsAt vnfs p.1).eraseIdx f else flowsAt vnfs p.1)[p.2]? = some flow →
      MayMigrate flow := by
    intro flow hflow
    split at hflow
    · rename_i hsrc
      rw [List.getElem?_eraseIdx, if_pos (hlt hsrc)] at hflow
      exact h flow hflow
    · exact h flow hflow
  have hnew : ∀ flow ∈ if p.1 = dst then [moved] else [], MayMigrate flow := by
    intro flow hflow
    split at hflow
    · exact List.mem_singleton.mp hflow ▸ hmoved
    · cases hflow
  intro flow hflow
  rw [flowsAt_migrated hv hf hw] at hflow
  rcases getElem?_or_mem hflow with hflow | hflow
  · exact hstay flow hflow
  · exact hnew flow hflow

end Migrated

/-- What is still to be carried out refers to flows that may be migrated. Where a flow is referred to more than
once, this goes for all flows behind it. -/
structure Fit (vnfs : List VNFinfo) (plan : List MigrateTuple) : Prop where
  sorted : plan.Pairwise fun t t' => t'.flowid ≤ t.flowid
  passes : ∀ t ∈ plan, PassesAt vnfs t.source
  again : (plan.map MigrateTuple.source).Pairwise fun p p' => p' = p → PassesFrom vnfs p

theorem Fit.head (h : Fit vnfs (tuple :: plan)) (hflow : flowOf vnfs tuple = .ok flow) : MayMigrate flow :=
  h.passes tuple (List.mem_cons_self ..) flow (flowsAt_of_flowOf hflow)

theorem Fit.tail (h : Fit vnfs (tuple :: plan)) (hmigrate : migrateOne vnfs tuple = .ok vnfs') : Fit vnfs' plan := by
  obtain ⟨src, dst, v, w, flow, hsrc, hdst, hv, hw, hflow, rfl⟩ := (ends_migrateOne vnfs tuple).of_eq hmigrate
  have hf := (List.getElem?_eq_some_iff.mp hflow).1
  have hmay : MayMigrate flow := h.head (flowOf_eq_ok.mpr ⟨src, v, hsrc, hv, hflow⟩)
  have hmoved : MayMigrate { flow with flowid := w.flowNum } := hmay
  obtain ⟨hlater, hsorted⟩ := List.pairwise_cons.mp h.sorted
  obtain ⟨hsame, hagain⟩ := List.pairwise_cons.mp h.again
  refine ⟨hsorted, fun t ht => ?_, hagain.imp fun hfrom he => (hfrom he).migrated hv hf hw hmoved⟩
  by_cases hsource : t.source = tuple.source
  · -- The next flow has moved up.
    have hfrom := (hsame t.source (List.mem_map_of_mem ht) hsource).migrated hv hf hw hmoved
    exact hsource ▸ hfrom.at
  · refine (h.passes t (List.mem_cons_of_mem _ ht)).migrated hv hf hw hmoved fun he => ?_
    refine (hlater t ht).lt_of_ne fun hid => hsource ?_
    exact Prod.ext (he.trans hsrc.symm) hid

theorem mayMigrate_of_fit (h : Fit vnfs plan) : ∀ flow ∈ migratedFlows vnfs plan, MayMigrate flow := by
  induction plan generalizing vnfs with
  | nil =>
      intro flow hflow
      cases hflow
  | cons tuple plan ih =>
      intro flow hflow
      rw [migratedFlows, List.mem_append] at hflow
      rcases hflow with hflow | hflow
      · cases hof : flowOf vnfs tuple with
        | error e =>
            rw [hof] at hflow
            cases hflow
        | ok flow' =>
            rw [hof] at hflow
            obtain rfl := List.mem_singleton.mp hflow
            exact h.head hof
      · cases hone : migrateOne vnfs tuple with
        | error e =>
            rw [hone] at hflow
            cases hflow
        | ok vnfs' =>
            rw [hone] at hflow
            exact ih (h.tail hone) flow hflow

/-! ## What the plan refers to -/

/-- The tuples refer to what the plan of before refers to, and to what has been added. -/
theorem ends_assigned_sources (s : Algorithms) : Ends AnyFault (assigned s) fun st =>
    st.1.map VNFinfo.carried = (plannedVNFs s).map VNFinfo.carried ∧
      (st.2.1.map MigrateTuple.source).Perm (s.migrateInfo.map MigrateTuple.source ++
        freshSources (averageLoad s.globalVNFinfo) s.globalVNFinfo) := by
  rw [assigned]
  refine (ends_sortByFlowRate _ _).bind fun plan hperm => ?_
  refine Ends.foldlM_const (fun st : List VNFinfo × List MigrateTuple × Nat =>
    st.1.map VNFinfo.carried = (plannedVNFs s).map VNFinfo.carried ∧
      (st.2.1.map MigrateTuple.source).Perm (s.migrateInfo.map MigrateTuple.source ++
        freshSources (averageLoad s.globalVNFinfo) s.globalVNFinfo)) ⟨rfl, ?_⟩ ?_
  · have hsources := hperm.map MigrateTuple.source
    rwa [List.map_append, List.map_flatMap] at hsources
  · rintro light - ⟨vnfs, plan', last⟩ ⟨hcarried, hsources⟩
    refine (ends_get vnfs light.1).bind fun vnf _ => ?_
    have hkept : Ends AnyFault ((List.range plan'.length).reverse.foldlM
        (assignTuple vnfs (averageLoad s.globalVNFinfo) light.2 vnf.vnfId) ⟨plan', vnf.loadPercentage, last⟩)
        fun st => Kept plan' st.plan := by
      refine Ends.foldlM_const (fun st : Assignment => Kept plan' st.plan) (Kept.refl plan') ?_
      rintro f - st hst
      exact (ends_assignTuple vnfs _ light.2 vnf.vnfId st f).mono fun st' h => hst.trans h.1
    refine hkept.bind fun st hst => Ends.pure_iff.mpr ⟨(carried_setLoad ..).trans hcarried, ?_⟩
    exact (List.Perm.of_eq hst.1).trans hsources

/-- What is planned refers to flows that are marked. -/
theorem mem_foldl_planFlow {vnfId : Int} {flows : List (Flowinfo × Nat)} {st : ℚ × List MigrateTuple}
    (h : tuple ∈ (flows.foldl (planFlow avgLoad vnfId) st).2) :
    tuple ∈ st.2 ∨ ∃ flow, (flow, tuple.flowid) ∈ flows ∧ flow.migrateFlag = true := by
  induction flows generalizing st with
  | nil => exact Or.inl h
  | cons flow flows ih =>
      rcases ih h with hmem | ⟨flow', hmem, hmark⟩
      · rw [planFlow] at hmem
        split at hmem
        · exact Or.inl hmem
        · rename_i hmark
          split at hmem
          · exact Or.inl hmem
          · rcases List.mem_append.mp hmem with hmem | hmem
            · exact Or.inl hmem
            · obtain rfl := List.mem_singleton.mp hmem
              exact Or.inr ⟨flow.1, List.mem_cons_self .., not_not.mp hmark⟩
      · exact Or.inr ⟨flow', List.mem_cons_of_mem _ hmem, hmark⟩

theorem planned_marked (h : tuple ∈ (planned avgLoad vnf).2) : ∃ flow,
    (planned avgLoad vnf).1.flow[tuple.flowid]? = some flow ∧ flow.migrateFlag = true := by
  rw [planned] at h ⊢
  split
  · rename_i hheavy
    rw [if_pos hheavy] at h
    rcases mem_foldl_planFlow h with hmem | ⟨flow, hmem, hmark⟩
    · cases hmem
    · exact ⟨flow, List.mem_zipIdx_iff_getElem?.mp (List.mem_reverse.mp hmem), hmark⟩
  · rename_i hlight
    rw [if_neg hlight] at h
    cases h

/-- The flows of a heavy network function have been marked and sorted. -/
theorem mem_planned_flow (hheavy : avgLoad < vnf.loadPercentage) (h : flow ∈ (planned avgLoad vnf).1.flow) :
    ∃ flow' ∈ vnf.flow, markFlow flow' = flow := by
  rw [planned, if_pos hheavy] at h
  exact List.mem_map.mp ((List.mem_insertionSort _).mp h)

/-! ## What a call may trust -/

/-- The heavy network functions have their index as id, and what is marked of their flows may be migrated. So may be
all flows of a network function that the plan of before refers to; where it is light, and its flows are not sorted,
those from the first one on that the plan refers to. -/
structure Algorithms.Trusted (s : Algorithms) : Prop where
  indexed : HeavyIndexed (averageLoad s.globalVNFinfo) s.globalVNFinfo
  marked : ∀ vnf ∈ s.globalVNFinfo, averageLoad s.globalVNFinfo < vnf.loadPercentage →
    ∀ flow ∈ vnf.flow, flow.migrateFlag = true → MayMigrate flow
  remaining : ∀ tuple ∈ s.migrateInfo, ∀ vnf ∈ (get s.globalVNFinfo tuple.srcVNFid).toOption,
    ∀ flow ∈ if averageLoad s.globalVNFinfo < vnf.loadPercentage then vnf.flow else vnf.flow.drop tuple.flowid,
      MayMigrate flow

theorem heavyIndexed_iff : HeavyIndexed avgLoad vnfs ↔
    ∀ vnf ∈ vnfs.zipIdx, avgLoad < vnf.1.loadPercentage → vnf.1.vnfId = vnf.2 := by
  simp only [HeavyIndexed, Prod.forall, List.mk_mem_zipIdx_iff_getElem?]
  exact forall_comm

instance : Decidable (HeavyIndexed avgLoad vnfs) := decidable_of_iff' _ heavyIndexed_iff

theorem trusted_iff : s.Trusted ↔ HeavyIndexed (averageLoad s.globalVNFinfo) s.globalVNFinfo ∧
    (∀ vnf ∈ s.globalVNFinfo, averageLoad s.globalVNFinfo < vnf.loadPercentage →
      ∀ flow ∈ vnf.flow, flow.migrateFlag = true → MayMigrate flow) ∧
    ∀ tuple ∈ s.migrateInfo, ∀ vnf ∈ (get s.globalVNFinfo tuple.srcVNFid).toOption,
      ∀ flow ∈ if averageLoad s.globalVNFinfo < vnf.loadPercentage then vnf.flow else vnf.flow.drop tuple.flowid,
        MayMigrate flow :=
  ⟨fun h => ⟨h.indexed, h.marked, h.remaining⟩, fun h => ⟨h.1, h.2.1, h.2.2⟩⟩

instance (s : Algorithms) : Decidable s.Trusted := decidable_of_iff' _ trusted_iff

section Trusted

variable (h : s.Trusted)

include h

/-- What has been added to the plan refers to flows that are marked. -/
theorem Algorithms.Trusted.fresh (hp : p ∈ freshSources (averageLoad s.globalVNFinfo) s.globalVNFinfo) :
    PassesAt (plannedVNFs s) p := by
  obtain ⟨vnf, hvnf, hp⟩ := List.mem_flatMap.mp hp
  obtain ⟨hheavy, hid, -⟩ := mem_planned_source hp
  obtain ⟨tuple, ht, rfl⟩ := List.mem_map.mp hp
  obtain ⟨i, hi⟩ := List.getElem?_of_mem hvnf
  have hplanned : (plannedVNFs s)[i]? = some (planned (averageLoad s.globalVNFinfo) vnf).1 := by
    rw [plannedVNFs, List.getElem?_map, hi]
    rfl
  intro flow hflow
  rw [hid, h.indexed i vnf hi hheavy, flowsAt_eq hplanned] at hflow
  obtain ⟨flow', hflow', hmark⟩ := planned_marked ht
  obtain rfl := Option.some.inj (hflow'.symm.trans hflow)
  obtain ⟨flow, hmem, rfl⟩ := mem_planned_flow hheavy (List.mem_of_getElem? hflow')
  exact mayMigrate_markFlow (h.marked vnf hvnf hheavy flow hmem) hmark

/-- What the plan of before refers to may be migrated, with all that is behind it. -/
theorem Algorithms.Trusted.before (hp : p ∈ s.migrateInfo.map MigrateTuple.source) :
    PassesFrom (plannedVNFs s) p := by
  obtain ⟨tuple, ht, rfl⟩ := List.mem_map.mp hp
  intro flow hflow
  rw [flowsAt, plannedVNFs, MigrateTuple.source, get_map] at hflow
  cases hget : get s.globalVNFinfo tuple.srcVNFid with
  | error e =>
      rw [hget] at hflow
      simp [Except.map] at hflow
  | ok vnf =>
      rw [hget] at hflow
      change flow ∈ (planned (averageLoad s.globalVNFinfo) vnf).1.flow.drop tuple.flowid at hflow
      have hremaining := h.remaining tuple ht vnf (by rw [hget]; rfl)
      by_cases hheavy : averageLoad s.globalVNFinfo < vnf.loadPercentage
      · rw [if_pos hheavy] at hremaining
        obtain ⟨flow', hmem, rfl⟩ := mem_planned_flow hheavy (List.mem_of_mem_drop hflow)
        exact (mayMigrate_congr (markFlow_key flow')).mpr (hremaining flow' hmem)
      · rw [if_neg hheavy] at hremaining
        rw [planned, if_neg hheavy] at hflow
        exact hremaining flow hflow

theorem ends_fit : Ends AnyFault (assigned s) fun st =>
    Fit st.1 (st.2.1.insertionSort fun t₁ t₂ => t₁.flowid ≤ t₂.flowid).reverse := by
  refine (ends_assigned_sources s).mono ?_
  rintro ⟨vnfs, plan, last⟩ ⟨hcarried, hsources⟩
  have hflows : flowsAt vnfs = flowsAt (plannedVNFs s) := flowsAt_carried hcarried
  have hperm := ((List.reverse_perm _).trans (List.perm_insertionSort
    (fun t₁ t₂ : MigrateTuple => t₁.flowid ≤ t₂.flowid) plan)).map MigrateTuple.source |>.trans hsources
  have hfrom : ∀ p ∈ s.migrateInfo.map MigrateTuple.source, PassesFrom vnfs p := by
    intro p hp
    rw [PassesFrom, hflows]
    exact h.before hp
  refine ⟨?_, fun t ht => ?_, ?_⟩
  · rw [List.pairwise_reverse]
    exact List.pairwise_insertionSort _ _
  · rcases List.mem_append.mp (hperm.mem_iff.mp (List.mem_map_of_mem ht)) with hp | hp
    · exact (hfrom _ hp).at
    · rw [PassesAt, hflows]
      exact h.fresh hp
  · have hsymm : ∀ {p p' : Int × Nat}, (p' = p → PassesFrom vnfs p) → p = p' → PassesFrom vnfs p' :=
      fun hp he => he ▸ hp he.symm
    refine (hperm.pairwise_iff hsymm).mpr (List.pairwise_append.mpr ⟨?_, ?_, fun p hp _ _ _ => hfrom p hp⟩)
    · exact List.pairwise_of_forall_mem_list fun p hp _ _ _ => hfrom p hp
    · exact (nodup_freshSources h.indexed).imp fun hne he => absurd he.symm hne

/-- A call migrates only flows that may be migrated. -/
theorem mayMigrate_of_trusted : ∀ flow ∈ migratedBy s, MayMigrate flow := by
  rw [migratedBy]
  cases hassigned : assigned s with
  | error e =>
      intro flow hflow
      cases hflow
  | ok st => exact mayMigrate_of_fit ((ends_fit h).of_eq hassigned)

end Trusted

/-! ## Runs -/

/-- What happens to an object. A call that ends with an exception may leave anything. -/
inductive Event
  /-- Rate and SLA of a flow are set. -/
  | update (i f : Nat) (flowRate sla : ℚ)
  /-- `Refresh()` of a network function. -/
  | refresh (i : Nat)
  | loadBalancing (left : Algorithms)

namespace Event

def step (s : Algorithms) : Event → Option Algorithms
  | .update i f flowRate sla =>
      some { s with globalVNFinfo := s.globalVNFinfo.modify i fun vnf =>
        { vnf with flow := vnf.flow.modify f fun flow => { flow with flowRate, sla } } }
  | .refresh i => some { s with globalVNFinfo := s.globalVNFinfo.modify i VNFinfo.refresh }
  | .loadBalancing left =>
      match loadBalancingCheck s with
      | .ok (_, s) => some s
      | .error _ => some left

/-- A call finds what it may trust. -/
def Trusts (s : Algorithms) : Event → Prop
  | .loadBalancing _ => s.Trusted
  | _ => True

/-- A call migrates only flows that pass the tests when it is made. -/
def Passes (s : Algorithms) : Event → Prop
  | .loadBalancing _ => ∀ flow ∈ migratedBy s, MayMigrate flow
  | _ => True

instance (s : Algorithms) : (event : Event) → Decidable (event.Trusts s)
  | .update .. => .isTrue trivial
  | .refresh _ => .isTrue trivial
  | .loadBalancing _ => inferInstanceAs (Decidable s.Trusted)

instance (s : Algorithms) : (event : Event) → Decidable (event.Passes s)
  | .update .. => .isTrue trivial
  | .refresh _ => .isTrue trivial
  | .loadBalancing _ => inferInstanceAs (Decidable (∀ flow ∈ migratedBy s, MayMigrate flow))

end Event

/-- In every run whose calls find what they may trust, all flows that are migrated pass the tests. -/
theorem passes_of_trusts (s : Algorithms) (events : List Event)
    (h : Machine.Along Event.step (fun s event => event.Trusts s) s events) :
    Machine.Along Event.step (fun s event => event.Passes s) s events := by
  intro pre event suf t he ht
  have htrusts := h pre event suf t he ht
  cases event with
  | update i f flowRate sla => trivial
  | refresh i => trivial
  | loadBalancing left => exact mayMigrate_of_trusted htrusts

/-- Two flows on the first of two network functions, one of which may be migrated. -/
def unequal : Algorithms where
  migrateInfo := []
  globalVNFinfo :=
    [{ VNFinfo.new with flow := [⟨30, 100, 0, false⟩, ⟨0, 0, 1, false⟩] }.refresh, { VNFinfo.new with vnfId := 1 }]
  vnfNum := 2

/-- The other one may be migrated later, too. -/
theorem passes_of_trusts_unequal : Machine.Along Event.step (fun s event => event.Passes s) unequal
    [.loadBalancing unequal, .update 0 0 10 100, .refresh 0, .loadBalancing unequal, .loadBalancing unequal] :=
  passes_of_trusts unequal _ (by decide +kernel)

/-- The first one has been marked and may not be migrated any more. -/
theorem not_passes_unequal : ¬ Machine.Along Event.step (fun s event => event.Passes s) unequal
    [.loadBalancing unequal, .update 0 1 10 0, .update 0 0 20 0, .refresh 0, .loadBalancing unequal] := by
  decide +kernel

end OFM.OFMAlgorithm
