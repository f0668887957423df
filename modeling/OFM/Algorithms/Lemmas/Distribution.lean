import OFM.Algorithms.Distribution
import OFM.Algorithms.Lemmas.Loads

/-!
# Load balancing and the distribution of flows

Load balancing plans the flows that leave, and its rounds give each tuple the id of the light network function that
its flow goes to; where there is none, the tuple is left with the position 0.
-/

namespace OFM.OFMAlgorithm
open OFM.Lib

variable {s : Algorithms} {avgLoad : ℚ} {vnf : VNFinfo} {vnfs : List VNFinfo} {plan : List MigrateTuple}
  {allowed : Fault → Prop}

/-! ## What is planned -/

theorem length_byRate (vnf : VNFinfo) : (byRate vnf).length = vnf.flow.length := by
  rw [byRate, List.length_insertionSort]

theorem flowRate_markFlow (flow : Flowinfo) : (markFlow flow).flowRate = flow.flowRate :=
  congrArg Prod.fst (markFlow_key flow)

theorem migrateFlag_markFlow (flow : Flowinfo) : (markFlow flow).migrateFlag = mayLeave flow := by
  rw [markFlow_eq, mayLeave]
  split
  · rename_i hmay
    simp [hmay]
  · rename_i hnot
    simp [hnot]

/-- The marks do not matter for the order. -/
theorem insertionSort_markFlow (vnf : VNFinfo) :
    (vnf.flow.map markFlow).insertionSort (fun f₁ f₂ => f₁.flowRate ≤ f₂.flowRate) = (byRate vnf).map markFlow := by
  refine (List.map_insertionSort _ _ _ _ fun f _ f' _ => ?_).symm
  rw [flowRate_markFlow, flowRate_markFlow]

theorem rateAt_byRate (vnf : VNFinfo) (k : Nat) : rateAt ((byRate vnf).map markFlow) k = (flowAt vnf k).flowRate := by
  rw [rateAt, flowAt, List.getElem?_map]
  cases (byRate vnf)[k]? with
  | none => rfl
  | some flow => exact flowRate_markFlow flow

theorem reverse_zipIdx_byRate (vnf : VNFinfo) : ((byRate vnf).map markFlow).zipIdx.reverse =
    (List.range vnf.flow.length).reverse.map fun k => (markFlow (flowAt vnf k), k) := by
  rw [List.map_reverse, ← length_byRate]
  refine congrArg List.reverse (List.ext_getElem? fun k => ?_)
  rw [List.getElem?_zipIdx, List.getElem?_map, List.getElem?_map]
  cases hk : (byRate vnf)[k]? with
  | none =>
      rw [List.getElem?_eq_none (by simpa using List.getElem?_eq_none_iff.mp hk)]
      rfl
  | some flow =>
      rw [List.getElem?_range (List.getElem?_eq_some_iff.mp hk).1]
      simp [flowAt, hk]

/-- The flows that leave are planned. -/
theorem planned_eq (hheavy : avgLoad < vnf.loadPercentage) {chosen : Nat → Bool} (h : Leave avgLoad vnf chosen) :
    (planned avgLoad vnf).1.flow = (byRate vnf).map markFlow ∧ (planned avgLoad vnf).2 =
      ((List.range vnf.flow.length).filter chosen).reverse.map fun k => ⟨vnf.vnfId, k, -1⟩ := by
  have hscan := Greedy.Chosen.scan_eq h vnf.flow.length le_rfl
  have hstart : Greedy.leftFrom (shareAt vnf) vnf.loadPercentage vnf.flow.length chosen vnf.flow.length =
      vnf.loadPercentage := by
    simp [Greedy.leftFrom]
  have hmay : (mayMigrate ∘ fun k => (markFlow (flowAt vnf k), k)) = fun k => mayLeave (flowAt vnf k) := by
    funext k
    exact migrateFlag_markFlow _
  have hsize : (share ∘ fun k => (markFlow (flowAt vnf k), k)) = shareAt vnf := by
    funext k
    exact congrArg (· / maxLoad) (flowRate_markFlow _)
  rw [hstart] at hscan
  rw [planned, if_pos hheavy, planVNF, insertionSort_markFlow]
  dsimp only
  rw [foldl_planFlow_eq, List.nil_append, selected, reverse_zipIdx_byRate, Greedy.scan_map, List.map_map, hmay, hsize,
    hscan]
  exact ⟨rfl, rfl⟩

/-- The loads of what is planned are those of the flows that leave. -/
theorem leaving_perm {chosen : Nat → Bool} (h : avgLoad < vnf.loadPercentage → Leave avgLoad vnf chosen) :
    (leaving avgLoad chosen vnf).Perm
      ((planned avgLoad vnf).2.map fun tuple => rateAt (planned avgLoad vnf).1.flow tuple.flowid / maxLoad) := by
  rw [leaving]
  split
  · rename_i hheavy
    obtain ⟨hflow, hplan⟩ := planned_eq hheavy (h hheavy)
    rw [hflow, hplan, List.map_map]
    have hshare : (fun tuple : MigrateTuple => rateAt ((byRate vnf).map markFlow) tuple.flowid / maxLoad) ∘
        (fun k => ⟨vnf.vnfId, k, -1⟩) = shareAt vnf := by
      funext k
      exact congrArg (· / maxLoad) (rateAt_byRate vnf k)
    rw [hshare]
    exact ((List.reverse_perm _).map _).symm
  · rename_i hlight
    rw [planned, if_neg hlight]
    exact List.Perm.refl _

/-- The tuples are sorted by the loads of their flows. -/
theorem ends_sortByFlowRate_sorted (vnfs : List VNFinfo) (plan : List MigrateTuple) :
    Ends AnyFault (sortByFlowRate vnfs plan) fun plan' =>
      plan'.Pairwise fun t t' => loadOf vnfs t.source ≤ loadOf vnfs t'.source := by
  refine Ends.ite (fun hlength => ?_) fun hlength => ?_
  · match plan, hlength with
    | [], _ => exact List.Pairwise.nil
    | [_], _ => exact List.pairwise_singleton _ _
  · clear hlength
    refine Ends.bind (P := fun rated : List (ℚ × MigrateTuple) =>
      ∀ r ∈ rated, loadOf vnfs r.2.source = r.1 / maxLoad) ?_ fun rated hrated => ?_
    · refine (Ends.mapM (R := fun _ r => loadOf vnfs r.2.source = r.1 / maxLoad) fun tuple _ => ?_).mono ?_
      · cases hflow : flowOf vnfs tuple with
        | error e => trivial
        | ok flow => exact loadOf_source hflow
      · intro rated h
        induction h with
        | nil => exact List.forall_mem_nil _
        | cons hload _ ih => exact List.forall_mem_cons.mpr ⟨hload, ih⟩
    · refine List.pairwise_map.mpr (List.Pairwise.imp_of_mem ?_ (List.pairwise_insertionSort _ rated))
      intro r r' hr hr' hle
      rw [hrated r ((List.mem_insertionSort _).mp hr), hrated r' ((List.mem_insertionSort _).mp hr')]
      exact div_le_div_of_nonneg_right hle maxLoad_pos.le

/-! ## The tuples in the beginning -/

/-- The sorted plan, before the first round. -/
structure Distribution.Begins (d : Distribution s) (plan : List MigrateTuple) : Prop where
  sources : (plan.map MigrateTuple.source).Perm (freshSources (averageLoad s.globalVNFinfo) s.globalVNFinfo)
  shares : plan.map (fun tuple => loadOf (plannedVNFs s) tuple.source) = d.shares
  none : ∀ tuple ∈ plan, tuple.dstVNFid = -1

theorem nonempty_distribution (s : Algorithms) : Nonempty (Distribution s) := by
  choose chosen hchosen using fun vnf : VNFinfo => Greedy.exists_chosen (fun k => mayLeave (flowAt vnf k))
    (shareAt vnf) (averageLoad s.globalVNFinfo) vnf.loadPercentage vnf.flow.length
  let chosenAt : Nat → Nat → Bool := fun i => ((s.globalVNFinfo[i]?).map chosen).getD fun _ => false
  let shares := (s.globalVNFinfo.zipIdx.flatMap fun vnf =>
    leaving (averageLoad s.globalVNFinfo) (chosenAt vnf.2) vnf.1).insertionSort (· ≤ ·)
  exact ⟨{
    chosen := chosenAt
    leave := fun i vnf hi _ => by
      simp only [chosenAt, hi, Option.map_some, Option.getD_some]
      exact hchosen vnf
    shares
    sorted := List.pairwise_insertionSort _ _
    perm := List.perm_insertionSort _ _
    goes := (room s shares).place
    firstFit := Packing.firstFit_place _ }⟩

section Begins

variable (hindexed : Indexed s.globalVNFinfo) (hplan : s.migrateInfo = []) (d : Distribution s)

include hindexed

/-- The loads of all that is planned. -/
theorem Distribution.perm_fresh : (((s.globalVNFinfo.flatMap fun vnf =>
    (planned (averageLoad s.globalVNFinfo) vnf).2)).map fun tuple => loadOf (plannedVNFs s) tuple.source).Perm
      d.shares := by
  refine List.Perm.trans ?_ d.perm.symm
  rw [← List.zipIdx_map_fst 0 s.globalVNFinfo, List.flatMap_map, List.map_flatMap, List.zipIdx_map_fst]
  refine List.Perm.flatMap_left _ fun vnf hvnf => ?_
  obtain ⟨vnf, i⟩ := vnf
  have hi : s.globalVNFinfo[i]? = some vnf := List.mem_zipIdx_iff_getElem?.mp hvnf
  refine List.Perm.trans (List.Perm.of_eq (List.map_congr_left fun tuple ht => ?_))
    (leaving_perm (d.leave i vnf hi)).symm
  have hplanned : (plannedVNFs s)[i]? = some (planned (averageLoad s.globalVNFinfo) vnf).1 := by
    rw [plannedVNFs, List.getElem?_map, hi]
    rfl
  rw [MigrateTuple.source, ((planned_planned _ vnf).tuples tuple ht).1, hindexed i vnf hi, loadOf_eq hplanned]

include hplan

theorem Distribution.exists_begins : ∃ plan, sortByFlowRate (plannedVNFs s) (s.migrateInfo ++
    s.globalVNFinfo.flatMap fun vnf => (planned (averageLoad s.globalVNFinfo) vnf).2) = .ok plan ∧
      d.Begins plan := by
  set fresh := s.globalVNFinfo.flatMap fun vnf => (planned (averageLoad s.globalVNFinfo) vnf).2 with hfresh
  rw [hplan, List.nil_append]
  have hsource : fresh.map MigrateTuple.source = freshSources (averageLoad s.globalVNFinfo) s.globalVNFinfo :=
    List.map_flatMap ..
  have hroom : ∀ p ∈ fresh.map MigrateTuple.source, p.2 < size (plannedVNFs s) p.1 :=
    fun p hp => fresh_lt hindexed (hsource ▸ hp)
  obtain ⟨plan, heq, hperm⟩ := ok_of_never (ends_sortByFlowRate_room hroom)
  have hsorted := (ends_sortByFlowRate_sorted (plannedVNFs s) fresh).of_eq heq
  refine ⟨plan, heq, hsource ▸ hperm.map _, ?_, fun tuple ht => ?_⟩
  · have hloads := (hperm.map fun tuple => loadOf (plannedVNFs s) tuple.source).trans (d.perm_fresh hindexed)
    exact hloads.eq_of_pairwise' (List.pairwise_map.mpr hsorted) d.sorted
  · obtain ⟨vnf, -, hmem⟩ := List.mem_flatMap.mp (hperm.mem_iff.mp ht)
    exact ((planned_planned _ vnf).tuples tuple hmem).2

end Begins

/-! ## One tuple -/

namespace Distribution

variable {d : Distribution s} {j k f r last : Nat}

/-- The id that the tuple of a flow gets; where there is no room, the position 0. -/
def dst (d : Distribution s) (f : Nat) : Nat :=
  (((List.range (lightOnes s).length).find? fun k => d.goes k f).bind fun k => (lightOnes s)[k]?).getD 0

/-- The tuple has been given its id. -/
def Given (d : Distribution s) (k r f : Nat) : Prop :=
  (∃ j < k, d.goes j f) ∨ (lightOnes s).length ≤ k ∨ r ≤ f ∧ (d.goes k f ∨ k + 1 = (lightOnes s).length)

instance (d : Distribution s) (k r f : Nat) : Decidable (d.Given k r f) :=
  inferInstanceAs (Decidable ((∃ j < k, d.goes j f = true) ∨ _ ∨ _))

/-- The tuples in the round `k`, when those from a position on have been looked at. -/
def planAt (d : Distribution s) (plan : List MigrateTuple) (k r : Nat) : List MigrateTuple :=
  plan.mapIdx fun f tuple => { tuple with dstVNFid := if d.Given k r f then (d.dst f : Int) else -1 }

def stateAt (d : Distribution s) (plan : List MigrateTuple) (k r last : Nat) : Assignment where
  plan := d.planAt plan k r
  dstLoad := (room s d.shares).filled d.goes k r
  last := last

theorem unique (hf : f < d.shares.length) (hj : d.goes j f) (hk : d.goes k f) : j = k :=
  d.firstFit.unique hf hj hk

theorem dst_eq (hf : f < d.shares.length) (hk : k < (lightOnes s).length) (hgoes : d.goes k f) :
    d.dst f = (lightOnes s)[k] := by
  rw [dst]
  cases hfind : (List.range (lightOnes s).length).find? fun k => d.goes k f with
  | none => exact absurd hgoes (List.find?_eq_none.mp hfind k (List.mem_range.mpr hk))
  | some j =>
      have hj := List.find?_some hfind
      obtain rfl := unique hf hj hgoes
      rw [Option.bind_some, List.getElem?_eq_getElem hk, Option.getD_some]

theorem dst_eq_zero (h : ¬ d.Placed f) : d.dst f = 0 := by
  rw [dst]
  cases hfind : (List.range (lightOnes s).length).find? fun k => d.goes k f with
  | none => rfl
  | some j =>
      have hj := List.find?_some hfind
      exact absurd ⟨j, List.mem_range.mp (List.mem_of_find?_eq_some hfind), hj⟩ h

theorem getElem?_planAt {tuple : MigrateTuple} (hf : plan[f]? = some tuple) : (d.planAt plan k r)[f]? =
    some { tuple with dstVNFid := if d.Given k r f then (d.dst f : Int) else -1 } := by
  rw [planAt, List.getElem?_mapIdx, hf]
  rfl

/-- Where nothing but the destination of one tuple changes. -/
theorem planAt_modify {r' : Nat} {dst : Int} (hsame : ∀ g, g ≠ f → (d.Given k r g ↔ d.Given k r' g))
    (hdst : dst = if d.Given k r' f then (d.dst f : Int) else -1) :
    ((d.planAt plan k r).modify f fun tuple => { tuple with dstVNFid := dst }) = d.planAt plan k r' := by
  refine List.ext_getElem? fun g => ?_
  rw [List.getElem?_modify, planAt, planAt, List.getElem?_mapIdx, List.getElem?_mapIdx]
  cases plan[g]? with
  | none => rfl
  | some tuple =>
      by_cases hg : f = g
      · subst hg
        simp [hdst]
      · simp [hg, hsame g (Ne.symm hg)]

theorem planAt_congr {k' r' : Nat} (hsame : ∀ g < plan.length, (d.Given k r g ↔ d.Given k' r' g)) :
    d.planAt plan k r = d.planAt plan k' r' := by
  refine List.ext_getElem? fun g => ?_
  rw [planAt, planAt, List.getElem?_mapIdx, List.getElem?_mapIdx]
  cases hg : plan[g]? with
  | none => rfl
  | some tuple => simp [hsame g (List.getElem?_eq_some_iff.mp hg).1]

/-- A tuple is looked at: it is given its id if the flow goes to the light one of the round, or in the last round. -/
theorem assignTuple_stateAt {tuple : MigrateTuple} {flow : Flowinfo} (hlength : plan.length = d.shares.length)
    (hk : k < (lightOnes s).length) (ht : plan[f]? = some tuple) (hflow : flowOf vnfs tuple = .ok flow)
    (hshare : flow.flowRate / maxLoad = d.shares.getD f 0)
    (hcounts : Packing.Counts d.shares.length d.goes k (f + 1) last) :
    assignTuple vnfs (averageLoad s.globalVNFinfo) ((lightOnes s).length - 1 - k) (lightOnes s)[k]
      (d.stateAt plan k (f + 1) last) f =
        .ok (d.stateAt plan k f (if d.goes k f ∧ f = last then last + 1 else last)) := by
  have hf : f < d.shares.length := hlength ▸ (List.getElem?_eq_some_iff.mp ht).1
  have hothers : ∀ g, g ≠ f → (d.Given k (f + 1) g ↔ d.Given k f g) := by
    intro g hg
    have hle : f + 1 ≤ g ↔ f ≤ g := by omega
    rw [Given, Given, hle]
  have hlt : ¬ (lightOnes s).length ≤ k := not_le.mpr hk
  have hgiven : d.Given k (f + 1) f ↔ ∃ j < k, d.goes j f := by
    simp [Given, hlt]
  have hfilled : (room s d.shares).filled d.goes k f =
      (room s d.shares).filled d.goes k (f + 1) + if d.goes k f then d.shares.getD f 0 else 0 :=
    Packing.filled_step hf
  have hflow' : flowOf vnfs { tuple with dstVNFid := if d.Given k (f + 1) f then (d.dst f : Int) else -1 } =
      .ok flow := hflow
  rw [assignTuple_eq (getElem?_planAt ht) hflow']
  by_cases hearlier : ∃ j < k, d.goes j f
  · -- It has its id from an earlier round.
    obtain ⟨j, hj, hgoes⟩ := hearlier
    have hno : ¬ d.goes k f := fun h => hj.ne (unique hf hgoes h)
    rw [if_pos (hgiven.mpr ⟨j, hj, hgoes⟩), if_pos (Int.natCast_nonneg _), if_neg fun h => hno h.1]
    rw [if_neg hno, add_zero] at hfilled
    refine congrArg Except.ok ?_
    rw [stateAt, stateAt, hfilled]
    refine congrArg (Assignment.mk · _ _) (planAt_congr fun g _ => ?_)
    by_cases hg : g = f
    · subst hg
      exact iff_of_true (Or.inl ⟨j, hj, hgoes⟩) (Or.inl ⟨j, hj, hgoes⟩)
    · exact hothers g hg
  · rw [if_neg (mt hgiven.mp hearlier), if_neg (by decide : ¬ (0 : Int) ≤ -1)]
    have hnone : ∀ j < k, ¬ d.goes j f := fun j hj hgoes => hearlier ⟨j, hj, hgoes⟩
    have hgoes : Takes (averageLoad s.globalVNFinfo) (d.stateAt plan k (f + 1) last) f flow ↔ d.goes k f := by
      rw [d.firstFit k f hf, and_iff_right hnone, Takes, hshare]
      exact or_congr_right (hcounts.due_iff hf hnone)
    by_cases hgo : d.goes k f
    · have hgiven' : d.Given k f f := Or.inr (Or.inr ⟨le_rfl, Or.inl hgo⟩)
      rw [if_pos (hgoes.mpr hgo), Assignment.take, stateAt, stateAt, hfilled, if_pos hgo, hshare]
      simp only [hgo, true_and]
      refine congrArg (fun plan => Except.ok (Assignment.mk plan _ _)) (planAt_modify hothers ?_)
      rw [if_pos hgiven', dst_eq hf hk hgo]
    · have hstay : (if d.goes k f ∧ f = last then last + 1 else last) = last := if_neg fun h => hgo h.1
      rw [if_neg hgo, add_zero] at hfilled
      rw [if_neg (mt hgoes.mp hgo), hstay, stateAt, stateAt, hfilled]
      by_cases hlast : k + 1 = (lightOnes s).length
      · -- In the last round it is left.
        have hgiven' : d.Given k f f := Or.inr (Or.inr ⟨le_rfl, Or.inr hlast⟩)
        have hplaced : ¬ d.Placed f := by
          rintro ⟨j, hj, hj'⟩
          rcases Nat.lt_succ_iff_lt_or_eq.mp (hlast ▸ hj) with hlt | rfl
          · exact hnone j hlt hj'
          · exact hgo hj'
        rw [if_pos (by omega), Assignment.leave]
        refine congrArg (fun plan => Except.ok (Assignment.mk plan _ _)) (planAt_modify hothers ?_)
        rw [if_pos hgiven', dst_eq_zero hplaced]
        rfl
      · rw [if_neg (by omega)]
        refine congrArg (fun plan => Except.ok (Assignment.mk plan _ _)) (planAt_congr fun g _ => ?_)
        by_cases hg : g = f
        · subst hg
          simp [Given, hgo, hlast, hlt]
        · exact hothers g hg

/-! ## The rounds -/

theorem Begins.length_eq (h : d.Begins plan) : plan.length = d.shares.length := by
  rw [← h.shares, List.length_map]

/-- The flows of the tuples are there, with their loads. -/
theorem Begins.flow (h : d.Begins plan) (hindexed : Indexed s.globalVNFinfo) {tuple : MigrateTuple}
    (ht : plan[f]? = some tuple) : ∃ flow, flowOf (plannedVNFs s) tuple = .ok flow ∧
      flow.flowRate / maxLoad = d.shares.getD f 0 := by
  have hmem := List.mem_map_of_mem (f := MigrateTuple.source) (List.mem_of_getElem? ht)
  obtain ⟨flow, hflow, -⟩ := ok_of_never (ends_flowOf (fresh_lt hindexed (h.sources.mem_iff.mp hmem)))
  refine ⟨flow, hflow, ?_⟩
  rw [← loadOf_source hflow, List.getD_eq_getElem?_getD, ← h.shares, List.getElem?_map, ht]
  rfl

theorem assignTuples_stateAt (h : d.Begins plan) (hindexed : Indexed s.globalVNFinfo)
    (hcarried : vnfs.map VNFinfo.carried = (plannedVNFs s).map VNFinfo.carried) (hk : k < (lightOnes s).length)
    (hr : r ≤ d.shares.length) (hcounts : Packing.Counts d.shares.length d.goes k r last) :
    ∃ last', (List.range r).reverse.foldlM (assignTuple vnfs (averageLoad s.globalVNFinfo)
        ((lightOnes s).length - 1 - k) (lightOnes s)[k]) (d.stateAt plan k r last) = .ok (d.stateAt plan k 0 last') ∧
      Packing.Counts d.shares.length d.goes k 0 last' := by
  induction r generalizing last with
  | zero => exact ⟨last, rfl, hcounts⟩
  | succ r ih =>
      have ht := List.getElem?_eq_getElem (h.length_eq ▸ hr : r < plan.length)
      obtain ⟨flow, hflow, hshare⟩ := h.flow hindexed ht
      rw [List.range_succ, List.reverse_append, List.reverse_singleton, List.singleton_append, List.foldlM_cons,
        assignTuple_stateAt h.length_eq hk ht (flowOf_carried hcarried hflow) hshare hcounts, ok_bind]
      exact ih (Nat.le_of_succ_le hr) (Packing.Counts.step hcounts d.firstFit hr)

/-- What is there before the round `k`. -/
structure Follows (d : Distribution s) (plan : List MigrateTuple) (k : Nat)
    (st : List VNFinfo × List MigrateTuple × Nat) : Prop where
  carried : st.1.map VNFinfo.carried = (plannedVNFs s).map VNFinfo.carried
  plan : st.2.1 = d.planAt plan k d.shares.length
  counts : Packing.Counts d.shares.length d.goes k d.shares.length st.2.2
  loads : ∀ (i : Nat) (vnf : VNFinfo), (plannedVNFs s)[i]? = some vnf → ∃ vnf', st.1[i]? = some vnf' ∧
    vnf'.loadPercentage = vnf.loadPercentage + ∑ j ∈ Finset.range k with (lightOnes s)[j]? = some i, d.taken j

/-- They are the list of the check, from its end. -/
theorem lightOnes_eq (s : Algorithms) :
    lightOnes s = (lightVNFs (averageLoad s.globalVNFinfo) s.globalVNFinfo).reverse := by
  have hload : ∀ vnf ∈ s.globalVNFinfo.zipIdx, loadBefore s vnf.2 = vnf.1.loadPercentage := by
    rintro ⟨vnf, i⟩ hvnf
    rw [loadBefore, List.mem_zipIdx_iff_getElem?.mp hvnf]
    rfl
  have hfilter : (s.globalVNFinfo.zipIdx.filter fun vnf =>
      ¬ averageLoad s.globalVNFinfo < vnf.1.loadPercentage).map Prod.snd =
        (List.range s.globalVNFinfo.length).filter fun i => loadBefore s i ≤ averageLoad s.globalVNFinfo := by
    rw [List.range_eq_range', ← List.zipIdx_map_snd 0 s.globalVNFinfo, List.filter_map]
    refine congrArg (List.map Prod.snd) (List.filter_congr fun vnf hvnf => ?_)
    rw [Function.comp_apply, hload vnf hvnf]
    simp
  rw [lightOnes, lightVNFs, List.map_insertionSort _ (fun i j => loadBefore s i ≤ loadBefore s j), hfilter]
  intro vnf hvnf vnf' hvnf'
  rw [hload vnf (List.mem_filter.mp hvnf).1, hload vnf' (List.mem_filter.mp hvnf').1]

theorem mem_lightOnes {i : Nat} : i ∈ lightOnes s ↔ ∃ vnf, s.globalVNFinfo[i]? = some vnf ∧
    ¬ averageLoad s.globalVNFinfo < vnf.loadPercentage := by
  rw [lightOnes_eq, List.mem_reverse, mem_lightVNFs]

theorem nodup_lightOnes (s : Algorithms) : (lightOnes s).Nodup :=
  lightOnes_eq s ▸ List.nodup_reverse.mpr (nodup_lightVNFs ..)

/-- Of the light ones nothing is planned. -/
theorem planned_light {i : Nat} (hi : i ∈ lightOnes s) : ∃ vnf, s.globalVNFinfo[i]? = some vnf ∧
    (plannedVNFs s)[i]? = some vnf ∧ vnf.loadPercentage ≤ averageLoad s.globalVNFinfo := by
  obtain ⟨vnf, hvnf, hlight⟩ := mem_lightOnes.mp hi
  refine ⟨vnf, hvnf, ?_, not_lt.mp hlight⟩
  rw [plannedVNFs, List.getElem?_map, hvnf, Option.map_some, planned, if_neg hlight]

theorem planAt_next (hlength : plan.length = d.shares.length) (hk : k < (lightOnes s).length) :
    d.planAt plan k 0 = d.planAt plan (k + 1) d.shares.length := by
  refine planAt_congr fun g hg => ?_
  have hex : (∃ j < k + 1, d.goes j g) ↔ (∃ j < k, d.goes j g) ∨ d.goes k g := by
    simp only [Nat.lt_succ_iff_lt_or_eq, or_and_right, exists_or, exists_eq_left]
  have hle : (lightOnes s).length ≤ k + 1 ↔ k + 1 = (lightOnes s).length := by omega
  have hlt : ¬ d.shares.length ≤ g := by omega
  simp only [Given, hex, hle, hlt, not_le.mpr hk, Nat.zero_le, true_and, false_and, false_or, or_false, or_assoc]

theorem filled_zero (d : Distribution s) (k : Nat) :
    (room s d.shares).filled d.goes k 0 = (room s d.shares).load k + d.taken k := by
  rw [Packing.filled, taken, ← Finset.range_eq_Ico]
  rfl

/-- One round. -/
theorem Follows.next {st : List VNFinfo × List MigrateTuple × Nat} (h : d.Follows plan k st) (hbegins : d.Begins plan)
    (hindexed : Indexed s.globalVNFinfo) (hk : k < (lightOnes s).length) :
    ∃ st', assignVNF (averageLoad s.globalVNFinfo) st ((lightOnes s)[k], (lightOnes s).length - 1 - k) = .ok st' ∧
      d.Follows plan (k + 1) st' := by
  obtain ⟨vnfs, plan', last⟩ := st
  obtain ⟨hcarried, hplan, hcounts, hloads⟩ := h
  dsimp only at hcarried hplan hcounts hloads
  subst hplan
  set i := (lightOnes s)[k] with hi
  have hget : (lightOnes s)[k]? = some i := List.getElem?_eq_getElem hk
  have hdifferent : ∀ j < k, (lightOnes s)[j]? ≠ some i := by
    intro j hj heq
    have hsame := (List.nodup_iff_getElem?_ne_getElem?.mp (nodup_lightOnes s)) j k hj hk
    exact hsame (heq.trans hget.symm)
  obtain ⟨vnf, hvnf, hplanned, -⟩ := planned_light (List.mem_of_getElem? hget)
  obtain ⟨vnf', hvnf', hload⟩ := hloads i vnf hplanned
  have hnone : ∑ j ∈ Finset.range k with (lightOnes s)[j]? = some i, d.taken j = 0 := by
    rw [Finset.filter_false_of_mem fun j hj => hdifferent j (Finset.mem_range.mp hj), Finset.sum_empty]
  have hroom : (room s d.shares).load k = vnf.loadPercentage := by
    simp [room, hget, loadBefore, hvnf]
  have hid : vnf'.vnfId = (i : Int) := by
    obtain ⟨v, hv, hid, -⟩ := get_carried hcarried hplanned
    obtain rfl := Option.some.inj (hvnf'.symm.trans hv)
    exact hid.trans (hindexed i vnf hvnf)
  obtain ⟨last', heq, hcounts'⟩ := assignTuples_stateAt hbegins hindexed hcarried hk le_rfl hcounts
  have hstart : (⟨d.planAt plan k d.shares.length, vnf'.loadPercentage, last⟩ : Assignment) =
      d.stateAt plan k d.shares.length last := by
    rw [stateAt, hload, hnone, add_zero, ← hroom]
    exact congrArg (Assignment.mk _ · _) (Packing.filled_start (room s d.shares) d.goes k).symm
  have hlength : (d.planAt plan k d.shares.length).length = d.shares.length := by
    rw [planAt, List.length_mapIdx, hbegins.length_eq]
  refine ⟨(vnfs.modify i fun vnf => { vnf with loadPercentage := (room s d.shares).filled d.goes k 0 },
    d.planAt plan k 0, last'), ?_, ?_, ?_, hcounts'.next, fun j v hj => ?_⟩
  · rw [assignVNF, get_eq hvnf', ok_bind, hlength, hid, hstart, heq]
    rfl
  · exact (carried_setLoad ..).trans hcarried
  · exact planAt_next hbegins.length_eq hk
  · rw [Finset.range_add_one, Finset.filter_insert]
    by_cases hij : i = j
    · subst hij
      obtain rfl := Option.some.inj (hplanned.symm.trans hj)
      rw [List.getElem?_modify_eq, hvnf', if_pos hget,
        Finset.sum_insert fun hmem => absurd (Finset.mem_filter.mp hmem).1 Finset.notMem_range_self, hnone, add_zero]
      exact ⟨_, rfl, (filled_zero d k).trans (by rw [hroom])⟩
    · rw [List.getElem?_modify_ne _ _ hij, if_neg fun heq => hij (Option.some.inj (hget.symm.trans heq))]
      exact hloads j v hj

/-- Where there is a tuple there is a light one. -/
theorem lightOnes_pos (hindexed : Indexed s.globalVNFinfo) (hbegins : d.Begins plan) {tuple : MigrateTuple}
    (ht : plan[f]? = some tuple) : 0 < (lightOnes s).length := by
  obtain ⟨flow, hflow, -⟩ := hbegins.flow hindexed ht
  obtain ⟨src, vnf, -, hvnf, -⟩ := flowOf_eq_ok.mp hflow
  have hne : s.globalVNFinfo ≠ [] := by
    intro hnil
    simp [plannedVNFs, hnil] at hvnf
  rw [lightOnes_eq, List.length_reverse]
  exact List.length_pos_iff.mpr (lightVNFs_ne_nil hne)

theorem reverse_zipIdx_light (l : List Nat) : l.zipIdx.reverse =
    (List.range l.length).map fun k => (l.reverse[k]?.getD 0, l.length - 1 - k) := by
  refine List.ext_getElem (by simp) fun k hk hk' => ?_
  have hlt : k < l.length := by simpa using hk'
  have hlt' : l.length - 1 - k < l.length := by omega
  rw [List.getElem_reverse, List.getElem_zipIdx, List.getElem_map, List.getElem_range,
    List.getElem?_eq_getElem (by simpa using hlt), List.getElem_reverse]
  simp

/-- Load balancing gives every tuple its id. -/
theorem exists_assigned (d : Distribution s) (hindexed : Indexed s.globalVNFinfo) (hplan : s.migrateInfo = []) :
    ∃ plan st, assigned s = .ok st ∧ d.Begins plan ∧ d.Follows plan (lightOnes s).length st := by
  obtain ⟨plan, heq, hbegins⟩ := d.exists_begins hindexed hplan
  have hrounds : ∀ m ≤ (lightOnes s).length, ∃ st, ((List.range m).map fun k =>
      ((lightOnes s)[k]?.getD 0, (lightOnes s).length - 1 - k)).foldlM (assignVNF (averageLoad s.globalVNFinfo))
        (plannedVNFs s, plan, 0) = .ok st ∧ d.Follows plan m st := by
    intro m
    induction m with
    | zero =>
        refine fun _ => ⟨_, rfl, rfl, ?_, Packing.counts_start .., fun i vnf hi => ⟨vnf, hi, by simp⟩⟩
        refine List.ext_getElem? fun f => ?_
        rw [planAt, List.getElem?_mapIdx]
        cases hf : plan[f]? with
        | none => rfl
        | some tuple =>
            have hlt : f < d.shares.length := hbegins.length_eq ▸ (List.getElem?_eq_some_iff.mp hf).1
            have hlight := lightOnes_pos hindexed hbegins hf
            have hno : ¬ d.Given 0 d.shares.length f := by
              simp [Given, hlight.ne', hlt.not_ge]
            rw [Option.map_some, if_neg hno, ← hbegins.none tuple (List.mem_of_getElem? hf)]
    | succ m ih =>
        intro hm
        obtain ⟨st, hst, hfollows⟩ := ih (Nat.le_of_succ_le hm)
        obtain ⟨st', hst', hfollows'⟩ := hfollows.next hbegins hindexed hm
        refine ⟨st', ?_, hfollows'⟩
        rw [List.range_succ, List.map_append, List.foldlM_append, hst, ok_bind, List.map_singleton,
          List.getElem?_eq_getElem hm, Option.getD_some, List.foldlM_cons, hst']
        rfl
  obtain ⟨st, hst, hfollows⟩ := hrounds _ le_rfl
  refine ⟨plan, st, ?_, hbegins, hfollows⟩
  rw [assigned, heq, ok_bind, reverse_zipIdx_light, ← List.length_reverse, ← lightOnes_eq]
  exact hst

/-! ## The loads in the end -/

section Sums

variable {i : Nat} {st : List VNFinfo × List MigrateTuple × Nat}

/-- What comes to an index, and what is left. -/
theorem sum_dst (d : Distribution s) (w : Nat → ℚ) (i : Nat) :
    (∑ f ∈ Finset.range d.shares.length, if d.dst f = i then w f else 0) =
      (∑ k ∈ Finset.range (lightOnes s).length with (lightOnes s)[k]? = some i,
        ∑ f ∈ Finset.range d.shares.length with d.goes k f, w f) +
          if i = 0 then ∑ f ∈ Finset.range d.shares.length with ¬ d.Placed f, w f else 0 := by
  have hone : ∀ f ∈ Finset.range d.shares.length, (if d.dst f = i then w f else 0) =
      (∑ k ∈ Finset.range (lightOnes s).length with (lightOnes s)[k]? = some i, if d.goes k f then w f else 0) +
        if i = 0 then (if ¬ d.Placed f then w f else 0) else 0 := by
    intro f hf
    have hf := Finset.mem_range.mp hf
    by_cases hplaced : d.Placed f
    · obtain ⟨k, hk, hgoes⟩ := id hplaced
      have hget : (lightOnes s)[k]? = some (lightOnes s)[k] := List.getElem?_eq_getElem hk
      have hothers : ∀ j ∈ Finset.range (lightOnes s).length, j ≠ k →
          (if (lightOnes s)[j]? = some i then if d.goes j f then w f else 0 else 0) = 0 := by
        intro j _ hj
        rw [if_neg fun h => hj (unique hf h hgoes), ite_self]
      rw [dst_eq hf hk hgoes, Finset.sum_filter, Finset.sum_eq_single_of_mem k (Finset.mem_range.mpr hk) hothers, hget,
        if_pos hgoes, if_neg (not_not.mpr hplaced), ite_self, add_zero]
      simp only [Option.some.injEq]
    · have hnone : ∀ k ∈ Finset.range (lightOnes s).length, ¬ d.goes k f :=
        fun k hk hgoes => hplaced ⟨k, Finset.mem_range.mp hk, hgoes⟩
      rw [dst_eq_zero hplaced, Finset.sum_eq_zero fun k hk => if_neg (hnone k (Finset.mem_filter.mp hk).1), zero_add,
        if_pos hplaced]
      simp only [eq_comm]
  rw [Finset.sum_congr rfl hone, Finset.sum_add_distrib, Finset.sum_comm]
  simp only [Finset.sum_filter]
  split
  · rfl
  · rw [Finset.sum_const_zero]

theorem Follows.plan_eq (h : d.Follows plan (lightOnes s).length st) :
    st.2.1 = plan.mapIdx fun f tuple => { tuple with dstVNFid := (d.dst f : Int) } := by
  have hgiven : ∀ f, d.Given (lightOnes s).length d.shares.length f := fun f => Or.inr (Or.inl le_rfl)
  rw [h.plan, planAt]
  simp only [hgiven, if_true]

theorem Follows.getElem? (h : d.Follows plan (lightOnes s).length st) {tuple : MigrateTuple}
    (ht : plan[f]? = some tuple) : st.2.1[f]? = some { tuple with dstVNFid := (d.dst f : Int) } := by
  rw [h.plan_eq, List.getElem?_mapIdx, ht]
  rfl

theorem Follows.round (h : d.Follows plan (lightOnes s).length st) (hbegins : d.Begins plan) : Round s st where
  carried := h.carried
  sources := by
    have hsource : st.2.1.map MigrateTuple.source = plan.map MigrateTuple.source := by
      rw [h.plan_eq]
      refine List.ext_getElem? fun f => ?_
      rw [List.getElem?_map, List.getElem?_mapIdx, List.getElem?_map]
      cases plan[f]? <;> rfl
    exact hsource ▸ hbegins.sources

/-- What the tuples bring. -/
theorem Follows.received_eq (h : d.Follows plan (lightOnes s).length st) (hbegins : d.Begins plan) (i : Nat) :
    received (loadOf (plannedVNFs s)) st.2.1 i =
      (∑ k ∈ Finset.range (lightOnes s).length with (lightOnes s)[k]? = some i, d.taken k) +
        if i = 0 then d.rest else 0 := by
  have hlength : st.2.1.length = d.shares.length := by
    rw [h.plan_eq, List.length_mapIdx, hbegins.length_eq]
  rw [received, sum_map_range, hlength]
  refine Eq.trans (Finset.sum_congr rfl fun f hf => ?_) (d.sum_dst (fun f => d.shares.getD f 0) i)
  have hlt : f < plan.length := hbegins.length_eq ▸ Finset.mem_range.mp hf
  have ht := List.getElem?_eq_getElem hlt
  have hshare : loadOf (plannedVNFs s) plan[f].source = d.shares.getD f 0 := by
    rw [List.getD_eq_getElem?_getD, ← hbegins.shares, List.getElem?_map, ht]
    rfl
  rw [h.getElem? ht, Option.map_some, Option.getD_some, MigrateTuple.source]
  simp only [Int.natCast_inj]
  rw [← hshare]
  rfl

variable (hrates : ∀ vnf ∈ s.globalVNFinfo, ∀ f ∈ vnf.flow, 0 ≤ f.flowRate) {vnf : VNFinfo}

include hrates

/-- The load of a network function when its flows have been planned. -/
theorem loadPercentage_planned (hi : s.globalVNFinfo[i]? = some vnf) :
    (planned (averageLoad s.globalVNFinfo) vnf).1.loadPercentage = loadBefore s i - (d.sent i).sum := by
  rw [(planned_loads (hrates vnf (List.mem_of_getElem? hi))).1, loadBefore, sent, hi, Option.map_some, Option.map_some,
    Option.getD_some, Option.getD_some, (leaving_perm (d.leave i vnf hi)).sum_eq]

/-- A network function says that its load is what it is credited with. -/
theorem Follows.credited (h : d.Follows plan (lightOnes s).length st) (hi : s.globalVNFinfo[i]? = some vnf) :
    ∃ vnf', st.1[i]? = some vnf' ∧ vnf'.loadPercentage = d.credited i := by
  have hplanned : (plannedVNFs s)[i]? = some (planned (averageLoad s.globalVNFinfo) vnf).1 := by
    rw [plannedVNFs, List.getElem?_map, hi]
    rfl
  obtain ⟨vnf', hvnf', hload⟩ := h.loads i _ hplanned
  exact ⟨vnf', hvnf', by rw [hload, loadPercentage_planned hrates hi, Distribution.credited]⟩

theorem share_nonneg (d : Distribution s) (f : Nat) : 0 ≤ d.shares.getD f 0 := by
  rw [List.getD_eq_getElem?_getD]
  cases hf : d.shares[f]? with
  | none => exact le_rfl
  | some x =>
      obtain ⟨⟨vnf, i⟩, hvnf, hx⟩ := List.mem_flatMap.mp (d.perm.mem_iff.mp (List.mem_of_getElem? hf))
      have hi : s.globalVNFinfo[i]? = some vnf := List.mem_zipIdx_iff_getElem?.mp hvnf
      obtain ⟨tuple, -, rfl⟩ := List.mem_map.mp ((leaving_perm (d.leave i vnf hi)).mem_iff.mp hx)
      have hnonneg := loadOf_planned_nonneg hrates ((i : Int), tuple.flowid)
      have hplanned : (plannedVNFs s)[i]? = some (planned (averageLoad s.globalVNFinfo) vnf).1 := by
        rw [plannedVNFs, List.getElem?_map, hi]
        rfl
      rwa [loadOf_eq hplanned] at hnonneg

/-- What a load adds to a square. -/
def squareOf (s : Algorithms) (x : ℚ) : ℚ :=
  x * (averageLoad s.globalVNFinfo + averageLoad s.globalVNFinfo + x)

/-- A square grows by what comes, but for what goes. -/
theorem sq_credited_le (d : Distribution s) (hi : s.globalVNFinfo[i]? = some vnf) :
    d.credited i ^ 2 + ((d.sent i).map (squareOf s)).sum ≤ loadBefore s i ^ 2 +
      ∑ k ∈ Finset.range (lightOnes s).length with (lightOnes s)[k]? = some i,
        ∑ f ∈ Finset.range d.shares.length with d.goes k f, (room s d.shares).square f := by
  have hbefore : loadBefore s i = vnf.loadPercentage := by
    rw [loadBefore, hi]
    rfl
  by_cases hlight : i ∈ lightOnes s
  · obtain ⟨k, hk, rfl⟩ := List.getElem_of_mem hlight
    obtain ⟨vnf', hvnf', hplanned, hle⟩ := planned_light hlight
    obtain rfl := Option.some.inj (hi.symm.trans hvnf')
    have hsent : d.sent (lightOnes s)[k] = [] := by
      rw [sent, hi, Option.map_some, Option.getD_some, leaving, if_neg (not_lt.mpr hle)]
    have hfilter : (Finset.range (lightOnes s).length).filter (fun j => (lightOnes s)[j]? = some (lightOnes s)[k]) =
        {k} := by
      ext j
      rw [Finset.mem_filter, Finset.mem_range, Finset.mem_singleton]
      constructor
      · rintro ⟨hj, heq⟩
        rw [List.getElem?_eq_getElem hj] at heq
        exact (nodup_lightOnes s).getElem_inj_iff.mp (Option.some.inj heq)
      · rintro rfl
        exact ⟨hk, List.getElem?_eq_getElem hk⟩
    have hload : (room s d.shares).load k = loadBefore s (lightOnes s)[k] := by
      simp [room, List.getElem?_eq_getElem hk]
    have hsquare := d.firstFit.sq_filled_le (hload.trans_le (hbefore.trans_le hle)) (fun f _ => share_nonneg hrates d f)
      0 (Nat.zero_le _)
    rw [filled_zero, hload] at hsquare
    rw [Distribution.credited, hsent, hfilter, Finset.sum_singleton, Finset.sum_singleton, List.sum_nil, List.map_nil,
      List.sum_nil, sub_zero, add_zero, Finset.range_eq_Ico]
    exact hsquare
  · have hnone : ∀ k ∈ Finset.range (lightOnes s).length, ¬ (lightOnes s)[k]? = some i :=
      fun k _ heq => hlight (List.mem_of_getElem? heq)
    rw [Distribution.credited, Finset.filter_false_of_mem hnone, Finset.sum_empty, Finset.sum_empty, add_zero, add_zero,
      ← loadPercentage_planned hrates hi, hbefore, sent, hi, Option.map_some, Option.getD_some,
      ((leaving_perm (d.leave i vnf hi)).map (squareOf s)).sum_eq, List.map_map]
    refine le_of_eq_of_le ?_ (@planned_loads (averageLoad s.globalVNFinfo) vnf
      (hrates vnf (List.mem_of_getElem? hi))).2
    refine congrArg (_ + List.sum ·) (List.map_congr_left fun tuple _ => ?_)
    rw [Function.comp_apply, squareOf, two_mul]

omit hrates in
/-- A sum over all that leaves. -/
theorem sum_sent (d : Distribution s) (w : ℚ → ℚ) : ∑ i ∈ Finset.range s.globalVNFinfo.length, ((d.sent i).map w).sum =
    ∑ f ∈ Finset.range d.shares.length, w (d.shares.getD f 0) := by
  have hshares := sum_map_range d.shares w
  rw [(d.perm.map w).sum_eq, List.map_flatMap, List.flatMap, List.sum_flatten, List.map_map, sum_map_range,
    List.length_zipIdx] at hshares
  refine Eq.trans (Finset.sum_congr rfl fun i hi => ?_) (hshares.trans (Finset.sum_congr rfl fun f hf => ?_))
  · have hget := List.getElem?_eq_getElem (Finset.mem_range.mp hi)
    rw [List.getElem?_zipIdx, sent, hget]
    simp
  · rw [List.getD_eq_getElem?_getD, List.getElem?_eq_getElem (Finset.mem_range.mp hf)]
    rfl

omit hrates in
theorem dst_lt (d : Distribution s) (hne : s.globalVNFinfo ≠ []) (hf : f < d.shares.length) :
    d.dst f < s.globalVNFinfo.length := by
  by_cases hplaced : d.Placed f
  · obtain ⟨k, hk, hgoes⟩ := hplaced
    rw [dst_eq hf hk hgoes]
    obtain ⟨vnf, hvnf, -⟩ := mem_lightOnes.mp (List.getElem_mem hk)
    exact (List.getElem?_eq_some_iff.mp hvnf).1
  · rw [dst_eq_zero hplaced]
    exact List.length_pos_iff.mpr hne

/-- The squares of what the network functions are credited with, with what there is no room for. -/
theorem sum_squares_le (d : Distribution s) (hne : s.globalVNFinfo ≠ []) :
    ∑ i ∈ Finset.range s.globalVNFinfo.length, d.credited i ^ 2 + 2 * averageLoad s.globalVNFinfo * d.rest ≤
      ∑ i ∈ Finset.range s.globalVNFinfo.length, loadBefore s i ^ 2 := by
  set n := s.globalVNFinfo.length with hn
  set sq := (room s d.shares).square with hsq
  have hpos : 0 < n := List.length_pos_iff.mpr hne
  have hall : ∑ i ∈ Finset.range n, ∑ f ∈ Finset.range d.shares.length, (if d.dst f = i then sq f else 0) =
      ∑ f ∈ Finset.range d.shares.length, sq f := by
    rw [Finset.sum_comm]
    refine Finset.sum_congr rfl fun f hf => ?_
    rw [Finset.sum_ite_eq, if_pos (Finset.mem_range.mpr (d.dst_lt hne (Finset.mem_range.mp hf)))]
  have hone : ∀ i ∈ Finset.range n, d.credited i ^ 2 + ((d.sent i).map (squareOf s)).sum +
      (if i = 0 then ∑ f ∈ Finset.range d.shares.length with ¬ d.Placed f, sq f else 0) ≤ loadBefore s i ^ 2 +
        ∑ f ∈ Finset.range d.shares.length, if d.dst f = i then sq f else 0 := by
    intro i hi
    have hle := d.sq_credited_le hrates (List.getElem?_eq_getElem (Finset.mem_range.mp hi))
    rw [d.sum_dst]
    linarith
  have hsum := Finset.sum_le_sum hone
  rw [Finset.sum_add_distrib, Finset.sum_add_distrib, Finset.sum_add_distrib, hall, Finset.sum_ite_eq',
    if_pos (Finset.mem_range.mpr hpos), d.sum_sent] at hsum
  have hsame : ∑ f ∈ Finset.range d.shares.length, squareOf s (d.shares.getD f 0) =
      ∑ f ∈ Finset.range d.shares.length, sq f := rfl
  have hrest : 2 * averageLoad s.globalVNFinfo * d.rest ≤
      ∑ f ∈ Finset.range d.shares.length with ¬ d.Placed f, sq f := by
    rw [rest, Finset.mul_sum]
    refine Finset.sum_le_sum fun f _ => ?_
    have hexpand : sq f = 2 * averageLoad s.globalVNFinfo * d.shares.getD f 0 + d.shares.getD f 0 ^ 2 := by
      show d.shares.getD f 0 * _ = _
      simp only [room]
      ring
    rw [hexpand]
    exact le_add_of_nonneg_right (sq_nonneg _)
  linarith

theorem rest_nonneg (d : Distribution s) : 0 ≤ d.rest := Finset.sum_nonneg fun f _ => share_nonneg hrates d f

end Sums

/-! ## The variance in the end -/

/-- What the rest makes of the variance. -/
theorem variance_after (d : Distribution s) (hpos : 0 < s.globalVNFinfo.length)
    (hmean : ((List.range s.globalVNFinfo.length).map d.after).sum / s.globalVNFinfo.length =
      averageLoad s.globalVNFinfo) : variance ((List.range s.globalVNFinfo.length).map d.after) =
        variance ((List.range s.globalVNFinfo.length).map d.credited) + d.rest / s.globalVNFinfo.length *
          (2 * d.credited 0 + d.rest + d.rest / s.globalVNFinfo.length - 2 * averageLoad s.globalVNFinfo) := by
  obtain ⟨m, hm⟩ := Nat.exists_eq_succ_of_ne_zero hpos.ne'
  have htail : (List.range m).map (d.after ∘ Nat.succ) = (List.range m).map (d.credited ∘ Nat.succ) :=
    List.map_congr_left fun i _ => add_zero _
  have hcast : (s.globalVNFinfo.length : ℚ) = ((List.range m).map (d.credited ∘ Nat.succ)).length + 1 := by
    rw [hm, List.length_map, List.length_range, Nat.cast_succ]
  have hafter : (List.range s.globalVNFinfo.length).map d.after =
      (d.credited 0 + d.rest) :: (List.range m).map (d.credited ∘ Nat.succ) := by
    rw [hm, List.range_succ_eq_map, List.map_cons, List.map_map, htail]
    rfl
  have hcredited : (List.range s.globalVNFinfo.length).map d.credited =
      d.credited 0 :: (List.range m).map (d.credited ∘ Nat.succ) := by
    rw [hm, List.range_succ_eq_map, List.map_cons, List.map_map]
  rw [hafter] at hmean ⊢
  rw [hcredited, variance_more, ← hmean, hcast]

/-- The rest makes nothing of it exactly in two cases. -/
theorem variance_credited_iff (d : Distribution s) (hpos : 0 < s.globalVNFinfo.length)
    (hmean : ((List.range s.globalVNFinfo.length).map d.after).sum / s.globalVNFinfo.length =
      averageLoad s.globalVNFinfo) : variance ((List.range s.globalVNFinfo.length).map d.credited) =
        variance ((List.range s.globalVNFinfo.length).map d.after) ↔ d.rest = 0 ∨
          2 * d.credited 0 + d.rest + d.rest / s.globalVNFinfo.length = 2 * averageLoad s.globalVNFinfo := by
  have hn : (s.globalVNFinfo.length : ℚ) ≠ 0 := Nat.cast_ne_zero.mpr hpos.ne'
  rw [d.variance_after hpos hmean, left_eq_add, mul_eq_zero, div_eq_zero_iff, or_iff_left hn, sub_eq_zero]

/-- The rest does not make the squares too large. -/
theorem variance_after_le (d : Distribution s) (hrates : ∀ vnf ∈ s.globalVNFinfo, ∀ f ∈ vnf.flow, 0 ≤ f.flowRate)
    (hpos : 0 < s.globalVNFinfo.length) (hsum : ((List.range s.globalVNFinfo.length).map d.after).sum =
      ((List.range s.globalVNFinfo.length).map (loadBefore s)).sum)
    (hrest : d.rest * (2 * d.credited 0 + d.rest) ≤ d.rest * (2 * averageLoad s.globalVNFinfo)) :
    variance ((List.range s.globalVNFinfo.length).map d.after) ≤
      variance ((List.range s.globalVNFinfo.length).map (loadBefore s)) := by
  refine variance_le (by simp) hsum ?_
  rw [List.map_map, List.map_map]
  show ∑ i ∈ Finset.range s.globalVNFinfo.length, d.after i ^ 2 ≤
    ∑ i ∈ Finset.range s.globalVNFinfo.length, loadBefore s i ^ 2
  have hsquares := d.sum_squares_le hrates (List.length_pos_iff.mp hpos)
  have hone : ∀ i ∈ Finset.range s.globalVNFinfo.length, d.after i ^ 2 = d.credited i ^ 2 +
      if i = 0 then d.rest * (2 * d.credited 0 + d.rest) else 0 := by
    intro i _
    rw [Distribution.after]
    split
    · rename_i hi
      rw [hi]
      ring
    · rw [add_zero, add_zero]
  rw [Finset.sum_congr rfl hone, Finset.sum_add_distrib, Finset.sum_ite_eq', if_pos (Finset.mem_range.mpr hpos)]
  linarith

end Distribution

end OFM.OFMAlgorithm
