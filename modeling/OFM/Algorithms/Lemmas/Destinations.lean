import Mathlib.Algebra.Order.BigOperators.Group.List
import OFM.Algorithms.Lemmas.Room

/-!
# Destinations for a plan

Load balancing gives every tuple a destination that there is, if what its plan refers to is there.
-/

namespace OFM.OFMAlgorithm
open OFM.Lib

/-! ## The light network functions -/

theorem sum_lt_of_forall_lt {a : ℚ} {l : List ℚ} (hne : l ≠ []) (h : ∀ x ∈ l, a < x) :
    l.length * a < l.sum := by
  induction l with
  | nil => exact absurd rfl hne
  | cons x l ih =>
      rw [List.forall_mem_cons] at h
      rw [List.sum_cons, List.length_cons, Nat.cast_succ]
      cases l with
      | nil => simpa using h.1
      | cons y l =>
          have hrest := ih (List.cons_ne_nil y l) h.2
          linarith [h.1]

/-- Not all have more than the average. -/
theorem exists_light {vnfs : List VNFinfo} (hne : vnfs ≠ []) :
    ∃ vnf ∈ vnfs, ¬ averageLoad vnfs < vnf.loadPercentage := by
  by_contra hall
  push Not at hall
  have hlen : (0 : ℚ) < vnfs.length := by
    exact_mod_cast List.length_pos_iff.mpr hne
  have hlt := sum_lt_of_forall_lt (a := averageLoad vnfs) (l := vnfs.map VNFinfo.loadPercentage)
    (by simpa using hne) (by simpa using hall)
  rw [List.length_map, averageLoad, mul_div_cancel₀ _ hlen.ne'] at hlt
  exact lt_irrefl _ hlt

theorem mem_lightVNFs {avgLoad : ℚ} {vnfs : List VNFinfo} {i : Nat} :
    i ∈ lightVNFs avgLoad vnfs ↔ ∃ vnf, vnfs[i]? = some vnf ∧ ¬ avgLoad < vnf.loadPercentage := by
  simp only [lightVNFs, List.mem_map, List.mem_insertionSort, List.mem_filter, Prod.exists,
    decide_eq_true_eq, exists_eq_right, List.mk_mem_zipIdx_iff_getElem?]

theorem lightVNFs_ne_nil {vnfs : List VNFinfo} (hne : vnfs ≠ []) :
    lightVNFs (averageLoad vnfs) vnfs ≠ [] := by
  obtain ⟨vnf, hvnf, hlight⟩ := exists_light hne
  obtain ⟨i, hi⟩ := List.getElem?_of_mem hvnf
  exact List.ne_nil_of_mem (mem_lightVNFs.mpr ⟨vnf, hi, hlight⟩)

/-! ## Looking up flows -/

variable {vnfs : List VNFinfo} {plan : List MigrateTuple} {n : Nat} {allowed : Fault → Prop}

theorem ends_flowOf {tuple : MigrateTuple} (h : tuple.flowid < size vnfs tuple.srcVNFid) :
    Ends allowed (flowOf vnfs tuple) fun _ => True := by
  obtain ⟨i, vnf, flow, hi, hvnf, hflow⟩ := of_lt_size h
  rw [flowOf, hi, get_eq hvnf]
  show Ends allowed (get vnf.flow tuple.flowid) _
  rw [get_eq hflow]
  trivial

theorem ends_sortByFlowRate_room (h : ∀ p ∈ plan.map MigrateTuple.source, p.2 < size vnfs p.1) :
    Ends allowed (sortByFlowRate vnfs plan) fun plan' => plan'.Perm plan := by
  refine (ends_sortByFlowRate vnfs plan).and_any (Q := fun _ => True) ?_ |>.mono fun _ h => h.1
  refine Ends.ite (fun _ => trivial) fun _ => ?_
  refine Ends.bind (Ends.mapM (R := fun _ _ => True) fun tuple ht => ?_) fun _ _ => trivial
  exact (ends_flowOf (h _ (List.mem_map_of_mem ht))).bind fun _ _ => trivial

/-! ## Destinations -/

/-- What the loop over the tuples leaves: the tuples with what they refer to, and destinations that there
are. -/
structure Destined (n : Nat) (plan plan' : List MigrateTuple) : Prop where
  kept : Kept plan plan'
  lt : (∀ tuple ∈ plan, tuple.dstVNFid < n) → ∀ tuple ∈ plan', tuple.dstVNFid < n

theorem Destined.refl (n : Nat) (plan : List MigrateTuple) : Destined n plan plan :=
  ⟨Kept.refl plan, fun h => h⟩

theorem Destined.trans {plan' plan'' : List MigrateTuple} (h : Destined n plan plan')
    (h' : Destined n plan' plan'') : Destined n plan plan'' :=
  ⟨h.kept.trans h'.kept, fun hlt => h'.lt (h.lt hlt)⟩

theorem Destined.modify {f : Nat} {tuple : MigrateTuple} {dst : Int} (hf : plan[f]? = some tuple)
    (hdst : ¬ 0 ≤ tuple.dstVNFid) (hlt : dst < n) :
    Destined n plan (plan.modify f fun tuple => { tuple with dstVNFid := dst }) := by
  refine ⟨Kept.modify dst hf hdst, fun h t ht => ?_⟩
  obtain ⟨k, hk⟩ := List.getElem?_of_mem ht
  rw [List.getElem?_modify] at hk
  obtain ⟨t', ht', rfl⟩ := Option.map_eq_some_iff.mp hk
  split
  · exact hlt
  · exact h t' (List.mem_of_getElem? ht')

/-- A tuple that has been looked at for the first of the light ones has a destination. -/
theorem ends_assignTuple_room {avgLoad : ℚ} {d f : Nat} {vnfId : Int} {st : Assignment}
    (hid : 0 ≤ vnfId ∧ vnfId < n) (hf : f < st.plan.length)
    (hroom : ∀ p ∈ st.plan.map MigrateTuple.source, p.2 < size vnfs p.1) :
    Ends allowed (assignTuple vnfs avgLoad d vnfId st f) fun st' => Destined n st.plan st'.plan ∧
      (d = 0 → ∀ tuple, st'.plan[f]? = some tuple → 0 ≤ tuple.dstVNFid) := by
  have htuple : st.plan[f]? = some st.plan[f] := List.getElem?_eq_getElem hf
  have hn : (0 : Int) < n := lt_of_le_of_lt hid.1 hid.2
  rw [assignTuple, get_eq htuple]
  refine Ends.ite (fun hdst => ⟨Destined.refl .., fun _ tuple ht => ?_⟩) fun hdst => ?_
  · obtain rfl := Option.some.inj (htuple.symm.trans ht)
    exact hdst
  · refine (ends_flowOf (hroom _ (List.mem_map_of_mem (List.getElem_mem hf)))).bind fun flow _ => ?_
    refine Ends.ite (fun _ => ?_) fun _ => ?_
    · refine Ends.pure_iff.mpr ?_
      dsimp only
      rw [ite_modify_dst]
      refine ⟨Destined.modify htuple hdst hid.2, fun _ tuple ht => ?_⟩
      rw [List.getElem?_modify_eq, htuple] at ht
      obtain rfl := Option.some.inj ht
      exact hid.1
    · refine Ends.pure_iff.mpr ?_
      dsimp only
      split
      · rename_i hd
        subst hd
        refine ⟨Destined.modify htuple hdst hn, fun _ tuple ht => ?_⟩
        rw [List.getElem?_modify_eq, htuple] at ht
        obtain rfl := Option.some.inj ht
        exact Int.le_refl 0
      · exact ⟨Destined.refl .., fun hd => absurd hd ‹_›⟩

theorem Kept.nonneg {plan' : List MigrateTuple} (h : Kept plan plan')
    (hdst : ∀ tuple ∈ plan, 0 ≤ tuple.dstVNFid) : ∀ tuple ∈ plan', 0 ≤ tuple.dstVNFid := by
  intro tuple ht
  obtain ⟨k, hk⟩ := List.getElem?_of_mem ht
  have hlt : k < plan.length := h.length_eq ▸ (List.getElem?_eq_some_iff.mp hk).1
  have hget : plan[k]? = some plan[k] := List.getElem?_eq_getElem hlt
  have hkept := h.2 k plan[k] hget (hdst _ (List.getElem_mem hlt))
  obtain rfl := Option.some.inj (hkept.symm.trans hk)
  exact hdst _ (List.getElem_mem hlt)

/-- The loop over all tuples. -/
theorem ends_assign_room (avgLoad : ℚ) (d : Nat) {vnfId : Int} (st : Assignment)
    (hid : 0 ≤ vnfId ∧ vnfId < n) (hroom : ∀ p ∈ st.plan.map MigrateTuple.source, p.2 < size vnfs p.1) :
    Ends allowed ((List.range st.plan.length).reverse.foldlM (assignTuple vnfs avgLoad d vnfId) st)
      fun st' => Destined n st.plan st'.plan ∧ (d = 0 → ∀ tuple ∈ st'.plan, 0 ≤ tuple.dstVNFid) := by
  -- Those that have been looked at have a destination.
  refine (Ends.foldlM (fun rest st' => Destined n st.plan st'.plan ∧
    (d = 0 → ∀ k < st.plan.length, k ∉ rest → ∀ tuple, st'.plan[k]? = some tuple →
      0 ≤ tuple.dstVNFid)) ⟨Destined.refl .., ?_⟩ ?_).mono ?_
  · intro _ k hk hnot
    exact absurd (List.mem_reverse.mpr (List.mem_range.mpr hk)) hnot
  · rintro f rest st' ⟨pre, hpre⟩ ⟨hdestined, hdone⟩
    have hf : f < st'.plan.length := by
      have hmem : f ∈ (List.range st.plan.length).reverse := hpre ▸ by simp
      rw [hdestined.kept.length_eq]
      simpa using hmem
    refine (ends_assignTuple_room hid hf (hdestined.kept.1 ▸ hroom)).mono ?_
    rintro st'' ⟨hdestined', hfirst⟩
    refine ⟨hdestined.trans hdestined', fun hd k hk hnot tuple ht => ?_⟩
    by_cases hkf : k = f
    · subst hkf
      exact hfirst hd tuple ht
    · have hlt : k < st'.plan.length := hdestined.kept.length_eq ▸ hk
      have hget : st'.plan[k]? = some st'.plan[k] := List.getElem?_eq_getElem hlt
      have hnonneg := hdone hd k hk (by simp [hkf, hnot]) _ hget
      obtain rfl := Option.some.inj ((hdestined'.kept.2 k _ hget hnonneg).symm.trans ht)
      exact hnonneg
  · rintro st' ⟨hdestined, hdone⟩
    refine ⟨hdestined, fun hd tuple ht => ?_⟩
    obtain ⟨k, hk⟩ := List.getElem?_of_mem ht
    exact hdone hd k (hdestined.kept.length_eq ▸ (List.getElem?_eq_some_iff.mp hk).1) List.not_mem_nil tuple hk

/-! ## All light network functions -/

/-- Ids and flows. -/
def VNFinfo.carried (vnf : VNFinfo) : Int × List Flowinfo := (vnf.vnfId, vnf.flow)

section Carried

variable {vnfs' : List VNFinfo} (h : vnfs'.map VNFinfo.carried = vnfs.map VNFinfo.carried)

include h

theorem length_carried : vnfs'.length = vnfs.length := by
  simpa using congrArg List.length h

theorem vnfId_carried : vnfs'.map VNFinfo.vnfId = vnfs.map VNFinfo.vnfId := by
  have hid := congrArg (List.map Prod.fst) h
  rw [List.map_map, List.map_map] at hid
  exact hid

theorem allFlows_carried : allFlows vnfs' = allFlows vnfs := by
  have hflow := congrArg (List.map fun c : Int × List Flowinfo =>
    (c.2.map Flowinfo.key : Multiset (ℚ × ℚ))) h
  rw [List.map_map, List.map_map] at hflow
  exact congrArg List.sum hflow

theorem size_carried : size vnfs' = size vnfs := by
  have hlength := congrArg (List.map fun c : Int × List Flowinfo => c.2.length) h
  rw [List.map_map, List.map_map] at hlength
  exact size_congr hlength

end Carried

theorem carried_setLoad (vnfs : List VNFinfo) (i : Nat) (load : ℚ) :
    (vnfs.modify i fun vnf => { vnf with loadPercentage := load }).map VNFinfo.carried =
      vnfs.map VNFinfo.carried := by
  refine List.ext_getElem? fun k => ?_
  rw [List.getElem?_map, List.getElem?_map, List.getElem?_modify]
  cases vnfs[k]? with
  | none => rfl
  | some vnf => split <;> rfl

/-- All ids are of network functions that there are. -/
def IdsIn (n : Nat) (vnfs : List VNFinfo) : Prop := ∀ vnfId ∈ vnfs.map VNFinfo.vnfId, 0 ≤ vnfId ∧ vnfId < n

theorem ends_assignVNF_room (avgLoad : ℚ) {last : Nat} {light : Nat × Nat} (hlight : light.1 < vnfs.length)
    (hids : IdsIn n vnfs) (hroom : ∀ p ∈ plan.map MigrateTuple.source, p.2 < size vnfs p.1) :
    Ends allowed (assignVNF avgLoad (vnfs, plan, last) light) fun st =>
      st.1.map VNFinfo.carried = vnfs.map VNFinfo.carried ∧ Destined n plan st.2.1 ∧
      (light.2 = 0 → ∀ tuple ∈ st.2.1, 0 ≤ tuple.dstVNFid) := by
  rw [assignVNF, get_eq (List.getElem?_eq_getElem hlight)]
  have hid := hids _ (List.mem_map_of_mem (List.getElem_mem hlight))
  refine (ends_assign_room avgLoad light.2 ⟨plan, _, last⟩ hid hroom).bind ?_
  rintro st ⟨hdestined, hdone⟩
  exact Ends.pure_iff.mpr ⟨carried_setLoad .., hdestined, hdone⟩

theorem ends_assignVNFs_room (avgLoad : ℚ) {light : List Nat} (hlight : ∀ i ∈ light, i < vnfs.length)
    (hids : IdsIn n vnfs) (hroom : ∀ p ∈ plan.map MigrateTuple.source, p.2 < size vnfs p.1) :
    Ends allowed (light.zipIdx.reverse.foldlM (assignVNF avgLoad) (vnfs, plan, 0)) fun st =>
      st.1.map VNFinfo.carried = vnfs.map VNFinfo.carried ∧ Destined n plan st.2.1 ∧
      (light ≠ [] → ∀ tuple ∈ st.2.1, 0 ≤ tuple.dstVNFid) := by
  refine (Ends.foldlM (fun rest st => st.1.map VNFinfo.carried = vnfs.map VNFinfo.carried ∧
    Destined n plan st.2.1 ∧ (light ≠ [] → (∀ l ∈ rest, l.2 ≠ 0) →
      ∀ tuple ∈ st.2.1, 0 ≤ tuple.dstVNFid)) ⟨rfl, Destined.refl .., ?_⟩ ?_).mono ?_
  · intro hne hrest
    cases light with
    | nil => exact absurd rfl hne
    | cons i light => exact absurd rfl (hrest (i, 0) (by simp))
  · rintro l rest ⟨vnfs', plan', last⟩ ⟨pre, hpre⟩ ⟨hcarried, hdestined, hdone⟩
    have hl : l.1 < vnfs'.length := by
      have hmem : l ∈ light.zipIdx.reverse := hpre ▸ by simp
      rw [length_carried hcarried]
      exact hlight l.1 (List.fst_mem_of_mem_zipIdx (List.mem_reverse.mp hmem))
    have hids' : IdsIn n vnfs' := by
      rw [IdsIn, vnfId_carried hcarried]
      exact hids
    refine (ends_assignVNF_room avgLoad hl hids' ?_).mono ?_
    · rw [size_carried hcarried, hdestined.kept.1]
      exact hroom
    · rintro st ⟨hcarried', hdestined', hfirst⟩
      refine ⟨hcarried'.trans hcarried, hdestined.trans hdestined', fun hne hrest => ?_⟩
      by_cases hzero : l.2 = 0
      · exact hfirst hzero
      · exact hdestined'.kept.nonneg (hdone hne (List.forall_mem_cons.mpr ⟨hzero, hrest⟩))
  · rintro st ⟨hcarried, hdestined, hdone⟩
    exact ⟨hcarried, hdestined, fun hne => hdone hne (List.forall_mem_nil _)⟩

end OFM.OFMAlgorithm
