import Mathlib.Algebra.BigOperators.Fin
import Mathlib.Algebra.Order.BigOperators.Group.Finset
import Mathlib.Algebra.Order.Chebyshev
import Mathlib.Tactic.LinearCombination
import OFM.Algorithms.Lemmas.Choices
import OFM.Algorithms.Lemmas.Placement

/-!
# The loads behind load balancing

What a network function says its load is follows the flows that are planned for it, as long as the last round
leaves nothing; and the squares of the loads do not grow in sum.
-/

namespace OFM.OFMAlgorithm
open OFM.Lib

variable {s : Algorithms} {vnfs : List VNFinfo} {avgLoad : ℚ} {plan : List MigrateTuple} {tuple : MigrateTuple}
  {flow : Flowinfo} {g : Int × Nat → ℚ} {allowed : Fault → Prop}

/-! ## What tuples carry -/

/-- The load of the flow that is referred to. -/
def loadOf (vnfs : List VNFinfo) (p : Int × Nat) : ℚ :=
  match get vnfs p.1 with
  | .ok vnf => rateAt vnf.flow p.2 / maxLoad
  | .error _ => 0

theorem loadOf_eq {i k : Nat} {vnf : VNFinfo} (hi : vnfs[i]? = some vnf) :
    loadOf vnfs (i, k) = rateAt vnf.flow k / maxLoad := by
  rw [loadOf, get_eq hi]

theorem loadOf_source (h : flowOf vnfs tuple = .ok flow) : loadOf vnfs tuple.source = flow.flowRate / maxLoad := by
  obtain ⟨src, vnf, hsrc, hvnf, hflow⟩ := flowOf_eq_ok.mp h
  rw [MigrateTuple.source, hsrc, loadOf_eq hvnf, rateAt_eq hflow]

theorem maxLoad_pos : 0 < maxLoad := by norm_num [maxLoad]

theorem loadOf_nonneg (hrates : ∀ vnf ∈ vnfs, ∀ f ∈ vnf.flow, 0 ≤ f.flowRate) (p : Int × Nat) :
    0 ≤ loadOf vnfs p := by
  rw [loadOf]
  rcases get_cases vnfs p.1 with ⟨n, vnf, -, hvnf, hget⟩ | hget
  · rw [hget]
    refine div_nonneg ?_ maxLoad_pos.le
    rw [rateAt]
    cases hf : vnf.flow[p.2]? with
    | none => exact le_refl _
    | some f => exact hrates vnf (List.mem_of_getElem? hvnf) f (List.mem_of_getElem? hf)
  · rw [hget]

/-- Ids and flows decide. -/
theorem get_carried {vnfs' : List VNFinfo} (h : vnfs'.map VNFinfo.carried = vnfs.map VNFinfo.carried) {i : Nat}
    {vnf : VNFinfo} (hi : vnfs[i]? = some vnf) :
    ∃ vnf', vnfs'[i]? = some vnf' ∧ vnf'.vnfId = vnf.vnfId ∧ vnf'.flow = vnf.flow := by
  have hget := congrArg (·[i]?) h
  simp only [List.getElem?_map, hi, Option.map_some] at hget
  obtain ⟨vnf', hvnf', heq⟩ := Option.map_eq_some_iff.mp hget
  obtain ⟨hid, hflow⟩ := Prod.mk.inj heq
  exact ⟨vnf', hvnf', hid, hflow⟩

theorem flowOf_carried {vnfs' : List VNFinfo} (h : vnfs'.map VNFinfo.carried = vnfs.map VNFinfo.carried)
    (hflow : flowOf vnfs tuple = .ok flow) : flowOf vnfs' tuple = .ok flow := by
  obtain ⟨src, vnf, hsrc, hvnf, hf⟩ := flowOf_eq_ok.mp hflow
  obtain ⟨vnf', hvnf', -, hflows⟩ := get_carried h hvnf
  exact flowOf_eq_ok.mpr ⟨src, vnf', hsrc, hvnf', hflows ▸ hf⟩

/-- What the tuples bring to an index. -/
def received (g : Int × Nat → ℚ) (plan : List MigrateTuple) (j : Nat) : ℚ :=
  (plan.map fun tuple => if tuple.dstVNFid = (j : Int) then g tuple.source else 0).sum

/-- The flows that come to an index bring what the tuples bring. -/
theorem sum_rates_arriving_plan (hthere : ∀ tuple ∈ plan, ∃ flow, flowOf vnfs tuple = .ok flow) (j : Nat) :
    ((arriving vnfs plan j).map Flowinfo.flowRate).sum / maxLoad = received (loadOf vnfs) plan j := by
  induction plan with
  | nil => exact zero_div _
  | cons tuple plan ih =>
      rw [List.forall_mem_cons] at hthere
      obtain ⟨flow, hflow⟩ := hthere.1
      have htail := ih hthere.2
      have hcons : arriving vnfs (tuple :: plan) j =
          (if tuple.dstVNFid = (j : Int) then [flow] else []) ++ arriving vnfs plan j := by
        by_cases hdst : tuple.dstVNFid = (j : Int)
        · simp [arriving, hdst, hflow, Except.toOption]
        · simp [arriving, hdst]
      rw [received, List.map_cons, List.sum_cons, ← received, ← htail, hcons]
      split
      · rw [loadOf_source hflow, ← add_div, List.singleton_append, List.map_cons, List.sum_cons]
      · rw [zero_add, List.nil_append]

/-! ## The plan of one network function -/

theorem foldl_planFlow_loads {vnfId : Int} {flows : List (Flowinfo × Nat)} {h : Nat → ℚ}
    (hflows : ∀ p ∈ flows, p.1.flowRate / maxLoad = h p.2 ∧ 0 ≤ h p.2) (st : ℚ × List MigrateTuple) :
    ∃ new, (flows.foldl (planFlow avgLoad vnfId) st).2 = st.2 ++ new ∧
      (flows.foldl (planFlow avgLoad vnfId) st).1 = st.1 - (new.map fun tuple => h tuple.flowid).sum ∧
      (flows.foldl (planFlow avgLoad vnfId) st).1 ^ 2 +
        (new.map fun tuple => h tuple.flowid * (2 * avgLoad + h tuple.flowid)).sum ≤ st.1 ^ 2 := by
  induction flows generalizing st with
  | nil => exact ⟨[], by simp, by simp, by simp⟩
  | cons flow flows ih =>
      rw [List.forall_mem_cons] at hflows
      obtain ⟨hload, hnonneg⟩ := hflows.1
      obtain ⟨new, hnew, hsum, hsquare⟩ := ih hflows.2 (planFlow avgLoad vnfId st flow)
      rw [List.foldl_cons, hnew]
      by_cases hskip : ¬ flow.1.migrateFlag ∨ st.1 - flow.1.flowRate / maxLoad < avgLoad
      · have heq : planFlow avgLoad vnfId st flow = st := by
          rw [planFlow]
          rcases hskip with hflag | hlow
          · rw [if_pos hflag]
          · rw [if_pos hlow]
            split <;> rfl
        rw [heq] at hsum hsquare ⊢
        exact ⟨new, rfl, hsum, hsquare⟩
      · rw [not_or, not_lt] at hskip
        have heq : planFlow avgLoad vnfId st flow = (st.1 - h flow.2, st.2 ++ [⟨vnfId, flow.2, -1⟩]) := by
          rw [planFlow, if_neg hskip.1, if_neg (not_lt.mpr hskip.2), hload]
        rw [heq] at hsum hsquare ⊢
        refine ⟨⟨vnfId, flow.2, -1⟩ :: new, by simp, ?_, ?_⟩
        · rw [hsum, List.map_cons, List.sum_cons]
          ring
        · -- The load stays above the average.
          have hhigh : avgLoad ≤ st.1 - h flow.2 := hload ▸ hskip.2
          rw [List.map_cons, List.sum_cons]
          nlinarith

/-- What a network function says its load is when its flows have been planned. -/
theorem planned_loads {vnf : VNFinfo} (hrates : ∀ f ∈ vnf.flow, 0 ≤ f.flowRate) :
    (planned avgLoad vnf).1.loadPercentage = vnf.loadPercentage -
        ((planned avgLoad vnf).2.map fun tuple => rateAt (planned avgLoad vnf).1.flow tuple.flowid / maxLoad).sum ∧
      (planned avgLoad vnf).1.loadPercentage ^ 2 + ((planned avgLoad vnf).2.map fun tuple =>
        rateAt (planned avgLoad vnf).1.flow tuple.flowid / maxLoad *
          (2 * avgLoad + rateAt (planned avgLoad vnf).1.flow tuple.flowid / maxLoad)).sum ≤
        vnf.loadPercentage ^ 2 := by
  rw [planned]
  split
  · let sorted := (vnf.flow.map markFlow).insertionSort fun f₁ f₂ => f₁.flowRate ≤ f₂.flowRate
    have hsorted : ∀ f ∈ sorted, 0 ≤ f.flowRate := by
      intro f hf
      obtain ⟨f', hf', rfl⟩ := List.mem_map.mp ((List.mem_insertionSort _).mp hf)
      have hrate : (markFlow f').flowRate = f'.flowRate := congrArg Prod.fst (markFlow_key f')
      exact hrate ▸ hrates f' hf'
    have hflows : ∀ p ∈ sorted.zipIdx.reverse, p.1.flowRate / maxLoad = rateAt sorted p.2 / maxLoad ∧
        0 ≤ rateAt sorted p.2 / maxLoad := by
      rintro ⟨f, k⟩ hp
      have hk := List.mem_zipIdx_iff_getElem?.mp (List.mem_reverse.mp hp)
      dsimp only at hk ⊢
      rw [rateAt_eq hk]
      exact ⟨rfl, div_nonneg (hsorted f (List.mem_of_getElem? hk)) maxLoad_pos.le⟩
    obtain ⟨new, hnew, hsum, hsquare⟩ := @foldl_planFlow_loads avgLoad vnf.vnfId _
      (fun k => rateAt sorted k / maxLoad) hflows (vnf.loadPercentage, [])
    rw [List.nil_append] at hnew
    have hresult : (planVNF avgLoad vnf).2 = new := hnew
    rw [hresult]
    exact ⟨hsum, hsquare⟩
  · simp

theorem loadOf_planned_nonneg (hrates : ∀ vnf ∈ s.globalVNFinfo, ∀ f ∈ vnf.flow, 0 ≤ f.flowRate) (p : Int × Nat) :
    0 ≤ loadOf (plannedVNFs s) p := by
  refine loadOf_nonneg (fun vnf hvnf f hf => ?_) p
  obtain ⟨vnf', hvnf', rfl⟩ := List.mem_map.mp hvnf
  have hkey : f.key ∈ vnf'.flow.map Flowinfo.key :=
    (planned_planned _ vnf').keys.mem_iff.mp (List.mem_map_of_mem hf)
  obtain ⟨f', hf', heq⟩ := List.mem_map.mp hkey
  have hrate : f'.flowRate = f.flowRate := congrArg Prod.fst heq
  exact hrate ▸ hrates vnf' hvnf' f' hf'

theorem nodup_lightVNFs (avgLoad : ℚ) (vnfs : List VNFinfo) : (lightVNFs avgLoad vnfs).Nodup := by
  rw [lightVNFs, ((List.perm_insertionSort _ _).map Prod.snd).nodup_iff]
  refine (List.filter_sublist.map Prod.snd).nodup ?_
  rw [List.zipIdx_map_snd]
  exact List.nodup_range'

/-! ## Behind the migration -/

theorem loadOf_carried {vnfs' : List VNFinfo} (h : vnfs'.map VNFinfo.carried = vnfs.map VNFinfo.carried) :
    loadOf vnfs' = loadOf vnfs := by
  have hload : ∀ (vnfs : List VNFinfo) (p : Int × Nat), loadOf vnfs p =
      match get (vnfs.map VNFinfo.carried) p.1 with
      | .ok c => rateAt c.2 p.2 / maxLoad
      | .error _ => 0 := by
    intro vnfs p
    rw [loadOf, get_map]
    cases get vnfs p.1 <;> rfl
  funext p
  rw [hload, hload vnfs, h]

theorem received_perm {plan' : List MigrateTuple} (h : plan'.Perm plan) (j : Nat) :
    received g plan' j = received g plan j :=
  (h.map _).sum_eq

theorem sum_map_div {α : Type} (l : List α) (h : α → ℚ) (a : ℚ) :
    (l.map h).sum / a = (l.map fun x => h x / a).sum := by
  induction l with
  | nil => exact zero_div a
  | cons x l ih => rw [List.map_cons, List.map_cons, List.sum_cons, List.sum_cons, add_div, ih]

section Behind

variable {st : List VNFinfo × List MigrateTuple × Nat} {vnf : VNFinfo} {i : Nat}

/-- The flows of an index that the plan refers to are those that have been planned there. -/
theorem Round.mem_source (hst : Round s st) (hindexed : Indexed s.globalVNFinfo)
    (hi : s.globalVNFinfo[i]? = some vnf) (k : Nat) : ((i : Int), k) ∈ st.2.1.map MigrateTuple.source ↔
      k ∈ (planned (averageLoad s.globalVNFinfo) vnf).2.map MigrateTuple.flowid := by
  rw [hst.sources.mem_iff, freshSources, List.mem_flatMap]
  constructor
  · rintro ⟨vnf', hvnf', hp⟩
    obtain ⟨j, hj⟩ := List.getElem?_of_mem hvnf'
    have hid := (mem_planned_source hp).2.1
    rw [hindexed j vnf' hj] at hid
    obtain rfl : i = j := Int.ofNat_inj.mp hid
    obtain rfl := Option.some.inj (hi.symm.trans hj)
    obtain ⟨tuple, ht, heq⟩ := List.mem_map.mp hp
    exact List.mem_map.mpr ⟨tuple, ht, congrArg Prod.snd heq⟩
  · intro hk
    obtain ⟨tuple, ht, rfl⟩ := List.mem_map.mp hk
    refine ⟨vnf, List.mem_of_getElem? hi, List.mem_map.mpr ⟨tuple, ht, ?_⟩⟩
    rw [MigrateTuple.source, ((planned_planned _ vnf).tuples tuple ht).1, hindexed i vnf hi]

/-- The load behind the migration is what has been planned, with what has come. -/
theorem load_migrated {vnfs' : List VNFinfo} {plan' : List MigrateTuple} (hst : Round s st)
    (hindexed : Indexed s.globalVNFinfo) (hi : s.globalVNFinfo[i]? = some vnf)
    (hload : vnf.loadPercentage = vnf.load) (hrates : ∀ f ∈ vnf.flow, 0 ≤ f.flowRate)
    (hperm : plan'.Perm st.2.1) (hthere : ∀ tuple ∈ st.2.1, tuple.There st.1) (hcarried : Carried st.1 plan' vnfs') :
    ∃ vnf', vnfs'[i]? = some vnf' ∧ vnf'.load =
      (planned (averageLoad s.globalVNFinfo) vnf).1.loadPercentage + received (loadOf (plannedVNFs s)) st.2.1 i := by
  set avgLoad := averageLoad s.globalVNFinfo with havg
  have hplanned := planned_planned avgLoad vnf
  have hplanned' : (plannedVNFs s)[i]? = some (planned avgLoad vnf).1 := by
    rw [plannedVNFs, List.getElem?_map, hi]
    rfl
  obtain ⟨v, hv, -, hflow⟩ := get_carried hst.carried hplanned'
  obtain ⟨vnf', arrived, hvnf', hflow', harrived⟩ := hcarried.flows i v hv
  have hlength : v.flow.length = vnf.flow.length := by
    rw [hflow]
    exact length_eq_of_keys hplanned.keys
  have hpicks : PicksOf v.flow ((planned avgLoad vnf).2.map MigrateTuple.flowid) := by
    refine ⟨hplanned.flowids, fun k hk => ?_⟩
    obtain ⟨tuple, ht, rfl⟩ := List.mem_map.mp hk
    exact hlength ▸ hplanned.flowid_lt tuple ht
  have hmem : ∀ k, ((i : Int), k) ∈ plan'.map MigrateTuple.source ↔
      k ∈ (planned avgLoad vnf).2.map MigrateTuple.flowid := fun k => by
    rw [(hperm.map _).mem_iff]
    exact hst.mem_source hindexed hi k
  have hstay := sum_rates_staying hmem hpicks
  have harrive : (arrived.map Flowinfo.flowRate).sum / maxLoad = received (loadOf (plannedVNFs s)) st.2.1 i := by
    have hflows : ∀ tuple ∈ plan', ∃ flow, flowOf st.1 tuple = .ok flow := fun tuple ht =>
      (hthere tuple (hperm.mem_iff.mp ht)).flow
    rw [sum_rates_unnumbered harrived, sum_rates_arriving_plan hflows, loadOf_carried hst.carried, received_perm hperm]
  have hsame : (v.flow.map Flowinfo.flowRate).sum / maxLoad = vnf.loadPercentage := by
    rw [hload, hflow]
    exact load_eq_of_keys hplanned.keys
  refine ⟨vnf', hvnf', ?_⟩
  rw [(planned_loads hrates).1, VNFinfo.load, hflow', List.map_append, List.sum_append, add_div, hstay, harrive,
    sub_div, hsame, List.map_map, sum_map_div, ← hflow]
  rfl

end Behind

/-! ## Squares -/

/-- A sum over a list by the indexes. -/
theorem sum_map_range {α : Type} (l : List α) (h : α → ℚ) :
    (l.map h).sum = ∑ i ∈ Finset.range l.length, ((l[i]?).map h).getD 0 := by
  have hsum := sum_map_without h (fun _ => false) l
  rw [without_none fun _ _ => rfl] at hsum
  rw [hsum]
  simp

/-! ## The variance -/

/-- Squares that are not larger in sum make a variance that is not larger. -/
theorem variance_le {x y : List ℚ} (hlength : x.length = y.length) (hsum : x.sum = y.sum)
    (hsquares : (x.map fun a => a ^ 2).sum ≤ (y.map fun a => a ^ 2).sum) : variance x ≤ variance y := by
  have hpow : ∀ l : List ℚ, (l.map fun a => a * a).sum = (l.map fun a => a ^ 2).sum := fun l => by
    simp only [sq]
  rw [variance, variance, hlength, hsum, hpow, hpow]
  exact sub_le_sub_right (div_le_div_of_nonneg_right hsquares (Nat.cast_nonneg _)) _

theorem sum_sq_sub (x : List ℚ) (c : ℚ) : (x.map fun a => (a - c) ^ 2).sum =
    (x.map fun a => a * a).sum - 2 * c * x.sum + x.length * c ^ 2 := by
  induction x with
  | nil => simp
  | cons a x ih =>
      simp only [List.map_cons, List.sum_cons, List.length_cons, Nat.cast_succ, ih]
      ring

/-- The variance by the distances from the mean. -/
theorem variance_eq (x : List ℚ) : variance x = (x.map fun a => (a - x.sum / x.length) ^ 2).sum / x.length := by
  rw [sum_sq_sub, variance]
  rcases eq_or_ne (x.length : ℚ) 0 with hzero | hne
  · simp [hzero]
  · field_simp
    ring

theorem variance_nonneg (x : List ℚ) : 0 ≤ variance x := by
  rw [variance_eq]
  refine div_nonneg (List.sum_nonneg fun a ha => ?_) (Nat.cast_nonneg _)
  obtain ⟨b, -, rfl⟩ := List.mem_map.mp ha
  exact sq_nonneg _

/-- There is no variance exactly if all are the mean. -/
theorem variance_eq_zero_iff (x : List ℚ) : variance x = 0 ↔ ∀ a ∈ x, a = x.sum / x.length := by
  rw [variance_eq]
  constructor
  · intro h a ha
    have hlength : (x.length : ℚ) ≠ 0 := by
      exact_mod_cast (List.length_pos_of_mem ha).ne'
    have hsum := (div_eq_zero_iff.mp h).resolve_right hlength
    have hnonneg : ∀ y ∈ x.map fun a => (a - x.sum / x.length) ^ 2, 0 ≤ y := by
      intro y hy
      obtain ⟨b, -, rfl⟩ := List.mem_map.mp hy
      exact sq_nonneg _
    have hle := List.single_le_sum hnonneg _ (List.mem_map_of_mem ha)
    rw [hsum] at hle
    exact sub_eq_zero.mp (pow_eq_zero_iff two_ne_zero |>.mp (le_antisymm hle (sq_nonneg _)))
  · intro h
    refine div_eq_zero_iff.mpr (Or.inl (List.sum_eq_zero fun y hy => ?_))
    obtain ⟨a, ha, rfl⟩ := List.mem_map.mp hy
    rw [← h a ha, sub_self, zero_pow two_ne_zero]

/-- One load is larger. -/
theorem variance_more (t more : ℚ) (rest : List ℚ) :
    variance ((t + more) :: rest) = variance (t :: rest) + more / (rest.length + 1) *
      (2 * t + more + more / (rest.length + 1) - 2 * (((t + more) :: rest).sum / (rest.length + 1))) := by
  rw [variance, variance]
  simp only [List.map_cons, List.sum_cons, List.length_cons, Nat.cast_succ]
  have hpos : (rest.length : ℚ) + 1 ≠ 0 := by positivity
  field_simp
  ring

end OFM.OFMAlgorithm
