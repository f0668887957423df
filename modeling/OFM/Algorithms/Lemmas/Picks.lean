import Mathlib.Algebra.BigOperators.Intervals
import OFM.Algorithms.Lemmas.Placement

/-!
# The flows that are picked

Each of the three ways to scale out picks different flows of the list, if what it takes for granted about the
network function is so.
-/

namespace OFM.OFMAlgorithm
open OFM.Lib

/-- Different flows of a list. -/
def PicksOf (flow : List Flowinfo) (picks : List Nat) : Prop := picks.Nodup ∧ ∀ i ∈ picks, i < flow.length

variable {flow : List Flowinfo} {vnf : VNFinfo} {allowed : Fault → Prop}

/-! ## Costs -/

theorem ends_costOf {wait : ℚ} {indexes : List Nat} (h : ∀ i ∈ indexes, i < flow.length) :
    Ends allowed (costOf flow wait indexes) fun _ => True := by
  refine Ends.bind (Ends.foldlM_const (fun _ => True) trivial fun i hi cost _ => ?_) fun _ _ => trivial
  rw [get_eq (List.getElem?_eq_getElem (h i hi))]
  trivial

/-! ## Choices -/

/-- A choice has its elements from the source, in the same order. -/
theorem ends_nchoosek (source : List Nat) (num : Nat) :
    Ends InRange (nchoosek source num) fun choices => ∀ choice ∈ choices, choice.Sublist source := by
  induction source, num using nchoosek.induct with
  | case1 source => 
      rw [nchoosek, if_pos rfl]
      simp
  | case2 num hnum hlen =>
      rw [nchoosek, if_neg hlen, if_pos hnum, dif_pos rfl]
      exact nofun
  | case3 source num hlen hnum hne ih₁ ih₂ =>
      rw [nchoosek, if_neg hlen, if_pos hnum, dif_neg hne]
      refine ih₁.bind fun withLast h₁ => ih₂.bind fun withoutLast h₂ => Ends.pure_iff.mpr fun choice hc => ?_
      rcases List.mem_append.mp hc with hc | hc
      · obtain ⟨choice, hchoice, rfl⟩ := List.mem_map.mp hc
        have hsub := (h₁ choice hchoice).append_right [source.getLast hne]
        rwa [List.dropLast_append_getLast] at hsub
      · exact (h₂ choice hc).trans (List.dropLast_sublist _)
  | case4 source num hlen hnum =>
      rw [nchoosek, if_neg hlen, if_neg hnum]
      intro choice hc
      obtain ⟨i, hi, rfl⟩ := List.mem_map.mp hc
      exact List.singleton_sublist.mpr hi

theorem picksOf_sublist {n : Nat} {choice : List Nat} (hn : n ≤ flow.length)
    (h : choice.Sublist (List.range n)) : PicksOf flow choice :=
  ⟨h.nodup List.nodup_range, fun _ hi => (List.mem_range.mp (h.subset hi)).trans_le hn⟩

theorem ends_considerChoice {f : Nat} {best : Best} {choice : List Nat} (hbest : PicksOf vnf.flow best.result)
    (hchoice : PicksOf vnf.flow choice) :
    Ends InRange (considerChoice vnf f best choice) fun best => PicksOf vnf.flow best.result := by
  refine Ends.bind (P := fun _ => True) (Ends.foldlM_const (fun _ => True) trivial fun i hi load _ => ?_) ?_
  · rw [get_eq (List.getElem?_eq_getElem (hchoice.2 i hi))]
    trivial
  · intro newLoad _
    refine Ends.ite (fun _ => hbest) fun _ => Ends.ite (fun _ => hbest) fun _ => ?_
    refine (ends_costOf hchoice.2).bind fun cost _ => ?_
    exact Ends.ite (fun _ => hchoice) fun _ => hbest

/-- The choice of `ScaleOutBest`, where the number of flows is not too large. -/
theorem ends_best (h : vnf.flowNum ≤ vnf.flow.length) :
    Ends InRange ([1, 2, 3, 4, 5].foldlM (fun best f => do
      let choices ← nchoosek (List.range vnf.flowNum.toNat) f
      choices.foldlM (considerChoice vnf f) best) (⟨[], 0x7fffffff⟩ : Best))
        fun best => PicksOf vnf.flow best.result := by
  refine Ends.foldlM_const (fun best : Best => PicksOf vnf.flow best.result)
    ⟨List.nodup_nil, List.forall_mem_nil _⟩ fun f _ best hbest => ?_
  refine (ends_nchoosek _ f).bind fun choices hchoices => ?_
  refine Ends.foldlM_const (fun best : Best => PicksOf vnf.flow best.result) hbest ?_
  intro choice hc best hbest
  exact ends_considerChoice hbest (picksOf_sublist (Int.toNat_le.mpr h) (hchoices choice hc))

/-! ## Rates -/

def rateAt (flow : List Flowinfo) (i : Nat) : ℚ := ((flow[i]?).map Flowinfo.flowRate).getD 0

theorem rateAt_eq {i : Nat} {f : Flowinfo} (h : flow[i]? = some f) : rateAt flow i = f.flowRate := by
  rw [rateAt, h]
  rfl

theorem sum_rateAt (flow : List Flowinfo) :
    ∑ i ∈ Finset.range flow.length, rateAt flow i = (flow.map Flowinfo.flowRate).sum := by
  induction flow with
  | nil => rfl
  | cons f flow ih =>
      rw [List.length_cons, Finset.sum_range_succ', List.map_cons, List.sum_cons, ← ih, add_comm]
      rfl

theorem limit_pos : 0 < maxLoad * thSafe := by
  rw [maxLoad, thSafe]
  norm_num

/-! ## One pick -/

theorem pick_oldLoad (st : Picking) (rate : ℚ) (i : Nat) : (st.pick rate i).oldLoad = st.oldLoad - rate := by
  rw [Picking.pick]
  split <;> rfl

theorem planned_pick (st : Picking) (rate : ℚ) (i : Nat) :
    (st.pick rate i).planned = st.planned ∨ (st.pick rate i).planned = st.planned ++ [i] := by
  rw [Picking.pick]
  split
  · exact Or.inr rfl
  · exact Or.inl rfl

theorem mem_planned_pick {st : Picking} {rate : ℚ} {i j : Nat} (h : j ∈ (st.pick rate i).planned) :
    j ∈ st.planned ∨ j = i := by
  rcases planned_pick st rate i with he | he
  · exact Or.inl (he ▸ h)
  · rw [he] at h
    simpa using h

/-- A flow that has not been planned may be. -/
theorem picksOf_pick {st : Picking} {i : Nat} (h : PicksOf flow st.planned) (hi : i < flow.length)
    (hnot : i ∉ st.planned) (rate : ℚ) : PicksOf flow (st.pick rate i).planned := by
  rcases planned_pick st rate i with he | he
  · rw [he]
    exact h
  · rw [he]
    refine ⟨?_, fun j hj => ?_⟩
    · rw [List.nodup_append]
      refine ⟨h.1, List.nodup_singleton i, ?_⟩
      rintro j hj k hk rfl
      exact hnot (List.mem_singleton.mp hk ▸ hj)
    · rcases List.mem_append.mp hj with hj | hj
      · exact h.2 j hj
      · exact List.mem_singleton.mp hj ▸ hi

/-! ## At random -/

theorem floor_lt_length {x : ℚ} {n : Nat} (hx : 0 ≤ x ∧ x < 1) (hn : 0 < n) : ⌊x * n⌋.toNat < n := by
  have hpos : (0 : ℚ) < n := by exact_mod_cast hn
  have hlt : ⌊x * n⌋ < n := by
    rw [Int.floor_lt]
    calc x * n < 1 * n := mul_lt_mul_of_pos_right hx.2 hpos
      _ = ((n : Int) : ℚ) := by simp
  omega

/-- There are flows to pick as long as the load is too high, if it is the load of the flows but for less than
is safe. -/
theorem ends_pickRandom {random : Nat → ℚ} (hrandom : ∀ n, 0 ≤ random n ∧ random n < 1) {excess : ℚ}
    (hexcess : excess < maxLoad * thSafe) {list : List Nat} {st : Picking} (hold : st.oldUnsafe)
    (hload : st.oldLoad = excess + (list.map (rateAt flow)).sum) (hlist : PicksOf flow list)
    (hplanned : PicksOf flow st.planned) (hnot : ∀ i ∈ st.planned, i ∉ list) :
    Ends InRange (pickRandom flow random list st) fun st' => PicksOf flow st'.planned := by
  induction hn : list.length generalizing list st with
  | zero =>
      rw [List.length_eq_zero_iff] at hn
      rw [hn, List.map_nil, List.sum_nil, add_zero] at hload
      exact absurd hold (by rw [Picking.oldUnsafe, hload]; exact not_le.mpr hexcess)
  | succ n ih =>
      have hindex := floor_lt_length (hrandom st.migCount) (hn ▸ Nat.succ_pos n : 0 < list.length)
      rw [pickRandom]
      split
      · rename_i hnone
        exact absurd hindex (Nat.not_lt.mpr (List.getElem?_eq_none_iff.mp hnone))
      · rename_i i hi
        obtain ⟨hlt, hget⟩ := List.getElem?_eq_some_iff.mp hi
        have hmem : i ∈ list := List.mem_of_getElem? hi
        obtain ⟨f, hf⟩ : ∃ f, flow[i]? = some f := ⟨_, List.getElem?_eq_getElem (hlist.2 i hmem)⟩
        have hpick := picksOf_pick hplanned (hlist.2 i hmem) (fun h => hnot i h hmem) f.flowRate
        have hperm := List.getElem_cons_eraseIdx_perm hlt
        rw [hget] at hperm
        have hnd := hperm.nodup_iff.mpr hlist.1
        obtain ⟨hnew, hnd⟩ := List.nodup_cons.mp hnd
        rw [get_eq hf]
        refine Ends.ite (fun hagain => ?_) fun _ => hpick
        refine ih hagain.1 ?_ ⟨hnd, fun j hj => hlist.2 j (List.mem_of_mem_eraseIdx hj)⟩ hpick ?_ ?_
        · have hsum := (hperm.map (rateAt flow)).sum_eq
          rw [List.map_cons, List.sum_cons, rateAt_eq hf] at hsum
          rw [pick_oldLoad, hload, ← hsum]
          ring
        · intro j hj hj'
          rcases mem_planned_pick hj with hj | rfl
          · exact hnot j hj (List.mem_of_mem_eraseIdx hj')
          · exact hnew hj'
        · rw [List.length_eraseIdx_of_lt hlt, hn, Nat.add_sub_cancel]

theorem ends_randomPicks {random : Nat → ℚ} (hrandom : ∀ n, 0 ≤ random n ∧ random n < 1)
    (h : vnf.loadPercentage - vnf.load < thSafe) :
    Ends InRange (randomPicks random vnf) fun st => PicksOf vnf.flow st.planned := by
  have hmax : (0 : ℚ) < maxLoad := by
    rw [maxLoad]
    norm_num
  refine Ends.ite (fun hold => ?_) fun _ => ⟨List.nodup_nil, List.forall_mem_nil _⟩
  refine ends_pickRandom hrandom (mul_lt_mul_of_pos_left h hmax) hold ?_
    ⟨List.nodup_range, fun i hi => List.mem_range.mp hi⟩ ⟨List.nodup_nil, List.forall_mem_nil _⟩
    (List.forall_mem_nil _)
  have hsum : ((List.range vnf.flow.length).map (rateAt vnf.flow)).sum =
      (vnf.flow.map Flowinfo.flowRate).sum := by
    rw [← sum_rateAt]
    rfl
  rw [hsum, VNFinfo.load]
  field_simp
  ring

/-! ## The largest product -/

/-- The products of the flows that have not been picked; that of the others is the least. -/
structure Products (flow : List Flowinfo) (picked : Finset Nat) (product : List ℚ) : Prop where
  length : product.length = flow.length
  done : ∀ i ∈ picked, ∀ p, product[i]? = some p → p = leastProduct
  other : ∀ i ∉ picked, ∀ p, product[i]? = some p → leastProduct < p

variable {picked : Finset Nat} {product : List ℚ}

theorem Products.set (h : Products flow picked product) (i : Nat) :
    Products flow (insert i picked) (product.set i leastProduct) := by
  constructor
  · rw [List.length_set, h.length]
  · intro j hj p hp
    rw [List.getElem?_set] at hp
    split at hp
    · split at hp
      · exact (Option.some.inj hp).symm
      · cases hp
    · rename_i hne
      exact h.done j ((Finset.mem_insert.mp hj).resolve_left (Ne.symm hne)) p hp
  · intro j hj p hp
    rw [Finset.mem_insert, not_or] at hj
    rw [List.getElem?_set_ne (Ne.symm hj.1)] at hp
    exact h.other j hj.2 p hp

/-- As long as one is left the largest product is that of one that has not been picked. -/
theorem ends_largest (h : Products flow picked product) (hleft : ∃ i < flow.length, i ∉ picked) :
    Ends InRange ((List.range flow.length).foldlM (largerProduct flow product) (leastProduct, 0))
      fun best => best.2 < flow.length ∧ best.2 ∉ picked := by
  obtain ⟨i₀, hi₀, hnot⟩ := hleft
  -- Up to here all have been picked, or the best one has not.
  refine (Ends.foldlM (fun rest best => best.2 < flow.length ∧
    ((best.1 = leastProduct ∧ ∀ i < flow.length, i ∉ rest → i ∈ picked) ∨
      leastProduct < best.1 ∧ best.2 ∉ picked))
    ⟨Nat.zero_lt_of_lt hi₀, Or.inl ⟨rfl, fun i hi hmem => absurd (List.mem_range.mpr hi) hmem⟩⟩ ?_).mono ?_
  · rintro i rest best ⟨pre, hpre⟩ ⟨hbest, hcases⟩
    have hi : i < flow.length := by
      have hmem : i ∈ List.range flow.length := hpre ▸ by simp
      exact List.mem_range.mp hmem
    obtain ⟨p, hp⟩ : ∃ p, product[i]? = some p := ⟨_, List.getElem?_eq_getElem (h.length ▸ hi)⟩
    rw [largerProduct, get_eq hp, get_eq (List.getElem?_eq_getElem hi),
      get_eq (List.getElem?_eq_getElem hbest)]
    refine Ends.ite (fun hlarger => Ends.pure_iff.mpr ⟨hi, ?_⟩) fun hlarger => Ends.pure_iff.mpr ⟨hbest, ?_⟩
    · by_cases hpicked : i ∈ picked
      · have hpleast := h.done i hpicked p hp
        rcases hcases with ⟨hleast, hall⟩ | ⟨hless, -⟩
        · refine Or.inl ⟨hpleast, fun j hj hrest => ?_⟩
          by_cases hji : j = i
          · exact hji ▸ hpicked
          · exact hall j hj (by simp [hji, hrest])
        · rcases hlarger with hlt | ⟨heq, -⟩
          · exact absurd (hpleast ▸ hlt) (not_lt.mpr hless.le)
          · exact absurd (heq.symm.trans hpleast) hless.ne'
      · exact Or.inr ⟨h.other i hpicked p hp, hpicked⟩
    · refine hcases.imp_left ?_
      rintro ⟨hleast, hall⟩
      refine ⟨hleast, fun j hj hrest => ?_⟩
      by_cases hji : j = i
      · by_contra hpicked
        rw [hji] at hpicked
        exact hlarger (Or.inl (hleast ▸ h.other i hpicked p hp))
      · exact hall j hj (by simp [hji, hrest])
  · rintro best ⟨hbest, ⟨-, hall⟩ | ⟨-, hpicked⟩⟩
    · exact absurd (hall i₀ hi₀ List.not_mem_nil) hnot
    · exact ⟨hbest, hpicked⟩

theorem ends_pickGreedy {fuel : Nat} {st : Picking} (h : Products flow picked product) (hold : st.oldUnsafe)
    (hload : st.oldLoad = ∑ i ∈ Finset.range flow.length \ picked, rateAt flow i)
    (hplanned : PicksOf flow st.planned) (hsub : ∀ i ∈ st.planned, i ∈ picked) :
    Ends InRange (pickGreedy flow fuel product st) fun st' => PicksOf flow st'.planned := by
  induction fuel generalizing picked product st with
  | zero => exact nofun
  | succ fuel ih =>
      have hleft : ∃ i < flow.length, i ∉ picked := by
        by_contra hall
        push Not at hall
        have hempty : Finset.range flow.length \ picked = ∅ :=
          Finset.sdiff_eq_empty_iff_subset.mpr fun i hi => hall i (Finset.mem_range.mp hi)
        rw [hempty, Finset.sum_empty] at hload
        exact absurd hold (by rw [Picking.oldUnsafe, hload]; exact not_le.mpr limit_pos)
      refine (ends_largest h hleft).bind ?_
      rintro ⟨p, i⟩ ⟨hi, hnot⟩
      have hproduct : product[i]? = some _ := List.getElem?_eq_getElem (h.length ▸ hi)
      obtain ⟨f, hf⟩ : ∃ f, flow[i]? = some f := ⟨_, List.getElem?_eq_getElem hi⟩
      rw [get_eq hproduct, get_eq hf]
      have hpick := picksOf_pick hplanned hi (fun hmem => hnot (hsub i hmem)) f.flowRate
      refine Ends.ite (fun hagain => ?_) fun _ => hpick
      refine ih (h.set i) hagain.1 ?_ hpick fun j hj => ?_
      · have herase : Finset.range flow.length \ insert i picked =
            (Finset.range flow.length \ picked).erase i := Finset.sdiff_insert ..
        rw [pick_oldLoad, hload, herase, Finset.sum_erase_eq_sub, rateAt_eq hf]
        exact Finset.mem_sdiff.mpr ⟨Finset.mem_range.mpr hi, hnot⟩
      · rcases mem_planned_pick hj with hj | rfl
        · exact Finset.mem_insert_of_mem (hsub j hj)
        · exact Finset.mem_insert_self ..

theorem ends_greedyPicks (fuel : Nat) (h : ∀ f ∈ vnf.flow, leastProduct < f.product) :
    Ends InRange (greedyPicks fuel vnf) fun st => PicksOf vnf.flow st.planned := by
  refine Ends.ite (fun hold => ?_) fun _ => ⟨List.nodup_nil, List.forall_mem_nil _⟩
  have hproducts : Products vnf.flow ∅ (vnf.flow.map Flowinfo.product) := by
    refine ⟨List.length_map _, fun i hi => absurd hi (Finset.notMem_empty i), fun i _ p hp => ?_⟩
    rw [List.getElem?_map] at hp
    obtain ⟨f, hf, rfl⟩ := Option.map_eq_some_iff.mp hp
    exact h f (List.mem_of_getElem? hf)
  refine ends_pickGreedy hproducts hold ?_ ⟨List.nodup_nil, List.forall_mem_nil _⟩ (List.forall_mem_nil _)
  rw [Finset.sdiff_empty, sum_rateAt]

end OFM.OFMAlgorithm
