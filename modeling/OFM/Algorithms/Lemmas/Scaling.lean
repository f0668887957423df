import Mathlib.Algebra.Order.Field.Rat
import Mathlib.Tactic.Linarith
import Mathlib.Tactic.NormNum
import OFM.Algorithms.Lemmas.Balancing

/-!
# What scaling changes

`ScaleInRandom` adds loads to loads and moves no flow; a network function that `ScaleOutCheck` adds has
the id 0.
-/

namespace OFM.OFMAlgorithm
open OFM.Lib

/-! ## Scaling in -/

def loadsOf (vnfs : List VNFinfo) (i : Nat) : ℚ := (vnfs[i]?.map VNFinfo.loadPercentage).getD 0

theorem loadsOf_eq {vnfs : List VNFinfo} {i : Nat} {vnf : VNFinfo} (hi : vnfs[i]? = some vnf) :
    loadsOf vnfs i = vnf.loadPercentage := by simp [loadsOf, hi]

/-- The flows that are looked up for the costs are there. -/
def VNFinfo.Complete (vnf : VNFinfo) : Prop := vnf.flowNum.toNat ≤ vnf.flow.length

/-- The network function at `i` would be merged with the one at `j`, and with a load. -/
def Mergeable (vnfs : List VNFinfo) (i j : Nat) : Prop :=
  i < j ∧ ∃ v w, vnfs[i]? = some v ∧ vnfs[j]? = some w ∧ v.loadPercentage < thLow ∧
    v.loadPercentage + w.loadPercentage ≤ thSafe ∧ v.loadPercentage ≠ 0

/-- The loads are added at the target. -/
def merge (vnfs : List VNFinfo) (load : ℚ) (j : Nat) : List VNFinfo :=
  vnfs.modify j fun target => { target with loadPercentage := target.loadPercentage + load }

/-- What a round of `ScaleInRandom` does. -/
theorem ends_scaleInStep (st : List VNFinfo × ℚ) (i : Nat) :
    Ends AnyFault (scaleInStep st i) fun st' => ∃ v, st.1[i]? = some v ∧
      (st'.1 = st.1 ∧ (v.loadPercentage < thLow → mergeTarget st.1 i v.loadPercentage = none) ∨
        ∃ j, v.loadPercentage < thLow ∧ mergeTarget st.1 i v.loadPercentage = some j ∧
          st'.1 = merge st.1 v.loadPercentage j) := by
  refine (ends_get st.1 i).bind ?_
  rintro v ⟨n, hn, hv⟩
  obtain rfl : i = n := Int.ofNat_inj.mp hn
  refine (Ends.any _).bind fun cost _ => ?_
  refine Ends.ite (fun hlow => ?_) fun hlow => ?_
  · cases htarget : mergeTarget st.1 i v.loadPercentage with
    | none => exact ⟨v, hv, Or.inl ⟨rfl, fun _ => htarget⟩⟩
    | some j => exact ⟨v, hv, Or.inr ⟨j, hlow, htarget, rfl⟩⟩
  · exact ⟨v, hv, Or.inl ⟨rfl, fun h => absurd h hlow⟩⟩

/-- The target is the first network function behind `i` that fits. -/
theorem mergeTarget_eq_some {vnfs : List VNFinfo} {i j : Nat} {load : ℚ}
    (h : mergeTarget vnfs i load = some j) :
    i < j ∧ (∃ w, vnfs[j]? = some w ∧ load + w.loadPercentage ≤ thSafe) ∧
      ∀ k u, i < k → k < j → vnfs[k]? = some u → thSafe < load + u.loadPercentage := by
  obtain ⟨⟨w, n⟩, hfind, rfl⟩ := Option.map_eq_some_iff.mp h
  obtain ⟨hw, pre, suf, hsplit, hpre⟩ := List.find?_eq_some_iff_append.mp hfind
  simp only [decide_eq_true_eq] at hw
  have hmem : (w, n) ∈ vnfs.zipIdx := hsplit ▸ List.mem_append_right _ (List.mem_cons_self ..)
  have hlength : pre.length = n := by
    have hget : vnfs.zipIdx[pre.length]? = some (w, n) := by
      rw [hsplit, List.getElem?_append_right (Nat.le_refl _), Nat.sub_self]
      rfl
    rw [List.getElem?_zipIdx] at hget
    obtain ⟨u, -, hu⟩ := Option.map_eq_some_iff.mp hget
    exact (Nat.zero_add _).symm.trans (congrArg Prod.snd hu)
  refine ⟨hw.1, ⟨w, List.mem_zipIdx_iff_getElem?.mp hmem, hw.2⟩, fun k u hik hkj hu => ?_⟩
  have hk : vnfs.zipIdx[k]? = some (u, k) := by
    rw [List.getElem?_zipIdx, hu, Option.map_some, Nat.zero_add]
  rw [hsplit, List.getElem?_append_left (by omega)] at hk
  have hno := hpre (u, k) (List.mem_of_getElem? hk)
  simp only [Bool.not_eq_true', decide_eq_false_iff_not, not_and, not_le] at hno
  exact hno hik

theorem mergeTarget_ne_none {vnfs : List VNFinfo} {i j : Nat} {load : ℚ} {w : VNFinfo} (hij : i < j)
    (hw : vnfs[j]? = some w) (hsafe : load + w.loadPercentage ≤ thSafe) :
    mergeTarget vnfs i load ≠ none := by
  intro h
  have hno := List.find?_eq_none.mp (Option.map_eq_none_iff.mp h) (w, j)
    (List.mem_zipIdx_iff_getElem?.mpr hw)
  simp only [decide_eq_true_eq] at hno
  exact hno ⟨hij, hsafe⟩

theorem merge_zero (vnfs : List VNFinfo) (j : Nat) : merge vnfs 0 j = vnfs := by
  refine List.ext_getElem? fun k => ?_
  rw [merge, List.getElem?_modify]
  cases vnfs[k]? with
  | none => rfl
  | some v =>
      split
      · exact congrArg (fun load => some { v with loadPercentage := load }) (add_zero _)
      · rfl

/-- Where nothing is mergeable, a round changes nothing. -/
theorem ends_scaleInStep_same {vnfs : List VNFinfo} {total : ℚ} {i : Nat}
    (h : ∀ j, ¬ Mergeable vnfs i j) :
    Ends AnyFault (scaleInStep (vnfs, total) i) fun st => st.1 = vnfs := by
  refine (ends_scaleInStep _ _).mono ?_
  rintro st ⟨v, hv, ⟨heq, -⟩ | ⟨j, hlow, htarget, heq⟩⟩
  · exact heq
  · obtain ⟨hij, ⟨w, hw, hsafe⟩, -⟩ := mergeTarget_eq_some htarget
    have hzero : v.loadPercentage = 0 := by
      by_contra hne
      exact h j ⟨hij, v, w, hv, hw, hlow, hsafe, hne⟩
    rw [heq, hzero, merge_zero]

theorem ends_scaleIn_same {vnfs : List VNFinfo} {is : List Nat}
    (h : ∀ i ∈ is, ∀ j, ¬ Mergeable vnfs i j) (total : ℚ) :
    Ends AnyFault (is.foldlM scaleInStep (vnfs, total)) fun st => st.1 = vnfs := by
  refine Ends.foldlM_const (fun st : List VNFinfo × ℚ => st.1 = vnfs) rfl ?_
  rintro i hi ⟨vnfs', total'⟩ rfl
  exact ends_scaleInStep_same (h i hi)

/-- A target keeps the load it has been given. -/
theorem ends_scaleIn_target {i j : Nat} {w : VNFinfo} {st : List VNFinfo × ℚ} {is : List Nat}
    (his : ∀ k ∈ is, i < k) (hw : st.1[j]? = some w)
    (hbetween : ∀ k u, i < k → k < j → st.1[k]? = some u → thLow ≤ u.loadPercentage) :
    Ends AnyFault (is.foldlM scaleInStep st) fun st' => st'.1[j]? = some w := by
  refine (Ends.foldlM_const (fun st : List VNFinfo × ℚ => st.1[j]? = some w ∧
    ∀ k u, i < k → k < j → st.1[k]? = some u → thLow ≤ u.loadPercentage) ⟨hw, hbetween⟩ ?_).mono
      fun st h => h.1
  rintro k hk st ⟨hw, hbetween⟩
  refine (ends_scaleInStep st k).mono ?_
  rintro st' ⟨v, hv, ⟨heq, -⟩ | ⟨m, hlow, htarget, heq⟩⟩
  · exact heq ▸ ⟨hw, hbetween⟩
  · -- Only a network function behind the target is merged, and with one behind it.
    have hjk : j ≤ k := by
      by_contra hlt
      exact absurd hlow (not_lt.mpr (hbetween k v (his k hk) (by omega) hv))
    have hkm := (mergeTarget_eq_some htarget).1
    rw [heq, merge]
    refine ⟨?_, fun l u hil hlj hu => hbetween l u hil hlj ?_⟩
    · rwa [List.getElem?_modify_ne _ _ (by omega)]
    · rwa [List.getElem?_modify_ne _ _ (by omega)] at hu

/-- `ScaleInRandom` leaves a representation behind exactly if nothing is mergeable. -/
theorem ends_scaleInRandom {s : Algorithms} (h : s.Represented) :
    Ends AnyFault (scaleInRandom s) fun result =>
      result.2.Represented ↔ ∀ i j, ¬ Mergeable s.globalVNFinfo i j := by
  by_cases hm : ∃ i j, Mergeable s.globalVNFinfo i j
  · classical
    -- The first network function that is merged with a load.
    obtain ⟨i, ⟨j, hij, v, w, hv, hw, hlow, hsafe, hne⟩, hmin⟩ :
        ∃ i, (∃ j, Mergeable s.globalVNFinfo i j) ∧ ∀ k < i, ∀ j, ¬ Mergeable s.globalVNFinfo k j :=
      ⟨Nat.find hm, Nat.find_spec hm, fun k hk j hkj => Nat.find_min hm hk ⟨j, hkj⟩⟩
    obtain ⟨hi, -⟩ := List.getElem?_eq_some_iff.mp hv
    have hrange : List.range s.globalVNFinfo.length =
        List.range i ++ i :: List.range' (i + 1) (s.globalVNFinfo.length - (i + 1)) := by
      have hsucc := @List.range'_succ i (s.globalVNFinfo.length - (i + 1)) 1
      have happend := List.range'_append_1 (s := 0) (m := i)
        (n := s.globalVNFinfo.length - (i + 1) + 1)
      rw [Nat.zero_add, ← List.range_eq_range', ← List.range_eq_range', hsucc] at happend
      rw [happend]
      congr 1
      omega
    have hmerged : Ends AnyFault
        ((List.range s.globalVNFinfo.length).foldlM scaleInStep (s.globalVNFinfo, 0)) fun st =>
          ∃ (m : Nat) (u : VNFinfo), s.globalVNFinfo[m]? = some u ∧
            st.1[m]? = some { u with loadPercentage := u.loadPercentage + v.loadPercentage } := by
      rw [hrange, List.foldlM_append]
      refine (ends_scaleIn_same (fun k hk => hmin k (List.mem_range.mp hk)) 0).bind ?_
      rintro ⟨vnfs, total⟩ rfl
      rw [List.foldlM_cons]
      refine (ends_scaleInStep _ i).bind ?_
      rintro st ⟨v', hv', hround⟩
      obtain rfl := Option.some.inj (hv.symm.trans hv')
      rcases hround with ⟨-, hnone⟩ | ⟨m, -, htarget, heq⟩
      · exact absurd (hnone hlow) (mergeTarget_ne_none hij hw hsafe)
      · obtain ⟨him, ⟨u, hu, -⟩, hfirst⟩ := mergeTarget_eq_some htarget
        refine (ends_scaleIn_target (i := i) (j := m)
          (w := { u with loadPercentage := u.loadPercentage + v.loadPercentage }) ?_ ?_ ?_).mono
            fun st' hst' => ⟨m, u, hu, hst'⟩
        · intro k hk
          exact (List.mem_range'_1.mp hk).1
        · rw [heq, merge, List.getElem?_modify_eq, hu]
          rfl
        · intro k u' hik hkm hu'
          rw [heq, merge, List.getElem?_modify_ne _ _ (by omega)] at hu'
          have hover := hfirst k u' hik hkm hu'
          have hsum : thSafe = thLow + thLow := by
            rw [thSafe, thLow]
            norm_num
          linarith
    refine Ends.bind hmerged ?_
    rintro st ⟨m, u, hu, hm'⟩
    refine Ends.pure_iff.mpr (iff_of_false (fun hrep => ?_) fun hno =>
      hno i j ⟨hij, v, w, hv, hw, hlow, hsafe, hne⟩)
    have hload := (hrep m _ hm').2.2
    rw [show VNFinfo.load { u with loadPercentage := u.loadPercentage + v.loadPercentage } = u.load from
      rfl, ← (h m u hu).2.2] at hload
    exact hne (left_eq_add.mp hload.symm)
  · refine (ends_scaleIn_same (fun i _ j hij => hm ⟨i, j, hij⟩) 0).bind fun st hst => ?_
    refine Ends.pure_iff.mpr (iff_of_true ?_ fun i j hij => hm ⟨i, j, hij⟩)
    show ∀ (i : Nat) (vnf : VNFinfo), st.1[i]? = some vnf → _
    rw [hst]
    exact h

/-! ## Scaling out -/

/-- The ids of the network functions stay as they are. -/
def SameIds (s s' : Algorithms) : Prop :=
  s'.globalVNFinfo.map VNFinfo.vnfId = s.globalVNFinfo.map VNFinfo.vnfId

theorem ends_scaleOut_ids (fuel : Nat) (s : Algorithms) (vnfId : Int) :
    Ends AnyFault (scaleOut fuel s vnfId) fun result => SameIds s result.2 := by
  refine (Ends.any _).bind fun vnf _ => ?_
  refine (Ends.any _).bind fun st _ => ?_
  refine (Ends.any _).bind fun cost _ => ?_
  exact (ends_migrateTotal_vnfId _).bind fun _ h => h

theorem ends_scaleOutRandom_ids (random : Nat → ℚ) (s : Algorithms) (vnfId : Int) :
    Ends AnyFault (scaleOutRandom random s vnfId) fun result => SameIds s result.2 := by
  refine (Ends.any _).bind fun vnf _ => ?_
  refine (Ends.any _).bind fun st _ => ?_
  refine (Ends.any _).bind fun cost _ => ?_
  exact (ends_migrateTotal_vnfId _).bind fun _ h => h

theorem ends_scaleOutBest_ids (s : Algorithms) (vnfId : Int) :
    Ends AnyFault (scaleOutBest s vnfId) fun result => SameIds s result.2 := by
  refine (Ends.any _).bind fun vnf _ => ?_
  refine (Ends.any _).bind fun best _ => ?_
  exact (ends_migrateTotal_vnfId _).bind fun _ h => h

/-- Behind `NewVNFInstance` a list that was not empty has an id that is not the index. -/
theorem not_represented_of_new {s s' : Algorithms} (hne : s.globalVNFinfo ≠ [])
    (hids : SameIds (newVNFInstance s) s') : ¬ s'.Represented := by
  intro h
  have hid : (s'.globalVNFinfo.map VNFinfo.vnfId)[s.globalVNFinfo.length]? = some 0 := by
    rw [hids, newVNFInstance, List.map_append, List.getElem?_append_right (by rw [List.length_map]),
      List.length_map, Nat.sub_self]
    rfl
  have hindex := (indexed_iff _).mp h.indexed _ _ hid
  exact hne (List.length_eq_zero_iff.mp (Int.ofNat_eq_zero.mp hindex.symm))

/-- `ScaleOutCheck` leaves a representation behind exactly if it adds no network function. -/
theorem ends_scaleOutCheck {s : Algorithms} (h : s.Represented) (fuel : Nat) (draws : Draws) (mode : Int) :
    Ends AnyFault (scaleOutCheck fuel draws mode s) fun result =>
      result.2.Represented ↔ ∀ vnf ∈ s.globalVNFinfo.head?, ¬ thHigh < vnf.loadPercentage := by
  rw [scaleOutCheck]
  split
  · rename_i hnil
    refine iff_of_true h fun vnf hvnf => ?_
    rw [hnil] at hvnf
    cases hvnf
  · rename_i vnf vnfs hcons
    have hne : s.globalVNFinfo ≠ [] := hcons ▸ List.cons_ne_nil _ _
    refine Ends.ite (fun hhigh => ?_) fun hhigh => ?_
    · have hno : ¬ ∀ vnf ∈ s.globalVNFinfo.head?, ¬ thHigh < vnf.loadPercentage := by
        rw [hcons]
        exact fun hlow => hlow vnf rfl hhigh
      refine Ends.mono (P := fun result => SameIds (newVNFInstance s) result.2) ?_ fun result hids =>
        iff_of_false (not_represented_of_new hne hids) hno
      refine Ends.ite (fun _ => ends_scaleOut_ids ..) fun _ => ?_
      refine Ends.ite (fun _ => ends_scaleOutBest_ids ..) fun _ => ?_
      exact Ends.ite (fun _ => ends_scaleOutRandom_ids ..) fun _ => rfl
    · refine iff_of_true h fun vnf' hvnf' => ?_
      rw [hcons] at hvnf'
      obtain rfl := Option.some.inj hvnf'
      exact hhigh

end OFM.OFMAlgorithm
