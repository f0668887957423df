import OFM.Algorithms.Lemmas.Picks
import OFM.Algorithms.Lemmas.Plan
import OFM.Algorithms.Lemmas.Scaling
import OFM.Lib.Merging

/-!
# What `ScaleInRandom` merges

Every merge is of two network functions that have not been merged away, leaves the load of the target safe, and
keeps the sum of the loads of those that are left.
-/

namespace OFM.OFMAlgorithm
open OFM.Lib

variable {vnfs : List VNFinfo} {st st' : List VNFinfo × ℚ} {i j : Nat} {is : List Nat} {vnf : VNFinfo}

/-! ## The merges of a call -/

/-- The merge of the round for a network function, if there is one. -/
def mergeAt (vnfs : List VNFinfo) (i : Nat) : Option (Nat × Nat) := do
  let vnf ← vnfs[i]?
  if vnf.loadPercentage < thLow then (mergeTarget vnfs i vnf.loadPercentage).map fun j => (i, j) else none

/-- The merges of some rounds, and what they leave, be it by an exception. -/
def scaleInTrace : List Nat → List VNFinfo × ℚ → List (Nat × Nat) × List VNFinfo
  | [], st => ([], st.1)
  | i :: is, st =>
      match scaleInStep st i with
      | .ok st' => ((mergeAt st.1 i).toList ++ (scaleInTrace is st').1, (scaleInTrace is st').2)
      | .error _ => ([], st.1)

theorem scaleInTrace_of_ok (h : is.foldlM scaleInStep st = .ok st') : (scaleInTrace is st).2 = st'.1 := by
  induction is generalizing st with
  | nil => exact congrArg Prod.fst (Except.ok.inj h)
  | cons i is ih =>
      rw [List.foldlM_cons] at h
      obtain ⟨mid, hmid, h⟩ := bind_eq_ok.mp h
      rw [scaleInTrace, hmid]
      exact ih h

/-! ## One round -/

theorem scaleInStep_cases (h : scaleInStep st i = .ok st') :
    (mergeAt st.1 i = none ∧ st'.1 = st.1) ∨ ∃ v w j, st.1[i]? = some v ∧ st.1[j]? = some w ∧ i < j ∧
      w.loadPercentage + v.loadPercentage ≤ thSafe ∧ mergeAt st.1 i = some (i, j) ∧
      st'.1 = merge st.1 v.loadPercentage j := by
  obtain ⟨v, hv, hcases⟩ := (ends_scaleInStep st i).of_eq h
  rcases hcases with ⟨hsame, hnone⟩ | ⟨j, hlow, htarget, hmerge⟩
  · left
    refine ⟨?_, hsame⟩
    simp only [mergeAt, hv, Option.bind_eq_bind, Option.bind_some]
    split
    · simp [hnone ‹_›]
    · rfl
  · right
    obtain ⟨hij, ⟨w, hw, hsafe⟩, -⟩ := mergeTarget_eq_some htarget
    rw [add_comm] at hsafe
    refine ⟨v, w, j, hv, hw, hij, hsafe, ?_, hmerge⟩
    simp [mergeAt, hv, hlow, htarget]

/-- The loads change as in a merging of numbers. -/
theorem loadsOf_merge {v w : VNFinfo} (hv : vnfs[i]? = some v) (hw : vnfs[j]? = some w) :
    loadsOf (merge vnfs v.loadPercentage j) = Merging.merge (loadsOf vnfs) (i, j) := by
  funext k
  rw [Merging.merge, loadsOf_eq hv, loadsOf_eq hw]
  by_cases hkj : k = j
  · subst hkj
    simp [loadsOf, merge, hw]
  · rw [Function.update_of_ne hkj, loadsOf, merge, List.getElem?_modify_ne _ _ (Ne.symm hkj)]
    rfl

/-! ## All rounds -/

/-- The rounds come in increasing order, so that what has been merged away is behind them. -/
theorem scaleInTrace_sound {gone : Finset Nat} (his : is.Pairwise (· < ·)) (hgone : ∀ g ∈ gone, ∀ i ∈ is, g < i) :
    Merging.Sound thSafe gone (loadsOf st.1) (scaleInTrace is st).1 ∧
      loadsOf (scaleInTrace is st).2 = Merging.run (loadsOf st.1) (scaleInTrace is st).1 ∧
      (scaleInTrace is st).2.length = st.1.length ∧
      ∀ m ∈ (scaleInTrace is st).1, m.1 < m.2 ∧ m.2 < st.1.length := by
  induction is generalizing st gone with
  | nil => exact ⟨.nil, rfl, rfl, by simp [scaleInTrace]⟩
  | cons i is ih =>
      obtain ⟨hi, his⟩ := List.pairwise_cons.mp his
      rw [scaleInTrace]
      cases hstep : scaleInStep st i with
      | error e => exact ⟨.nil, rfl, rfl, by simp⟩
      | ok st' =>
          rcases scaleInStep_cases hstep with ⟨hnone, hsame⟩ | ⟨v, w, j, hv, hw, hij, hsafe, hsome, hmerge⟩
          · have hrest := @ih st' gone his fun g hg k hk => hgone g hg k (List.mem_cons_of_mem i hk)
            rw [hsame] at hrest
            simpa [hnone] using hrest
          · have hlt := (List.getElem?_eq_some_iff.mp hw).1
            have hlength : st'.1.length = st.1.length := by rw [hmerge, merge, List.length_modify]
            have hloads : loadsOf st'.1 = Merging.merge (loadsOf st.1) (i, j) := by rw [hmerge, loadsOf_merge hv hw]
            have hgone' : ∀ g ∈ insert i gone, ∀ k ∈ is, g < k := by
              intro g hg k hk
              rcases Finset.mem_insert.mp hg with rfl | hg
              · exact hi k hk
              · exact hgone g hg k (List.mem_cons_of_mem i hk)
            obtain ⟨hsound, hrun, hlength', hall⟩ := @ih st' (insert i gone) his hgone'
            rw [hloads] at hsound hrun
            rw [hlength] at hlength' hall
            have hfresh : ∀ k, i ≤ k → k ∉ gone := by
              intro k hk hmem
              have hki := hgone k hmem i (List.mem_cons_self ..)
              omega
            rw [hsome]
            refine ⟨?_, hrun, hlength', List.forall_mem_cons.mpr ⟨⟨hij, hlt⟩, hall⟩⟩
            apply Merging.Sound.cons (hfresh i (Nat.le_refl i)) (hfresh j hij.le) hij.ne _ hsound
            rwa [loadsOf_eq hv, loadsOf_eq hw]

/-! ## When it returns -/

theorem costOf_range_iff (flow : List Flowinfo) (wait : ℚ) (n : Nat) :
    (∃ cost, costOf flow wait (List.range n) = .ok cost) ↔ n ≤ flow.length := by
  constructor
  · intro h
    cases n with
    | zero => exact Nat.zero_le _
    | succ n =>
        -- The last flow is there.
        obtain ⟨cost, hcost⟩ := h
        rw [costOf, List.range_succ, List.foldlM_append] at hcost
        obtain ⟨sum, hsum, -⟩ := bind_eq_ok.mp hcost
        obtain ⟨before, -, hlast⟩ := bind_eq_ok.mp hsum
        rw [List.foldlM_cons] at hlast
        obtain ⟨after, hafter, -⟩ := bind_eq_ok.mp hlast
        obtain ⟨f, hf, -⟩ := bind_eq_ok.mp hafter
        obtain ⟨k, hk, hf⟩ := (ends_get flow n).of_eq hf
        obtain rfl : n = k := Int.ofNat_inj.mp hk
        exact (List.getElem?_eq_some_iff.mp hf).1
  · intro h
    have hends : Ends Never (costOf flow wait (List.range n)) fun _ => True :=
      ends_costOf fun i hi => (List.mem_range.mp hi).trans_le h
    obtain ⟨cost, hcost, -⟩ := ok_of_never hends
    exact ⟨cost, hcost⟩

theorem scaleInStep_ok_iff (hv : st.1[i]? = some vnf) : (∃ st', scaleInStep st i = .ok st') ↔ vnf.Complete := by
  rw [VNFinfo.Complete, ← costOf_range_iff vnf.flow sfmt vnf.flowNum.toNat, scaleInStep, get_eq hv, ok_bind]
  constructor
  · intro h
    obtain ⟨st', hst'⟩ := h
    obtain ⟨cost, hcost, -⟩ := bind_eq_ok.mp hst'
    exact ⟨cost, hcost⟩
  · intro h
    obtain ⟨cost, hcost⟩ := h
    rw [hcost, ok_bind]
    split
    · cases mergeTarget st.1 i vnf.loadPercentage with
      | none => exact ⟨_, rfl⟩
      | some j => exact ⟨_, rfl⟩
    · exact ⟨_, rfl⟩

/-- No round changes what another one looks up. -/
theorem complete_scaleInStep (h : scaleInStep st i = .ok st') {k : Nat} :
    (∀ vnf, st'.1[k]? = some vnf → vnf.Complete) ↔ ∀ vnf, st.1[k]? = some vnf → vnf.Complete := by
  rcases scaleInStep_cases h with ⟨-, hsame⟩ | ⟨v, w, j, -, -, -, -, -, hmerge⟩
  · rw [hsame]
  · rw [hmerge, merge, List.getElem?_modify]
    cases st.1[k]? with
    | none => simp
    | some u => by_cases hjk : j = k <;> simp [hjk, VNFinfo.Complete]

theorem scaleIn_ok_iff (his : ∀ i ∈ is, i < st.1.length) : (∃ st', is.foldlM scaleInStep st = .ok st') ↔
    ∀ i ∈ is, ∀ vnf, st.1[i]? = some vnf → vnf.Complete := by
  induction is generalizing st with
  | nil => exact iff_of_true ⟨st, rfl⟩ (List.forall_mem_nil _)
  | cons i is ih =>
      rw [List.forall_mem_cons] at his ⊢
      have hv := List.getElem?_eq_getElem his.1
      rw [List.foldlM_cons]
      cases hstep : scaleInStep st i with
      | error e =>
          have hno : ¬ (st.1[i]).Complete := by
            rw [← scaleInStep_ok_iff hv, hstep]
            simp
          refine iff_of_false ?_ fun h => hno (h.1 _ hv)
          rintro ⟨st', hst'⟩
          cases hst'
      | ok mid =>
          have hthis : (st.1[i]).Complete := (scaleInStep_ok_iff hv).mp ⟨mid, hstep⟩
          have hlength : mid.1.length = st.1.length := by
            rcases scaleInStep_cases hstep with ⟨-, hsame⟩ | ⟨v, w, j, -, -, -, -, -, hmerge⟩
            · rw [hsame]
            · rw [hmerge, merge, List.length_modify]
          rw [ok_bind, ih (hlength ▸ his.2)]
          simp only [complete_scaleInStep hstep, hv, Option.some.injEq, forall_eq', hthis, true_and]

/-! ## Safe merges -/

/-- The merges of a call, and what it leaves. -/
def scaleInMerges (s : Algorithms) : List (Nat × Nat) × List VNFinfo :=
  scaleInTrace (List.range s.globalVNFinfo.length) (s.globalVNFinfo, 0)

/-- The merges of some network functions, with what they leave in the end. -/
structure MergesSafely (vnfs : List VNFinfo) (merges : List (Nat × Nat)) (final : List VNFinfo) : Prop where
  once : (merges.map Prod.fst).Nodup
  /-- Into a later one that has not been merged away, and its load is safe right after that. -/
  target : ∀ pre i j post, merges = pre ++ (i, j) :: post → i < j ∧ j < vnfs.length ∧ j ∉ pre.map Prod.fst ∧
    Merging.run (loadsOf vnfs) (pre ++ [(i, j)]) j ≤ thSafe
  length : final.length = vnfs.length
  loads : loadsOf final = Merging.run (loadsOf vnfs) merges
  kept : ∑ i ∈ Finset.range vnfs.length \ (merges.map Prod.fst).toFinset, loadsOf final i =
    ∑ i ∈ Finset.range vnfs.length, loadsOf vnfs i

theorem mergesSafely (s : Algorithms) :
    MergesSafely s.globalVNFinfo (scaleInMerges s).1 (scaleInMerges s).2 := by
  obtain ⟨hsound, hrun, hlength, hall⟩ :=
    @scaleInTrace_sound (s.globalVNFinfo, 0) (List.range s.globalVNFinfo.length) ∅ List.pairwise_lt_range (by simp)
  rw [← scaleInMerges] at hsound hrun hlength hall
  constructor
  case once => exact hsound.once.1
  case length => exact hlength
  case loads => exact hrun
  case target =>
    intro pre i j post hsplit
    rw [hsplit] at hsound hall
    obtain ⟨hij, hj⟩ := hall (i, j) (by simp)
    obtain ⟨-, hpre, hsafe⟩ := hsound.middle
    exact ⟨hij, hj, hpre, hsafe⟩
  case kept =>
    have hin : ∀ m ∈ (scaleInMerges s).1, m.1 ∈ Finset.range s.globalVNFinfo.length ∧
        m.2 ∈ Finset.range s.globalVNFinfo.length := by
      intro m hm
      obtain ⟨hij, hj⟩ := hall m hm
      simp only [Finset.mem_range]
      exact ⟨hij.trans hj, hj⟩
    have hsum := hsound.sum_run hin
    rwa [Finset.empty_union, Finset.sdiff_empty, ← hrun] at hsum

/-- `ScaleInRandom` merges safely, also if it ends with an exception, which it does not where all flows that it
counts are there. -/
theorem scaleInRandom_mergesSafely (s : Algorithms) :
    MergesSafely s.globalVNFinfo (scaleInMerges s).1 (scaleInMerges s).2 ∧
      (∀ result, scaleInRandom s = .ok result → result.2.globalVNFinfo = (scaleInMerges s).2) ∧
      ((∃ result, scaleInRandom s = .ok result) ↔ ∀ vnf ∈ s.globalVNFinfo, vnf.Complete) := by
  refine ⟨mergesSafely s, ?_, ?_⟩
  · intro result hresult
    obtain ⟨st, hst, hok⟩ := bind_eq_ok.mp hresult
    obtain rfl := Except.ok.inj hok
    exact (scaleInTrace_of_ok hst).symm
  · have hreturns : (∃ result, scaleInRandom s = .ok result) ↔ ∃ st,
        (List.range s.globalVNFinfo.length).foldlM scaleInStep (s.globalVNFinfo, 0) = .ok st := by
      constructor
      · intro h
        obtain ⟨result, hresult⟩ := h
        obtain ⟨st, hst, -⟩ := bind_eq_ok.mp hresult
        exact ⟨st, hst⟩
      · intro h
        obtain ⟨st, hst⟩ := h
        exact ⟨_, bind_eq_ok.mpr ⟨st, hst, rfl⟩⟩
    rw [hreturns, scaleIn_ok_iff fun i hi => List.mem_range.mp hi]
    constructor
    · intro h vnf hvnf
      obtain ⟨i, hi⟩ := List.getElem?_of_mem hvnf
      exact h i (List.mem_range.mpr (List.getElem?_eq_some_iff.mp hi).1) vnf hi
    · intro h i _ vnf hi
      exact h vnf (List.mem_of_getElem? hi)

/-- Merges can follow one another: the second one is of the target of the first one. -/
example : (scaleInMerges ⟨[], List.replicate 3 { VNFinfo.new with loadPercentage := 1 / 10 }, 3⟩).1 =
    [(0, 1), (1, 2)] := by decide +kernel

end OFM.OFMAlgorithm
