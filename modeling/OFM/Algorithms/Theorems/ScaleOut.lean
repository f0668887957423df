import OFM.Algorithms.Lemmas.Considered
import OFM.Algorithms.Lemmas.Scaling

/-!
# Scaling out

The flows that `ScaleOut` and `ScaleOutRandom` record are safe together, whatever is drawn; and `ScaleOutCheck`
notices too high a load at the first network function only.
-/

namespace OFM.OFMAlgorithm
open OFM.Lib

variable {s : Algorithms} {vnf : VNFinfo} {vnfId : Int}

/-! ## By the product -/

/-- With rates and times as they are no product comes down to the least one. -/
theorem leastProduct_lt {f : Flowinfo} (hrate : 0 ≤ f.flowRate ∧ f.flowRate ≤ maxLoad) (hsla : 0 ≤ f.sla) :
    leastProduct < f.product := by
  have hwait : (-(9216 / 100) : ℚ) ≤ f.sla - laProcess - sfmt := by
    norm_num [laProcess, sfmt]
    linarith
  calc leastProduct < maxLoad * -(9216 / 100) := by norm_num [leastProduct, maxLoad]
    _ ≤ f.flowRate * -(9216 / 100) := mul_le_mul_of_nonpos_right hrate.2 (by norm_num)
    _ ≤ f.product := mul_le_mul_of_nonneg_left hwait hrate.1

/-- Different flows are considered in their order, no more than there are; those that are recorded come first,
and no more are because the rest is below the safe load or the next one would not be safe. -/
theorem scaleOut_safe {fuel : Nat} (hget : get s.globalVNFinfo vnfId = .ok vnf) (hplan : s.migrateInfo = [])
    (hflows : ∀ f ∈ vnf.flow, (0 ≤ f.flowRate ∧ f.flowRate ≤ maxLoad) ∧ 0 ≤ f.sla)
    (hfuel : vnf.flow.length ≤ fuel) :
    ∃ cost s' picks, scaleOut fuel s vnfId = .ok (cost, s') ∧
      s'.migrateInfo.Perm (picks.map fun i => ⟨vnfId, i, s.globalVNFinfo.length - 1⟩) ∧
      InOrder vnf.flow (greedyOrder fuel vnf) ∧ (greedyOrder fuel vnf).length ≤ vnf.flow.length ∧
      picks <+: greedyOrder fuel vnf ∧ (∀ first, first <+: picks → SafeSet vnf.flow first) ∧
      ((vnf.flow.map Flowinfo.flowRate).sum - rates vnf.flow picks < maxLoad * thSafe ∨
        ∃ next, picks ++ [next] <+: greedyOrder fuel vnf ∧ ¬ SafeSet vnf.flow (picks ++ [next])) := by
  have hleast : ∀ f ∈ vnf.flow, leastProduct < f.product := fun f hf =>
    leastProduct_lt (hflows f hf).1 (hflows f hf).2
  obtain ⟨st, hst, horder, hstopped⟩ := ok_of_never (ends_greedyPicks_stopped hleast hfuel)
  have hfirst := hstopped.prefix
  have hpicks : PicksOf vnf.flow st.planned :=
    ⟨hfirst.sublist.nodup horder.picks.1, fun i hi => horder.picks.2 i (hfirst.subset hi)⟩
  obtain ⟨cost, s', hcost, hs', hperm⟩ := migrate_picks hget hplan hpicks
  refine ⟨cost, s', st.planned, ?_, hperm, horder, ?_, hfirst, hstopped.safe, ?_⟩
  · rw [scaleOut, hget, ok_bind, hst, ok_bind]
    simp only [hcost, hs', ok_bind]
    rfl
  · have hsub : greedyOrder fuel vnf ⊆ List.range vnf.flow.length := fun i hi =>
      List.mem_range.mpr (horder.picks.2 i hi)
    simpa using (List.subperm_of_subset horder.picks.1 hsub).length_le
  · rcases hstopped.reason with ⟨heq, hlow⟩ | ⟨i, heq, habove⟩
    · exact Or.inl (heq ▸ hlow)
    · exact Or.inr ⟨i, heq ▸ List.prefix_refl _, heq ▸ habove⟩

/-- Two flows of a full load. -/
def half : VNFinfo :=
  { VNFinfo.new with flow := [⟨maxLoad / 2, 100, 0, false⟩, ⟨maxLoad / 2, 200, 1, false⟩] }.refresh

def halfThenNew : Algorithms := ⟨[], [half, VNFinfo.new], 2⟩

theorem scaleOut_safe_half : ∃ cost s' picks, scaleOut 2 halfThenNew 0 = .ok (cost, s') ∧
    s'.migrateInfo.Perm (picks.map fun i => ⟨0, i, 2 - 1⟩) ∧
    InOrder half.flow (greedyOrder 2 half) ∧ (greedyOrder 2 half).length ≤ half.flow.length ∧
    picks <+: greedyOrder 2 half ∧ (∀ first, first <+: picks → SafeSet half.flow first) ∧
    ((half.flow.map Flowinfo.flowRate).sum - rates half.flow picks < maxLoad * thSafe ∨
      ∃ next, picks ++ [next] <+: greedyOrder 2 half ∧ ¬ SafeSet half.flow (picks ++ [next])) := by
  refine scaleOut_safe (s := halfThenNew) rfl rfl (fun f hf => ?_) (by decide)
  have hf : f ∈ [Flowinfo.mk (maxLoad / 2) 100 0 false, ⟨maxLoad / 2, 200, 1, false⟩] := hf
  simp only [List.mem_cons, List.not_mem_nil, or_false] at hf
  rcases hf with rfl | rfl
  · norm_num [maxLoad]
  · norm_num [maxLoad]

/-- The larger product first. -/
example : greedyOrder 2 half = [1] := by decide +kernel

/-! ## At random -/

/-- Whatever is drawn, no flow is considered twice, and those that are recorded are safe from the first on. -/
theorem scaleOutRandom_safe (draws : Draws) (hget : get s.globalVNFinfo vnfId = .ok vnf) (hplan : s.migrateInfo = [])
    (hload : vnf.loadPercentage = vnf.load) :
    ∃ cost s' picks, scaleOutRandom draws.value s vnfId = .ok (cost, s') ∧
      s'.migrateInfo.Perm (picks.map fun i => ⟨vnfId, i, s.globalVNFinfo.length - 1⟩) ∧
      PicksOf vnf.flow (randomOrder draws.value vnf) ∧ picks <+: randomOrder draws.value vnf ∧
      ∀ first, first <+: picks → SafeSet vnf.flow first := by
  obtain ⟨st, hst, hconsidered, hstopped⟩ := ok_of_never (ends_randomPicks_stopped draws.inRange hload)
  have hfirst := hstopped.prefix
  have hpicks : PicksOf vnf.flow st.planned :=
    ⟨hfirst.sublist.nodup hconsidered.1, fun i hi => hconsidered.2 i (hfirst.subset hi)⟩
  obtain ⟨cost, s', hcost, hs', hperm⟩ := migrate_picks hget hplan hpicks
  refine ⟨cost, s', st.planned, ?_, hperm, hconsidered, hfirst, hstopped.safe⟩
  rw [scaleOutRandom, hget, ok_bind, hst, ok_bind]
  simp only [hcost, hs', ok_bind]
  rfl

/-- The smallest value every time. -/
def zeros : Draws := ⟨fun _ => 0, fun _ => by norm_num⟩

theorem scaleOutRandom_safe_half : ∃ cost s' picks, scaleOutRandom zeros.value halfThenNew 0 = .ok (cost, s') ∧
    s'.migrateInfo.Perm (picks.map fun i => ⟨0, i, 2 - 1⟩) ∧
    PicksOf half.flow (randomOrder zeros.value half) ∧ picks <+: randomOrder zeros.value half ∧
    ∀ first, first <+: picks → SafeSet half.flow first :=
  scaleOutRandom_safe (s := halfThenNew) zeros rfl rfl rfl

/-! ## The check -/

/-- The algorithm of a mode. -/
def chosen (fuel : Nat) (draws : Draws) (mode : Int) (s : Algorithms) (vnfId : Int) :
    Except Fault (ℚ × Algorithms) :=
  if mode = scaleOutModeGreedy then scaleOut fuel s vnfId
  else if mode = scaleOutModeBest then scaleOutBest s vnfId
  else scaleOutRandom draws.value s vnfId

/-- Too high a load is noticed wherever it is: for the first one that has it there is a new network function;
without any nothing changes. -/
def Notices (fuel : Nat) (draws : Draws) (mode : Int) (s : Algorithms) : Prop :=
  scaleOutCheck fuel draws mode s =
    match s.globalVNFinfo.findIdx? fun vnf => thHigh < vnf.loadPercentage with
    | some i => chosen fuel draws mode (newVNFInstance s) i
    | none => .ok (-1, s)

/-- No algorithm takes the new network function away. -/
theorem chosen_ne (fuel : Nat) (draws : Draws) (mode : Int) (s : Algorithms) (vnfId : Int) (cost : ℚ) :
    chosen fuel draws mode (newVNFInstance s) vnfId ≠ .ok (cost, s) := by
  intro h
  have hends : Ends AnyFault (chosen fuel draws mode (newVNFInstance s) vnfId) fun result =>
      SameIds (newVNFInstance s) result.2 := by
    refine Ends.ite (fun _ => ends_scaleOut_ids ..) fun _ => ?_
    exact Ends.ite (fun _ => ends_scaleOutBest_ids ..) fun _ => ends_scaleOutRandom_ids ..
  have hlen := congrArg List.length (hends.of_eq h)
  simp [newVNFInstance] at hlen

/-- The loop looks at the first network function only. -/
theorem scaleOutCheck_eq {mode : Int} (fuel : Nat) (draws : Draws) (s : Algorithms)
    (hmode : mode = scaleOutModeGreedy ∨ mode = scaleOutModeBest ∨ mode = scaleOutModeRandom) :
    scaleOutCheck fuel draws mode s =
      if ∃ vnf ∈ s.globalVNFinfo.head?, thHigh < vnf.loadPercentage then chosen fuel draws mode (newVNFInstance s) 0
      else .ok (-1, s) := by
  rw [scaleOutCheck]
  split
  · rename_i hnil
    simp [hnil]
  · rename_i vnf vnfs hcons
    simp only [hcons, List.head?_cons, Option.mem_some_iff, exists_eq_left']
    split
    · rw [chosen]
      rcases hmode with rfl | rfl | rfl
      · rfl
      · rfl
      · rfl
    · rfl

/-- It is noticed exactly if it is at the first network function or nowhere. -/
theorem notices_iff {mode : Int} (fuel : Nat) (draws : Draws) (s : Algorithms)
    (hmode : mode = scaleOutModeGreedy ∨ mode = scaleOutModeBest ∨ mode = scaleOutModeRandom) :
    Notices fuel draws mode s ↔ (∀ vnf ∈ s.globalVNFinfo, ¬ thHigh < vnf.loadPercentage) ∨
      ∃ vnf ∈ s.globalVNFinfo.head?, thHigh < vnf.loadPercentage := by
  rw [Notices, scaleOutCheck_eq fuel draws s hmode]
  by_cases hhead : ∃ vnf ∈ s.globalVNFinfo.head?, thHigh < vnf.loadPercentage
  · rw [if_pos hhead]
    refine iff_of_true ?_ (Or.inr hhead)
    obtain ⟨vnf, hvnf, hhigh⟩ := hhead
    obtain ⟨vnfs, hcons⟩ := List.head?_eq_some_iff.mp hvnf
    rw [hcons, List.findIdx?_cons, if_pos (decide_eq_true hhigh)]
    rfl
  · rw [if_neg hhead]
    constructor
    · intro h
      refine Or.inl fun vnf hvnf hhigh => ?_
      split at h
      · exact chosen_ne _ _ _ _ _ _ h.symm
      · rename_i hnone
        have hlow := List.findIdx?_eq_none_iff.mp hnone vnf hvnf
        exact absurd hhigh (of_decide_eq_false hlow)
    · intro h
      have hnone := List.findIdx?_eq_none_iff.mpr fun vnf hvnf =>
        decide_eq_false ((h.resolve_right hhead) vnf hvnf)
      rw [hnone]

/-- The second of two is full. -/
def secondFull : Algorithms := ⟨[], [VNFinfo.new, half], 2⟩

theorem notices_iff_secondFull : Notices 2 zeros scaleOutModeGreedy secondFull ↔
    (∀ vnf ∈ secondFull.globalVNFinfo, ¬ thHigh < vnf.loadPercentage) ∨
      ∃ vnf ∈ secondFull.globalVNFinfo.head?, thHigh < vnf.loadPercentage :=
  notices_iff 2 zeros secondFull (Or.inl rfl)

/-- Nothing is done about it. -/
theorem not_notices_secondFull : ¬ Notices 2 zeros scaleOutModeGreedy secondFull := by
  intro h
  have hfound : (secondFull.globalVNFinfo.findIdx? fun vnf => thHigh < vnf.loadPercentage) = some 1 := by
    decide +kernel
  have hcheck : scaleOutCheck 2 zeros scaleOutModeGreedy secondFull = .ok (-1, secondFull) := by
    rw [scaleOutCheck_eq _ _ _ (Or.inl rfl), if_neg]
    rintro ⟨vnf, hvnf, hhigh⟩
    obtain rfl := Option.some.inj hvnf
    exact absurd hhigh (by decide +kernel)
  rw [Notices, hfound, hcheck] at h
  exact chosen_ne _ _ _ _ _ _ h.symm

end OFM.OFMAlgorithm
