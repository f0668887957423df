import OFM.Algorithms.Lemmas.Choices

/-!
# What `ScaleOutBest` achieves

It finds a cheapest set of one to five flows that passes its tests. The test of the old load is the wrong way
round: of a network function with too high a load one flow is taken, whether that is enough or not. For less than
five flows there is no end.
-/

namespace OFM.OFMAlgorithm
open OFM.Lib

variable {s : Algorithms} {vnfId : Int} {vnf : VNFinfo}

/-! ## The cheapest set -/

/-- The cost is the least of the bound and of the costs of all small sets that pass the tests, and the tuples are
those of a set with this cost, if it is below the bound. -/
theorem scaleOutBest_optimal (hget : get s.globalVNFinfo vnfId = .ok vnf) (hplan : s.migrateInfo = [])
    (hnum : vnf.flowNum = vnf.flow.length) (hfive : 5 ≤ vnf.flow.length) :
    ∃ cost s' choice, scaleOutBest s vnfId = .ok (cost, s') ∧
      IsLeast (insert costBound
        {c | ∃ choice, SmallSet vnf choice ∧ Passes vnf choice ∧ choiceCost vnf choice = c}) cost ∧
      s'.migrateInfo.Perm (choice.map fun i => ⟨vnfId, i, s.globalVNFinfo.length - 1⟩) ∧
      if cost = costBound then choice = []
      else SmallSet vnf choice ∧ Passes vnf choice ∧ choiceCost vnf choice = cost := by
  obtain ⟨best, heq, hbest⟩ := bestChoice_eq_ok hnum hfive
  have hpicks : PicksOf vnf.flow best.result := by
    rcases hbest with ⟨rfl, -⟩ | ⟨hpreferred, -⟩
    · exact ⟨List.nodup_nil, List.forall_mem_nil _⟩
    · exact picksOf_sublist (Nat.le_refl _) hpreferred.small.sub
  obtain ⟨s', hs', hperm, -⟩ := ok_of_never (ends_migrate_choice hget hplan hpicks)
  rw [planAll_migrateInfo hplan] at hperm
  refine ⟨best.maxCost, s', best.result, ?_, ?_, hperm, ?_⟩
  · rw [scaleOutBest_eq hget, heq, ok_bind, hs', ok_bind]
  · rcases hbest with ⟨rfl, hno⟩ | ⟨hpreferred, hcost⟩
    · refine ⟨Or.inl rfl, ?_⟩
      rintro c (rfl | ⟨choice, hsmall, hpass, rfl⟩)
      · exact le_refl _
      · exact hno choice hsmall hpass
    · rw [hcost]
      refine ⟨Or.inr ⟨_, hpreferred.small, hpreferred.passes, rfl⟩, ?_⟩
      rintro c (rfl | ⟨choice, hsmall, hpass, rfl⟩)
      · exact hpreferred.below.le
      · by_cases hne : choice = best.result
        · rw [hne]
        · exact (hpreferred.first choice hsmall hpass hne).elim le_of_lt fun h => h.1.le
  · rcases hbest with ⟨rfl, -⟩ | ⟨hpreferred, hcost⟩
    · rw [if_pos rfl]
    · rw [if_neg (hcost ▸ hpreferred.below.ne)]
      exact ⟨hpreferred.small, hpreferred.passes, hcost.symm⟩

/-- Five flows that together are a full load, and have all the time they need. -/
def full : VNFinfo := { VNFinfo.new with flow := List.replicate 5 ⟨maxLoad / 5, 100, 0, false⟩ }.refresh

def onlyFull : Algorithms := ⟨[], [full], 1⟩

theorem scaleOutBest_optimal_full : ∃ cost s' choice, scaleOutBest onlyFull 0 = .ok (cost, s') ∧
    IsLeast (insert costBound
      {c | ∃ choice, SmallSet full choice ∧ Passes full choice ∧ choiceCost full choice = c}) cost ∧
    s'.migrateInfo.Perm (choice.map fun i => ⟨0, i, 1 - 1⟩) ∧
    if cost = costBound then choice = []
    else SmallSet full choice ∧ Passes full choice ∧ choiceCost full choice = cost :=
  scaleOutBest_optimal (s := onlyFull) rfl rfl rfl (by decide)

/-! ## Relief -/

/-- If flows are recorded, both loads are safe without and with them; and so are both network functions when the
migration is over, if nothing else is in the plan. -/
def Relieves (s : Algorithms) (i : Nat) (vnf : VNFinfo) : Prop :=
  ∀ best, bestChoice vnf = .ok best → best.result ≠ [] →
    (vnf.load - choiceLoad vnf best.result ≤ thSafe ∧ choiceLoad vnf best.result ≤ thSafe) ∧
    (s.migrateInfo = [] → ∃ cost s' old new, scaleOutBest (newVNFInstance s) i = .ok (cost, s') ∧
      s'.globalVNFinfo[i]? = some old ∧ s'.globalVNFinfo[s.globalVNFinfo.length]? = some new ∧
      old.load ≤ thSafe ∧ new.load ≤ thSafe)

theorem r_nonneg (x : ℚ) : 0 ≤ r x := by
  rw [r]
  split
  · assumption
  · exact le_refl _

/-- What is looked up of the flows is not negative if it is so for all of them. -/
theorem getD_map_nonneg {flow : List Flowinfo} {g : Flowinfo → ℚ} (h : ∀ f ∈ flow, 0 ≤ g f) (i : Nat) :
    0 ≤ ((flow[i]?).map g).getD 0 := by
  cases hi : flow[i]? with
  | none => exact le_refl _
  | some f => exact h f (List.mem_of_getElem? hi)

theorem head_le_sum {g : Nat → ℚ} (h : ∀ i, 0 ≤ g i) (i : Nat) (rest : List Nat) :
    ([i].map g).sum ≤ ((i :: rest).map g).sum := by
  rw [List.map_cons, List.map_cons, List.sum_cons, List.sum_cons]
  refine add_le_add (le_refl _) (List.sum_nonneg fun x hx => ?_)
  obtain ⟨j, -, rfl⟩ := List.mem_map.mp hx
  exact h j

section Rates

variable (hrates : ∀ f ∈ vnf.flow, 0 ≤ f.flowRate)

include hrates

theorem choiceLoad_head_le (i : Nat) (rest : List Nat) :
    0 ≤ choiceLoad vnf [i] ∧ choiceLoad vnf [i] ≤ choiceLoad vnf (i :: rest) := by
  have hmax : (0 : ℚ) ≤ maxLoad := by norm_num [maxLoad]
  have hrate : ∀ j, 0 ≤ rateAt vnf.flow j := getD_map_nonneg hrates
  refine ⟨div_nonneg ?_ hmax, div_le_div_of_nonneg_right (head_le_sum hrate i rest) hmax⟩
  simpa using hrate i

theorem choiceLoad_nonneg (choice : List Nat) : 0 ≤ choiceLoad vnf choice := by
  cases choice with
  | nil => simp [choiceLoad]
  | cons i rest => exact (choiceLoad_head_le hrates i rest).1.trans (choiceLoad_head_le hrates i rest).2

theorem choiceCost_head_le (i : Nat) (rest : List Nat) :
    choiceCost vnf [i] ≤ choiceCost vnf (i :: rest) := by
  have hcost : ∀ j, 0 ≤ penaltyAt vnf.flow j :=
    getD_map_nonneg fun f hf => mul_nonneg (hrates f hf) (r_nonneg _)
  refine mul_le_mul_of_nonneg_right (mul_le_mul_of_nonneg_right (head_le_sum hcost i rest) ?_) ?_
  · norm_num [sfmt]
  · norm_num [penaltyAlpha]

end Rates

/-- Of a set that passes the tests the first flow passes them alone, when the load is too high. -/
theorem passes_head (hrates : ∀ f ∈ vnf.flow, 0 ≤ f.flowRate) (hover : thSafe < vnf.loadPercentage) {i : Nat}
    {rest : List Nat} (h : Passes vnf (i :: rest)) : Passes vnf [i] := by
  have hload := choiceLoad_head_le hrates i rest
  refine ⟨by linarith [hload.1], hload.2.trans_lt h.newSafe, le_trans ?_ h.bufferSafe⟩
  have heta : (0 : ℚ) ≤ migtimeEta := by norm_num [migtimeEta]
  refine mul_le_mul ?_ hload.2 hload.1 ?_
  · have hsize : (([i] : List Nat).length : ℚ) ≤ (i :: rest).length := by
      exact_mod_cast Nat.succ_le_succ (Nat.zero_le _)
    have htime := mul_le_mul_of_nonneg_right hsize heta
    linarith
  · norm_num [migtimeGamma, migtimeEta, laProcess]
    positivity

theorem SmallSet.head {i : Nat} {rest : List Nat} (h : SmallSet vnf (i :: rest)) : SmallSet vnf [i] :=
  ⟨(List.singleton_sublist.mpr (List.mem_cons_self ..)).trans h.sub, by simp⟩

theorem rank_singleton_lt {i j : Nat} : rank [i] < rank [j] ↔ i < j := by
  show [((0 : Nat) + 1 : Int), (i : Int)] < [((0 : Nat) + 1 : Int), (j : Int)] ↔ i < j
  rw [List.cons_lt_cons_iff, List.cons_lt_cons_iff]
  simp

/-- Of a network function whose load is too high a single flow is taken. -/
theorem preferred_single (hrates : ∀ f ∈ vnf.flow, 0 ≤ f.flowRate) (hover : thSafe < vnf.loadPercentage)
    {choice : List Nat} (h : Preferred vnf choice) : ∃ i, choice = [i] := by
  cases choice with
  | nil => exact absurd rfl h.small.ne_nil
  | cons i rest =>
      by_contra hmany
      have hrest : [i] ≠ i :: rest := fun he => hmany ⟨i, he.symm⟩
      rcases h.first [i] h.small.head (passes_head hrates hover h.passes) hrest with hlt | ⟨-, hlt⟩
      · exact absurd hlt (not_lt.mpr (choiceCost_head_le hrates i rest))
      · refine lt_asymm hlt (rank_lt_of_length ?_)
        cases rest with
        | nil => exact absurd rfl hrest
        | cons j rest => simp

/-- What the tests ask of a flow that is taken alone from a network function whose load is too high. -/
structure Flowinfo.TakenAlone (flow : Flowinfo) : Prop where
  newSafe : flow.flowRate / maxLoad < thSafe
  bufferSafe : (migtimeGamma + migtimeEta + 2 * laProcess) * (flow.flowRate / maxLoad) ≤ bufferSize

def Flowinfo.penalty (flow : Flowinfo) : ℚ :=
  flow.flowRate * r (sfmt + laProcess - flow.sla) * sfmt * penaltyAlpha

/-- The first of the cheapest flows that can be taken alone. -/
structure FirstCheapest (vnf : VNFinfo) (i : Nat) (flow : Flowinfo) : Prop where
  here : vnf.flow[i]? = some flow
  alone : flow.TakenAlone
  below : flow.penalty < costBound
  first : ∀ (j : Nat) (other : Flowinfo), vnf.flow[j]? = some other → other.TakenAlone → j ≠ i →
    flow.penalty < other.penalty ∨ flow.penalty = other.penalty ∧ i < j

section Single

variable {i : Nat} {flow : Flowinfo}

theorem choiceLoad_single (hi : vnf.flow[i]? = some flow) : choiceLoad vnf [i] = flow.flowRate / maxLoad := by
  rw [choiceLoad, List.map_singleton, List.sum_singleton, rateAt_eq hi]

theorem choiceCost_single (hi : vnf.flow[i]? = some flow) : choiceCost vnf [i] = flow.penalty := by
  rw [choiceCost, List.map_singleton, List.sum_singleton, penaltyAt, hi]
  rfl

theorem smallSet_single (hi : vnf.flow[i]? = some flow) : SmallSet vnf [i] :=
  ⟨List.singleton_sublist.mpr (List.mem_range.mpr (List.getElem?_eq_some_iff.mp hi).1), by simp⟩

theorem passes_single_iff (hrates : ∀ f ∈ vnf.flow, 0 ≤ f.flowRate) (hover : thSafe < vnf.loadPercentage)
    (hi : vnf.flow[i]? = some flow) : Passes vnf [i] ↔ flow.TakenAlone := by
  have hload := choiceLoad_single hi
  have hone : migtimeGamma + (([i] : List Nat).length : ℚ) * migtimeEta = migtimeGamma + migtimeEta := by
    rw [List.length_singleton, Nat.cast_one, one_mul]
  constructor
  · intro h
    exact ⟨hload ▸ h.newSafe, by simpa only [hload, hone] using h.bufferSafe⟩
  · intro h
    have hpos := (choiceLoad_head_le hrates i []).1
    exact ⟨by linarith, hload ▸ h.newSafe, by simpa only [hload, hone] using h.bufferSafe⟩

/-- The preferred set is the first of the cheapest flows. -/
theorem preferred_single_iff (hrates : ∀ f ∈ vnf.flow, 0 ≤ f.flowRate) (hover : thSafe < vnf.loadPercentage)
    (hi : vnf.flow[i]? = some flow) : Preferred vnf [i] ↔ FirstCheapest vnf i flow := by
  constructor
  · intro h
    refine ⟨hi, (passes_single_iff hrates hover hi).mp h.passes, choiceCost_single hi ▸ h.below, ?_⟩
    intro j other hj halone hne
    have hother := h.first [j] (smallSet_single hj) ((passes_single_iff hrates hover hj).mpr halone)
      (fun he => hne (List.singleton_inj.mp he))
    rwa [choiceCost_single hi, choiceCost_single hj, rank_singleton_lt] at hother
  · intro h
    refine ⟨smallSet_single hi, (passes_single_iff hrates hover hi).mpr h.alone,
      (choiceCost_single hi).symm ▸ h.below, fun choice hsmall hpass hne => ?_⟩
    cases choice with
    | nil => exact absurd rfl hsmall.ne_nil
    | cons j rest =>
        obtain ⟨other, hj⟩ : ∃ other, vnf.flow[j]? = some other :=
          ⟨_, List.getElem?_eq_getElem (List.mem_range.mp (hsmall.sub.subset (List.mem_cons_self ..)))⟩
        have hcost := choiceCost_head_le hrates j rest
        rw [choiceCost_single hj] at hcost
        rw [choiceCost_single hi]
        -- A larger set costs as much as its first flow, and comes later.
        have hlater : rest ≠ [] → rank [i] < rank (j :: rest) := fun hrest =>
          rank_lt_of_length (by simpa using List.length_pos_iff.mpr hrest)
        by_cases hji : j = i
        · subst hji
          obtain rfl := Option.some.inj (hi.symm.trans hj)
          have hrest : rest ≠ [] := fun hnil => hne (hnil ▸ rfl)
          exact hcost.lt_or_eq.imp_right fun heq => ⟨heq, hlater hrest⟩
        · have halone := (passes_single_iff hrates hover hj).mp (passes_head hrates hover hpass)
          rcases h.first j other hj halone hji with hlt | ⟨heq, hlt⟩
          · exact Or.inl (hlt.trans_le hcost)
          · rcases (heq ▸ hcost).lt_or_eq with hless | hsame
            · exact Or.inl hless
            · refine Or.inr ⟨hsame, ?_⟩
              cases rest with
              | nil => exact rank_singleton_lt.mpr hlt
              | cons k rest => exact hlater (List.cons_ne_nil _ _)

end Single

/-- With rates that are not negative: the load is not too high, or the first of the cheapest flows takes enough of it.
Otherwise the first of the cheapest sets does. -/
def Relievable (vnf : VNFinfo) : Prop :=
  if ∀ f ∈ vnf.flow, 0 ≤ f.flowRate then
    vnf.loadPercentage ≤ thSafe ∨
      ∀ i flow, FirstCheapest vnf i flow → vnf.loadPercentage - thSafe ≤ flow.flowRate / maxLoad
  else ∀ choice, Preferred vnf choice → vnf.loadPercentage - thSafe ≤ choiceLoad vnf choice

theorem relievable_iff : Relievable vnf ↔
    ∀ choice, Preferred vnf choice → vnf.loadPercentage - thSafe ≤ choiceLoad vnf choice := by
  unfold Relievable
  split
  · rename_i hrates
    constructor
    · intro h choice hpreferred
      by_cases hover : thSafe < vnf.loadPercentage
      · obtain ⟨i, rfl⟩ := preferred_single hrates hover hpreferred
        obtain ⟨flow, hi⟩ : ∃ flow, vnf.flow[i]? = some flow :=
          ⟨_, List.getElem?_eq_getElem (List.mem_range.mp
            (hpreferred.small.sub.subset (List.mem_singleton_self _)))⟩
        rw [choiceLoad_single hi]
        exact h.resolve_left (not_le.mpr hover) i flow ((preferred_single_iff hrates hover hi).mp hpreferred)
      · have hload := choiceLoad_nonneg hrates choice
        linarith
    · intro h
      refine (le_or_gt vnf.loadPercentage thSafe).imp_right fun hover i flow hfirst => ?_
      rw [← choiceLoad_single hfirst.here]
      exact h [i] ((preferred_single_iff hrates hover hfirst.here).mpr hfirst)
  · rfl

/-- Both network functions are relieved exactly if enough is taken. -/
theorem relieves_iff {i : Nat} (hvnf : s.globalVNFinfo[i]? = some vnf) (hclean : vnf.Clean)
    (hfive : 5 ≤ vnf.flow.length) : Relieves s i vnf ↔ Relievable vnf := by
  rw [relievable_iff]
  obtain ⟨best, heq, hbest⟩ := bestChoice_eq_ok hclean.1 hfive
  constructor
  · intro h choice hchoice
    rcases hbest with ⟨-, hno⟩ | ⟨hpreferred, -⟩
    · exact absurd (hno choice hchoice.small hchoice.passes) (not_le.mpr hchoice.below)
    · obtain rfl := hchoice.unique hpreferred
      have hold := (h best heq hchoice.small.ne_nil).1.1
      rw [hclean.2]
      linarith
  · intro h best' heq' hne
    obtain rfl := Except.ok.inj (heq.symm.trans heq')
    rcases hbest with ⟨rfl, -⟩ | ⟨hpreferred, -⟩
    · exact absurd rfl hne
    · have hold : vnf.load - choiceLoad vnf best.result ≤ thSafe := by
        have hlarge := h _ hpreferred
        rw [hclean.2] at hlarge
        linarith
      have hnew := hpreferred.passes.newSafe.le
      refine ⟨⟨hold, hnew⟩, fun hplan => ?_⟩
      have hpicks := picksOf_sublist (Nat.le_refl _) hpreferred.small.sub
      have hget : get (newVNFInstance s).globalVNFinfo i = .ok vnf := by
        refine get_eq ?_
        rw [newVNFInstance, List.getElem?_append_left (List.getElem?_eq_some_iff.mp hvnf).1]
        exact hvnf
      obtain ⟨s', hs', -⟩ := ok_of_never (ends_migrate_choice hget hplan hpicks)
      obtain ⟨old, new, hold', hnew', hload, hload'⟩ := loads_migrated hvnf hplan hpicks hs'
      refine ⟨best.maxCost, s', old, new, ?_, hold', hnew', hload ▸ hold, hload' ▸ hnew⟩
      rw [scaleOutBest_eq hget, heq, ok_bind, hs', ok_bind]

theorem full_clean : full.Clean := VNFinfo.refresh_clean _

theorem relieves_iff_full : Relieves onlyFull 0 full ↔ Relievable full :=
  relieves_iff rfl full_clean (by decide)

/-- All of the sets cost nothing, and the first one is too small. -/
theorem not_relieves_full : full.Clean ∧ ¬ Relieves onlyFull 0 full := by
  refine ⟨full_clean, fun h => ?_⟩
  obtain ⟨best, heq, hbest⟩ := @bestChoice_eq_ok full rfl (by decide)
  have hrates : ∀ f ∈ full.flow, f = ⟨maxLoad / 5, 100, 0, false⟩ := fun f hf => List.eq_of_mem_replicate hf
  have hcost : ∀ choice, choiceCost full choice = 0 := by
    intro choice
    have hzero : ∀ i, penaltyAt full.flow i = 0 := by
      intro i
      rw [penaltyAt]
      cases hi : full.flow[i]? with
      | none => rfl
      | some f =>
          rw [hrates f (List.mem_of_getElem? hi)]
          decide +kernel
    rw [choiceCost, List.map_congr_left fun i _ => hzero i]
    simp
  have hpass : Passes full [0] := by
    constructor <;> decide +kernel
  have hsmall : SmallSet full [0] := ⟨by decide, by decide⟩
  have hfirst : Preferred full [0] := by
    refine ⟨hsmall, hpass, by rw [hcost, costBound]; norm_num, fun choice hchoice _ hne => ?_⟩
    refine Or.inr ⟨by rw [hcost, hcost], ?_⟩
    match choice with
    | [] => exact absurd rfl hchoice.ne_nil
    | [0] => exact absurd rfl hne
    | [i + 1] => 
        show [(1 : Int), 0] < [(1 : Int), ((i + 1 : Nat) : Int)]
        rw [List.cons_lt_cons_iff, List.cons_lt_cons_iff]
        exact Or.inr ⟨rfl, Or.inl (by omega)⟩
    | i :: j :: rest => exact rank_lt_of_length (by simp)
  rcases hbest with ⟨-, hno⟩ | ⟨hpreferred, -⟩
  · exact absurd (hno [0] hsmall hpass) (not_le.mpr (by rw [hcost, costBound]; norm_num))
  · have heq' := hfirst.unique hpreferred
    have hold := (h best heq (heq' ▸ hsmall.ne_nil)).1.1
    rw [← heq'] at hold
    exact absurd hold (by decide +kernel)

/-! ## Termination -/

/-- Only an access out of range. -/
abbrev OutOfBounds : Fault → Prop := fun e => e = .indexOutOfBounds

theorem ends_get_bounds {α : Type} (l : List α) (i : Int) : Ends OutOfBounds (get l i) fun _ => True := by
  rcases get_cases l i with ⟨n, a, -, -, hget⟩ | hget
  · rw [hget]
    trivial
  · rw [hget]
    exact rfl

theorem ends_migrateTotal_bounds (s : Algorithms) : Ends OutOfBounds (migrateTotal s) fun _ => True := by
  refine Ends.bind (Ends.foldlM_const (fun _ => True) trivial fun tuple _ vnfs _ => ?_) fun _ _ => trivial
  refine (ends_get_bounds _ _).bind fun src _ => (ends_get_bounds _ _).bind fun flow _ => ?_
  exact (ends_get_bounds _ _).bind fun dst _ => trivial

theorem ends_considerChoice_bounds (vnf : VNFinfo) (f : Nat) (best : Best) (choice : List Nat) :
    Ends OutOfBounds (considerChoice vnf f best choice) fun _ => True := by
  have hlook : ∀ (g : Flowinfo → ℚ) (a : ℚ), Ends OutOfBounds (choice.foldlM (fun a (i : Nat) => do
      let f ← get vnf.flow i
      return a + g f) a) fun _ => True := fun g a =>
    Ends.foldlM_const (fun _ => True) trivial fun i _ a _ => (ends_get_bounds _ _).bind fun _ _ => trivial
  refine (hlook (fun f => f.flowRate / maxLoad) 0).bind fun load _ => ?_
  refine Ends.ite (fun _ => trivial) fun _ => Ends.ite (fun _ => trivial) fun _ => ?_
  refine ((hlook (fun f => f.flowRate * r (sfmt + laProcess - f.sla)) 0).bind fun cost _ => ?_ :
    Ends OutOfBounds (costOf vnf.flow sfmt choice) fun _ => True).bind fun cost _ => ?_
  · trivial
  · exact Ends.ite (fun _ => trivial) fun _ => trivial

/-- `nchoosek` returns for each size, and the call ends, be it with an exception because the lists do not fit. -/
structure Returns (s : Algorithms) (vnfId : Int) (vnf : VNFinfo) : Prop where
  choices : ∀ num ∈ [1, 2, 3, 4, 5], ∃ choices, nchoosek (List.range vnf.flowNum.toNat) num = .ok choices
  ends : Ends OutOfBounds (scaleOutBest s vnfId) fun _ => True

/-- Five flows are enough, and needed. -/
theorem returns_iff (hget : get s.globalVNFinfo vnfId = .ok vnf) : Returns s vnfId vnf ↔ 5 ≤ vnf.flowNum := by
  constructor
  · intro h
    by_contra hfew
    obtain ⟨choices, heq⟩ := h.choices 5 (by simp)
    rw [nchoosek_overflow (by decide) (by rw [List.length_range]; omega)] at heq
    cases heq
  · intro hfive
    have hchoices : ∀ num ∈ [1, 2, 3, 4, 5], ∃ choices,
        nchoosek (List.range vnf.flowNum.toNat) num = .ok choices := by
      intro num hnum
      have hnum : 0 < num ∧ num ≤ 5 := by
        simp only [List.mem_cons, List.not_mem_nil, or_false] at hnum
        omega
      obtain ⟨choices, heq, -⟩ := @exists_nchoosek (List.range vnf.flowNum.toNat) _ hnum.1
        (Or.inl (by rw [List.length_range]; omega))
      exact ⟨choices, heq⟩
    refine ⟨hchoices, ?_⟩
    rw [scaleOutBest_eq hget]
    refine Ends.bind (P := fun _ => True) ?_ fun best _ =>
      (ends_migrateTotal_bounds _).bind fun _ _ => trivial
    refine Ends.foldlM_const (fun _ => True) trivial fun num hnum best _ => ?_
    obtain ⟨choices, heq⟩ := hchoices num hnum
    rw [heq]
    exact Ends.foldlM_const (fun _ => True) trivial fun choice _ best _ => ends_considerChoice_bounds ..

theorem returns_iff_full : Returns onlyFull 0 full ↔ (5 : Int) ≤ full.flowNum := returns_iff rfl

/-- The loops themselves come to a size for which there are too few flows. -/
theorem bestChoice_overflow (hnum : vnf.flowNum = vnf.flow.length) (hfew : vnf.flow.length < 5) :
    bestChoice vnf = .error .stackOverflow := by
  have hindex : List.range vnf.flowNum.toNat = List.range vnf.flow.length := by
    rw [hnum, Int.toNat_natCast]
  -- The last size is still to come.
  have hends : Ends (· = .stackOverflow) (bestChoice vnf) fun _ => False := by
    refine (Ends.foldlM (fun rest best => (∃ done, Found vnf done best) ∧ 5 ∈ rest)
      ⟨⟨[], Or.inl ⟨rfl, List.forall_mem_nil _⟩⟩, by simp⟩ ?_).mono fun best h => absurd h.2 List.not_mem_nil
    rintro num rest best ⟨pre, hpre⟩ ⟨⟨done, hfound⟩, hrest⟩
    have hpos : 0 < num := by
      have hmem : num ∈ [1, 2, 3, 4, 5] := hpre ▸ List.mem_append_right _ (List.mem_cons_self ..)
      simp only [List.mem_cons, List.not_mem_nil, or_false] at hmem
      omega
    rw [hindex]
    by_cases henough : num ≤ vnf.flow.length ∨ num = 1
    · obtain ⟨choices, heq, hchooses⟩ := @exists_nchoosek (List.range vnf.flow.length) _ hpos
        (by rwa [List.length_range])
      rw [heq]
      have hchoices : ∀ choice ∈ choices, choice.length = num ∧ ∀ i ∈ choice, i < vnf.flow.length := by
        intro choice hc
        obtain ⟨hsub, hlen⟩ := (hchooses.mem choice).mp hc
        exact ⟨hlen, fun i hi => List.mem_range.mp (hsub.subset hi)⟩
      have hok := ok_of_never (ends_consider hfound hchoices)
      obtain ⟨best', heq', hfound'⟩ := hok
      rw [ok_bind, heq']
      refine ⟨⟨_, hfound'⟩, (List.mem_cons.mp hrest).resolve_left ?_⟩
      omega
    · rw [nchoosek_overflow (by omega) (by rw [List.length_range]; omega)]
      rfl
  cases hbest : bestChoice vnf with
  | ok best =>
      rw [hbest] at hends
      exact hends.elim
  | error e =>
      rw [hbest] at hends
      exact congrArg Except.error hends

/-- Two flows, and the exception that comes of them. -/
theorem not_returns_two : ∃ vnf : VNFinfo, vnf.Clean ∧ vnf.flow.length = 2 ∧
    scaleOutBest ⟨[], [vnf], 1⟩ 0 = .error .stackOverflow ∧ ¬ Returns ⟨[], [vnf], 1⟩ 0 vnf := by
  let vnf : VNFinfo := { VNFinfo.new with flow := List.replicate 2 ⟨maxLoad, 100, 0, false⟩ }.refresh
  have heq : scaleOutBest ⟨[], [vnf], 1⟩ 0 = .error .stackOverflow := by
    rw [@scaleOutBest_eq vnf ⟨[], [vnf], 1⟩ 0 rfl, bestChoice_overflow rfl (by decide)]
    rfl
  refine ⟨vnf, VNFinfo.refresh_clean _, rfl, heq, fun h => ?_⟩
  have hends := h.ends
  rw [heq] at hends
  have hfault : Fault.stackOverflow = .indexOutOfBounds := hends
  cases hfault

end OFM.OFMAlgorithm
