import Mathlib.Algebra.BigOperators.Ring.List
import Mathlib.Data.Int.Order.Basic
import Mathlib.Data.List.Sublists
import OFM.Algorithms.Lemmas.Picks
import OFM.Algorithms.Lemmas.Plan
import OFM.Lib.Sublists

/-!
# The choices of `ScaleOutBest`

`nchoosek` yields all sets of a size in an order of their own, unless there are too few elements to choose from;
the search over them ends with the first of the cheapest ones.
-/

namespace OFM.OFMAlgorithm
open OFM.Lib

variable {source : List Nat} {num : Nat} {vnf : VNFinfo}

/-! ## Enumeration -/

/-- Too few elements are handed on without an end. -/
theorem nchoosek_overflow (hnum : 1 < num) (hlt : source.length < num) :
    nchoosek source num = .error .stackOverflow := by
  induction source, num using nchoosek.induct with
  | case1 source => exact absurd hlt (Nat.lt_irrefl _)
  | case2 num _ hlen => rw [nchoosek, if_neg hlen, if_pos hnum, dif_pos rfl]
  | case3 source num hlen _ hne ih₁ ih₂ =>
      have hpos := List.length_pos_iff.mpr hne
      have hdrop := source.length_dropLast
      rw [nchoosek, if_neg hlen, if_pos hnum, dif_neg hne]
      by_cases htwo : 1 < num - 1
      · rw [ih₁ htwo (by omega)]
        rfl
      · -- The sets of one element of the empty list come first.
        obtain rfl : num = 2 := by omega
        have hnil : source.dropLast = [] := List.length_eq_zero_iff.mp (by omega)
        have hone : nchoosek ([] : List Nat) (2 - 1) = .ok [] := by
          rw [nchoosek, if_neg (by decide), if_neg (by decide)]
          rfl
        have htwo : nchoosek ([] : List Nat) 2 = .error .stackOverflow := hnil ▸ ih₂ hnum (by omega)
        rw [hnil, hone, htwo]
        rfl
  | case4 source num hlen hnum' => exact absurd hnum hnum'

/-- The order in which sets come: by size, and among those of one size the one with the larger largest element
first, and so on; but of two that differ in their smallest element alone the one with the smaller. -/
def rank : List Nat → List Int
  | [] => [0]
  | i :: choice => (choice.length + 1 : Int) :: (choice.reverse.map fun j => -(j : Int)) ++ [(i : Int)]

theorem rank_snoc {choice : List Nat} (h : choice ≠ []) (i : Nat) :
    rank (choice ++ [i]) = (choice.length + 1 : Int) :: -(i : Int) :: (rank choice).tail := by
  cases choice with
  | nil => exact absurd rfl h
  | cons j choice =>
      simp [rank]

theorem rank_head (choice : List Nat) : rank choice = (choice.length : Int) :: (rank choice).tail := by
  cases choice with
  | nil => rfl
  | cons i choice => simp [rank]

theorem rank_lt_of_length {choice choice' : List Nat} (h : choice.length < choice'.length) :
    rank choice < rank choice' := by
  rw [rank_head choice, rank_head choice', List.cons_lt_cons_iff]
  exact Or.inl (by exact_mod_cast h)

/-- What `nchoosek` yields. -/
structure Chooses (source : List Nat) (num : Nat) (choices : List (List Nat)) : Prop where
  mem : ∀ choice, choice ∈ choices ↔ choice.Sublist source ∧ choice.length = num
  ordered : source.Pairwise (· < ·) → choices.Pairwise fun choice choice' => rank choice < rank choice'

theorem chooses_self (source : List Nat) : Chooses source source.length [source] where
  mem := (enumerates_self source).mem
  ordered _ := List.pairwise_singleton _ _

theorem chooses_one (source : List Nat) : Chooses source 1 (source.map fun i => [i]) where
  mem := (enumerates_one source).mem
  ordered hsorted := by
    refine List.pairwise_map.mpr (hsorted.imp fun {i j} hij => ?_)
    show [((0 : Nat) + 1 : Int), (i : Int)] < [((0 : Nat) + 1 : Int), (j : Int)]
    rw [List.cons_lt_cons_iff, List.cons_lt_cons_iff]
    exact Or.inr ⟨rfl, Or.inl (by exact_mod_cast hij)⟩

theorem Chooses.step {last : Nat} {withLast withoutLast : List (List Nat)} (hnum : 0 < num)
    (h₁ : Chooses source num withLast) (h₂ : Chooses source (num + 1) withoutLast) :
    Chooses (source ++ [last]) (num + 1) (withLast.map (· ++ [last]) ++ withoutLast) where
  mem := mem_snoc_iff h₁.mem h₂.mem
  ordered hsorted := by
    obtain ⟨hsorted, -, hlast⟩ := List.pairwise_append.mp hsorted
    have hne : ∀ choice ∈ withLast, choice ≠ [] := by
      rintro choice hc rfl
      have hlen := ((h₁.mem _).mp hc).2
      exact absurd hlen hnum.ne
    refine List.pairwise_append.mpr ⟨?_, h₂.ordered hsorted, ?_⟩
    · refine List.pairwise_map.mpr (List.Pairwise.imp_of_mem ?_ (h₁.ordered hsorted))
      intro choice choice' hc hc' hlt
      have hlen : choice.length = choice'.length :=
        ((h₁.mem choice).mp hc).2.trans ((h₁.mem choice').mp hc').2.symm
      rw [rank_head choice, rank_head choice', hlen, List.cons_lt_cons_iff] at hlt
      have htail := (hlt.resolve_left (lt_irrefl _)).2
      rw [rank_snoc (hne choice hc), rank_snoc (hne choice' hc'), hlen, List.cons_lt_cons_iff,
        List.cons_lt_cons_iff]
      exact Or.inr ⟨rfl, Or.inr ⟨rfl, htail⟩⟩
    · intro extended hextended choice' hc'
      obtain ⟨choice, hc, rfl⟩ := List.mem_map.mp hextended
      obtain ⟨-, hlen⟩ := (h₁.mem choice).mp hc
      obtain ⟨hsub', hlen'⟩ := (h₂.mem choice').mp hc'
      -- The other one has a smaller largest element.
      obtain ⟨front, i, rfl⟩ : ∃ front i, choice' = front ++ [i] := by
        have hne' : choice' ≠ [] := fun hnil => by simp [hnil] at hlen'
        exact ⟨choice'.dropLast, choice'.getLast hne', (List.dropLast_append_getLast hne').symm⟩
      have hi : i < last := hlast i (hsub'.subset (by simp)) last (by simp)
      have hfront : front.length = num := by simpa using hlen'
      have hfront' : front ≠ [] := fun hnil => by simp [hnil] at hfront; omega
      rw [rank_snoc (hne choice hc), rank_snoc hfront', hlen, hfront, List.cons_lt_cons_iff,
        List.cons_lt_cons_iff]
      exact Or.inr ⟨rfl, Or.inl (by omega)⟩

/-- Where there are enough elements, or one is to be chosen, `nchoosek` returns. -/
theorem exists_nchoosek (hnum : 0 < num) (h : num ≤ source.length ∨ num = 1) :
    ∃ choices, nchoosek source num = .ok choices ∧ Chooses source num choices := by
  induction source, num using nchoosek.induct with
  | case1 source => exact ⟨[source], by rw [nchoosek, if_pos rfl], chooses_self source⟩
  | case2 num hlarge hlen =>
      rw [List.length_nil] at h
      omega
  | case3 source num hlen hlarge hne ih₁ ih₂ =>
      obtain ⟨n, rfl⟩ : ∃ n, num = n + 1 := ⟨num - 1, by omega⟩
      have hlt : n + 1 < source.length := by omega
      rw [Nat.add_sub_cancel] at ih₁
      obtain ⟨withLast, heq₁, h₁⟩ := ih₁ (by omega) (Or.inl (by rw [List.length_dropLast]; omega))
      obtain ⟨withoutLast, heq₂, h₂⟩ := ih₂ (by omega) (Or.inl (by rw [List.length_dropLast]; omega))
      refine ⟨withLast.map (· ++ [source.getLast hne]) ++ withoutLast, ?_, ?_⟩
      · rw [nchoosek, if_neg hlen, if_pos hlarge, dif_neg hne, Nat.add_sub_cancel, heq₁, heq₂]
        rfl
      · have hstep := @Chooses.step _ _ (source.getLast hne) _ _ (by omega) h₁ h₂
        rwa [List.dropLast_append_getLast] at hstep
  | case4 source num hlen hsmall =>
      obtain rfl : num = 1 := by omega
      exact ⟨_, by rw [nchoosek, if_neg hlen, if_neg hsmall], chooses_one source⟩

/-! ## Loads and costs -/

/-- A loop that adds up a number for each flow of some indexes. -/
theorem foldlM_get {flow : List Flowinfo} (g : Flowinfo → ℚ) {indexes : List Nat}
    (h : ∀ i ∈ indexes, i < flow.length) (a : ℚ) :
    indexes.foldlM (fun a (i : Nat) => do
      let f ← get flow i
      return a + g f) a = .ok (a + (indexes.map fun i => ((flow[i]?).map g).getD 0).sum) := by
  induction indexes generalizing a with
  | nil => exact congrArg Except.ok (add_zero a).symm
  | cons i indexes ih =>
      rw [List.forall_mem_cons] at h
      have hi := List.getElem?_eq_getElem h.1
      rw [List.foldlM_cons, get_eq hi]
      show List.foldlM _ (a + g flow[i]) indexes = _
      rw [ih h.2, List.map_cons, List.sum_cons, hi, add_assoc]
      rfl

/-- The load of a set of flows. -/
def choiceLoad (vnf : VNFinfo) (choice : List Nat) : ℚ := (choice.map (rateAt vnf.flow)).sum / maxLoad

/-- What a flow costs that has to wait too long. -/
def penaltyAt (flow : List Flowinfo) (i : Nat) : ℚ :=
  ((flow[i]?).map fun f => f.flowRate * r (sfmt + laProcess - f.sla)).getD 0

def choiceCost (vnf : VNFinfo) (choice : List Nat) : ℚ :=
  (choice.map (penaltyAt vnf.flow)).sum * sfmt * penaltyAlpha

theorem costOf_choice {choice : List Nat} (h : ∀ i ∈ choice, i < vnf.flow.length) :
    costOf vnf.flow sfmt choice = .ok (choiceCost vnf choice) := by
  rw [costOf, foldlM_get (fun f => f.flowRate * r (sfmt + laProcess - f.sla)) h, zero_add]
  rfl

/-- The three tests of the loop. -/
structure Passes (vnf : VNFinfo) (choice : List Nat) : Prop where
  oldUnsafe : thSafe - choiceLoad vnf choice < vnf.loadPercentage
  newSafe : choiceLoad vnf choice < thSafe
  bufferSafe : (migtimeGamma + choice.length * migtimeEta + 2 * laProcess) * choiceLoad vnf choice ≤ bufferSize

theorem considerChoice_eq {best : Best} {choice : List Nat} (h : ∀ i ∈ choice, i < vnf.flow.length) :
    (Passes vnf choice ∧ choiceCost vnf choice < best.maxCost ∧
      considerChoice vnf choice.length best choice = .ok ⟨choice, choiceCost vnf choice⟩) ∨
    ((Passes vnf choice → best.maxCost ≤ choiceCost vnf choice) ∧
      considerChoice vnf choice.length best choice = .ok best) := by
  have hload : choice.foldlM (fun load (i : Nat) => do
      let flow ← get vnf.flow i
      return load + flow.flowRate / maxLoad) (0 : ℚ) = .ok (choiceLoad vnf choice) := by
    rw [foldlM_get (fun f => f.flowRate / maxLoad) h, zero_add, choiceLoad, div_eq_mul_inv,
      ← List.sum_map_mul_right]
    refine congrArg (fun l : List ℚ => Except.ok l.sum) (List.map_congr_left fun i hi => ?_)
    rw [rateAt, List.getElem?_eq_getElem (h i hi)]
    rfl
  rw [considerChoice, hload]
  simp only [ok_bind, costOf_choice h]
  by_cases hsafe : thSafe - choiceLoad vnf choice < vnf.loadPercentage ∧ choiceLoad vnf choice < thSafe
  · rw [if_neg (not_not.mpr hsafe)]
    by_cases hbuffer : (migtimeGamma + choice.length * migtimeEta + 2 * laProcess) * choiceLoad vnf choice ≤
        bufferSize
    · rw [if_neg (not_not.mpr hbuffer)]
      by_cases hless : choiceCost vnf choice < best.maxCost
      · exact Or.inl ⟨⟨hsafe.1, hsafe.2, hbuffer⟩, hless, if_pos hless⟩
      · exact Or.inr ⟨fun _ => not_lt.mp hless, if_neg hless⟩
    · exact Or.inr ⟨fun h => absurd h.bufferSafe hbuffer, if_pos hbuffer⟩
  · exact Or.inr ⟨fun h => absurd ⟨h.oldUnsafe, h.newSafe⟩ hsafe, if_pos hsafe⟩

/-! ## The search -/

/-- The bound that costs have to be below. -/
def costBound : ℚ := 0x7fffffff

/-- The search has gone over these sets: it has found none below the bound, or the first of the cheapest. -/
def Found (vnf : VNFinfo) (done : List (List Nat)) (best : Best) : Prop :=
  (best = ⟨[], costBound⟩ ∧ ∀ choice ∈ done, Passes vnf choice → costBound ≤ choiceCost vnf choice) ∨
  ∃ before after, done = before ++ best.result :: after ∧ Passes vnf best.result ∧
    best.maxCost = choiceCost vnf best.result ∧ best.maxCost < costBound ∧
    (∀ choice ∈ before, Passes vnf choice → best.maxCost < choiceCost vnf choice) ∧
    ∀ choice ∈ after, Passes vnf choice → best.maxCost ≤ choiceCost vnf choice

/-- Nothing that has been looked at is cheaper than the best. -/
theorem Found.le {done : List (List Nat)} {best : Best} (h : Found vnf done best) :
    best.maxCost ≤ costBound ∧ ∀ choice ∈ done, Passes vnf choice → best.maxCost ≤ choiceCost vnf choice := by
  rcases h with ⟨rfl, hall⟩ | ⟨before, after, rfl, -, hcost, hlt, hbefore, hafter⟩
  · exact ⟨le_refl _, hall⟩
  · refine ⟨hlt.le, fun choice hc hpass => ?_⟩
    rcases List.mem_append.mp hc with hc | hc
    · exact (hbefore choice hc hpass).le
    · rcases List.mem_cons.mp hc with rfl | hc
      · exact hcost.le
      · exact hafter choice hc hpass

theorem Found.step {done : List (List Nat)} {best : Best} {choice : List Nat} (h : Found vnf done best)
    (hchoice : ∀ i ∈ choice, i < vnf.flow.length) :
    Ends Never (considerChoice vnf choice.length best choice) (Found vnf (done ++ [choice])) := by
  rcases @considerChoice_eq vnf best choice hchoice with ⟨hpass, hless, heq⟩ | ⟨hno, heq⟩
  · rw [heq]
    refine Or.inr ⟨done, [], rfl, hpass, rfl, hless.trans_le h.le.1, fun c hc hc' => ?_, List.forall_mem_nil _⟩
    exact hless.trans_le (h.le.2 c hc hc')
  · rw [heq]
    rcases h with ⟨rfl, hall⟩ | ⟨before, after, rfl, hpass, hcost, hlt, hbefore, hafter⟩
    · exact Or.inl ⟨rfl, List.forall_mem_append.mpr ⟨hall, List.forall_mem_singleton.mpr hno⟩⟩
    · refine Or.inr ⟨before, after ++ [choice], ?_, hpass, hcost, hlt, hbefore, ?_⟩
      · rw [List.append_assoc, List.cons_append]
      · exact List.forall_mem_append.mpr ⟨hafter, List.forall_mem_singleton.mpr hno⟩

/-- A set of one to five flows, by their indexes in increasing order. -/
structure SmallSet (vnf : VNFinfo) (choice : List Nat) : Prop where
  sub : choice.Sublist (List.range vnf.flow.length)
  size : choice.length ∈ [1, 2, 3, 4, 5]

/-- All small sets, in the order of their rank. -/
structure AllSets (vnf : VNFinfo) (all : List (List Nat)) : Prop where
  mem : ∀ choice, choice ∈ all ↔ SmallSet vnf choice
  ordered : all.Pairwise fun choice choice' => rank choice < rank choice'

/-- The loops of `ScaleOutBest`. -/
def bestChoice (vnf : VNFinfo) : Except Fault Best :=
  [1, 2, 3, 4, 5].foldlM (fun best f => do
    let choices ← nchoosek (List.range vnf.flowNum.toNat) f
    choices.foldlM (considerChoice vnf f) best) ⟨[], 0x7fffffff⟩

theorem scaleOutBest_eq {s : Algorithms} {vnfId : Int} (h : get s.globalVNFinfo vnfId = .ok vnf) :
    scaleOutBest s vnfId = bestChoice vnf >>= fun best =>
      migrateTotal (planAll s vnfId best.result) >>= fun s => .ok (best.maxCost, s) := by
  rw [scaleOutBest, h]
  rfl

theorem ends_consider {f : Nat} {choices done : List (List Nat)} {best : Best} (h : Found vnf done best)
    (hchoices : ∀ choice ∈ choices, choice.length = f ∧ ∀ i ∈ choice, i < vnf.flow.length) :
    Ends Never (choices.foldlM (considerChoice vnf f) best) (Found vnf (done ++ choices)) := by
  refine (Ends.foldlM (fun rest best => ∃ pre, choices = pre ++ rest ∧ Found vnf (done ++ pre) best)
    ⟨[], rfl, by rwa [List.append_nil]⟩ ?_).mono ?_
  · rintro choice rest best - ⟨pre, hpre, hfound⟩
    obtain ⟨hlen, hlt⟩ := hchoices choice (hpre ▸ List.mem_append_right _ (List.mem_cons_self ..))
    rw [← hlen]
    refine (hfound.step hlt).mono fun best' h' => ⟨pre ++ [choice], ?_, ?_⟩
    · rw [hpre, List.append_assoc, List.singleton_append]
    · rwa [← List.append_assoc]
  · rintro best ⟨pre, hpre, hfound⟩
    rw [List.append_nil] at hpre
    exact hpre ▸ hfound

theorem ends_bestChoice (hnum : vnf.flowNum = vnf.flow.length) (hfive : 5 ≤ vnf.flow.length) :
    Ends Never (bestChoice vnf) fun best => ∃ all, AllSets vnf all ∧ Found vnf all best := by
  have hindex : List.range vnf.flowNum.toNat = List.range vnf.flow.length := by
    rw [hnum, Int.toNat_natCast]
  -- Up to here the sets of the sizes that have been looked at.
  refine (Ends.foldlM (fun rest best => ∃ done : List (List Nat), Found vnf done best ∧
    done.Pairwise (fun choice choice' => rank choice < rank choice') ∧
    ∀ choice, choice ∈ done ↔ SmallSet vnf choice ∧ choice.length ∉ rest) ?_ ?_).mono ?_
  · exact ⟨[], Or.inl ⟨rfl, List.forall_mem_nil _⟩, List.Pairwise.nil, fun choice =>
      ⟨fun h => absurd h List.not_mem_nil, fun h => absurd h.1.size h.2⟩⟩
  · rintro f rest best ⟨pre, hpre⟩ ⟨done, hfound, hordered, hdone⟩
    have hsizes : ([1, 2, 3, 4, 5] : List Nat).Pairwise (· < ·) := by decide
    rw [hpre, List.pairwise_append] at hsizes
    have hf : f ∈ [1, 2, 3, 4, 5] := hpre ▸ List.mem_append_right _ (List.mem_cons_self ..)
    have hpos : 0 < f ∧ f ≤ 5 := by
      simp only [List.mem_cons, List.not_mem_nil, or_false] at hf
      omega
    obtain ⟨choices, heq, hchooses⟩ := @exists_nchoosek (List.range vnf.flow.length) _ hpos.1
      (Or.inl (by rw [List.length_range]; omega))
    rw [hindex, heq]
    have hchoices : ∀ choice ∈ choices, choice.length = f ∧ ∀ i ∈ choice, i < vnf.flow.length := by
      intro choice hc
      obtain ⟨hsub, hlen⟩ := (hchooses.mem choice).mp hc
      exact ⟨hlen, fun i hi => List.mem_range.mp (hsub.subset hi)⟩
    refine (ends_consider hfound hchoices).mono fun best' hfound' => ⟨done ++ choices, hfound', ?_, ?_⟩
    · refine List.pairwise_append.mpr ⟨hordered, hchooses.ordered List.pairwise_lt_range, ?_⟩
      intro choice hc choice' hc'
      obtain ⟨hsmall, hnot⟩ := (hdone choice).mp hc
      refine rank_lt_of_length ?_
      rw [((hchooses.mem choice').mp hc').2]
      have hmem := hsmall.size
      rw [hpre] at hmem
      exact hsizes.2.2 _ ((List.mem_append.mp hmem).resolve_right hnot) f (List.mem_cons_self ..)
    · intro choice
      rw [List.mem_append, hdone, hchooses.mem]
      constructor
      · rintro (⟨hsmall, hnot⟩ | ⟨hsub, hlen⟩)
        · exact ⟨hsmall, fun h => hnot (List.mem_cons_of_mem _ h)⟩
        · refine ⟨⟨hsub, hlen ▸ hf⟩, fun h => ?_⟩
          exact absurd ((List.pairwise_cons.mp hsizes.2.1).1 _ h) (hlen ▸ lt_irrefl f)
      · rintro ⟨hsmall, hnot⟩
        by_cases hlen : choice.length = f
        · exact Or.inr ⟨hsmall.sub, hlen⟩
        · exact Or.inl ⟨hsmall, fun h => (List.mem_cons.mp h).elim hlen hnot⟩
  · rintro best ⟨done, hfound, hordered, hdone⟩
    refine ⟨done, ⟨fun choice => ?_, hordered⟩, hfound⟩
    rw [hdone]
    exact and_iff_left List.not_mem_nil

/-! ## The preferred set -/

/-- The first of the cheapest small sets that pass the tests, below the bound. -/
structure Preferred (vnf : VNFinfo) (choice : List Nat) : Prop where
  small : SmallSet vnf choice
  passes : Passes vnf choice
  below : choiceCost vnf choice < costBound
  first : ∀ choice', SmallSet vnf choice' → Passes vnf choice' → choice' ≠ choice →
    choiceCost vnf choice < choiceCost vnf choice' ∨
      choiceCost vnf choice = choiceCost vnf choice' ∧ rank choice < rank choice'

theorem Preferred.unique {choice choice' : List Nat} (h : Preferred vnf choice) (h' : Preferred vnf choice') :
    choice = choice' := by
  by_contra hne
  rcases h.first choice' h'.small h'.passes (Ne.symm hne) with hlt | ⟨heq, hlt⟩
  · rcases h'.first choice h.small h.passes hne with hlt' | ⟨heq', -⟩
    · exact lt_asymm hlt hlt'
    · exact hlt.ne heq'.symm
  · rcases h'.first choice h.small h.passes hne with hlt' | ⟨-, hlt'⟩
    · exact hlt'.ne heq.symm
    · exact lt_asymm hlt hlt'

theorem SmallSet.ne_nil {choice : List Nat} (h : SmallSet vnf choice) : choice ≠ [] := by
  rintro rfl
  exact absurd h.size (by decide)

/-- What the search comes to: nothing, or the preferred set. -/
theorem Found.preferred {all : List (List Nat)} {best : Best} (hall : AllSets vnf all) (h : Found vnf all best) :
    (best = ⟨[], costBound⟩ ∧ ∀ choice, SmallSet vnf choice → Passes vnf choice →
      costBound ≤ choiceCost vnf choice) ∨
      Preferred vnf best.result ∧ best.maxCost = choiceCost vnf best.result := by
  rcases h with ⟨rfl, hno⟩ | ⟨before, after, heq, hpass, hcost, hlt, hbefore, hafter⟩
  · exact Or.inl ⟨rfl, fun choice hsmall => hno choice ((hall.mem choice).mpr hsmall)⟩
  · have hmem : best.result ∈ all := heq ▸ List.mem_append_right _ (List.mem_cons_self ..)
    refine Or.inr ⟨⟨(hall.mem _).mp hmem, hpass, hcost ▸ hlt, fun choice hsmall hpass' hne => ?_⟩, hcost⟩
    have hordered := hall.ordered
    rw [heq, List.pairwise_append, List.pairwise_cons] at hordered
    have hmem' := (hall.mem choice).mpr hsmall
    rw [heq, List.mem_append, List.mem_cons] at hmem'
    rw [← hcost]
    rcases hmem' with hmem' | rfl | hmem'
    · exact Or.inl (hbefore choice hmem' hpass')
    · exact absurd rfl hne
    · rcases (hafter choice hmem' hpass').lt_or_eq with hless | heq'
      · exact Or.inl hless
      · exact Or.inr ⟨heq', hordered.2.1.1 choice hmem'⟩

/-- With five flows or more the search returns. -/
theorem bestChoice_eq_ok (hnum : vnf.flowNum = vnf.flow.length) (hfive : 5 ≤ vnf.flow.length) :
    ∃ best, bestChoice vnf = .ok best ∧
      ((best = ⟨[], costBound⟩ ∧ ∀ choice, SmallSet vnf choice → Passes vnf choice →
        costBound ≤ choiceCost vnf choice) ∨
      Preferred vnf best.result ∧ best.maxCost = choiceCost vnf best.result) := by
  obtain ⟨best, heq, all, hall, hfound⟩ := ok_of_never (ends_bestChoice hnum hfive)
  exact ⟨best, heq, hfound.preferred hall⟩

/-! ## The migration of a set -/

theorem planAll_migrateInfo {s : Algorithms} (hplan : s.migrateInfo = []) (vnfId : Int) (choice : List Nat) :
    (planAll s vnfId choice).migrateInfo = choice.map fun i => ⟨vnfId, i, s.globalVNFinfo.length - 1⟩ := by
  rw [planAll, hplan, List.nil_append]

/-- Different flows of a network function are migrated to the last one. -/
theorem ends_migrate_choice {s : Algorithms} {vnfId : Int} {choice : List Nat}
    (hget : get s.globalVNFinfo vnfId = .ok vnf) (hplan : s.migrateInfo = []) (hpicks : PicksOf vnf.flow choice) :
    Ends Never (migrateTotal (planAll s vnfId choice)) fun s' =>
      s'.migrateInfo.Perm (planAll s vnfId choice).migrateInfo ∧
        Carried s.globalVNFinfo s'.migrateInfo.reverse s'.globalVNFinfo := by
  obtain ⟨src, hsrc, hvnf⟩ := (ends_get _ _).of_eq hget
  have hlen := (List.getElem?_eq_some_iff.mp hvnf).1
  have hplan' := planAll_migrateInfo hplan vnfId choice
  refine ends_migrateTotal_carried ?_ fun tuple ht => ?_
  · rw [hplan', List.map_map]
    exact hpicks.1.map fun i j hij => congrArg Prod.snd hij
  · rw [hplan'] at ht
    obtain ⟨i, hi, rfl⟩ := List.mem_map.mp ht
    obtain ⟨f, hf⟩ : ∃ f, vnf.flow[i]? = some f := ⟨_, List.getElem?_eq_getElem (hpicks.2 i hi)⟩
    have hlast : ((s.globalVNFinfo.length : Int) - 1) = ((s.globalVNFinfo.length - 1 : Nat) : Int) := by omega
    refine ⟨⟨f, flowOf_eq_ok.mpr ⟨src, vnf, hsrc, hvnf, hf⟩⟩, s.globalVNFinfo[s.globalVNFinfo.length - 1], ?_⟩
    show get s.globalVNFinfo ((s.globalVNFinfo.length : Int) - 1) = _
    rw [hlast]
    exact get_eq (List.getElem?_eq_getElem _)

theorem sum_rates_unnumbered {flow flow' : List Flowinfo}
    (h : flow.map Flowinfo.unnumbered = flow'.map Flowinfo.unnumbered) :
    (flow.map Flowinfo.flowRate).sum = (flow'.map Flowinfo.flowRate).sum := by
  have hrates : ∀ flow : List Flowinfo,
      flow.map Flowinfo.flowRate = (flow.map Flowinfo.unnumbered).map Flowinfo.flowRate := by
    intro flow
    rw [List.map_map]
    rfl
  rw [hrates, hrates flow', h]

/-- The rates of the flows that are sent to a new network function. -/
theorem sum_rates_arriving {vnfs : List VNFinfo} {src dst : Nat} {choice : List Nat} (hvnf : vnfs[src]? = some vnf)
    (hchoice : ∀ i ∈ choice, i < vnf.flow.length) :
    ((arriving vnfs (choice.map fun i => ⟨src, i, dst⟩) dst).map Flowinfo.flowRate).sum =
      (choice.map (rateAt vnf.flow)).sum := by
  induction choice with
  | nil => rfl
  | cons i choice ih =>
      rw [List.forall_mem_cons] at hchoice
      obtain ⟨f, hf⟩ : ∃ f, vnf.flow[i]? = some f := ⟨_, List.getElem?_eq_getElem hchoice.1⟩
      have hflow : flowOf vnfs ⟨src, i, dst⟩ = .ok f := flowOf_eq_ok.mpr ⟨src, vnf, rfl, hvnf, hf⟩
      rw [List.map_cons, List.map_cons, List.sum_cons, ← ih hchoice.2, rateAt_eq hf, arriving,
        List.filterMap_cons, if_pos rfl, hflow]
      rfl

/-- The rates of the flows that are left. -/
theorem sum_rates_staying {plan : List MigrateTuple} {src : Nat} {choice : List Nat}
    (hplan : ∀ i, ((src : Int), i) ∈ plan.map MigrateTuple.source ↔ i ∈ choice) (hpicks : PicksOf vnf.flow choice) :
    ((staying plan src vnf.flow).map Flowinfo.flowRate).sum =
      (vnf.flow.map Flowinfo.flowRate).sum - (choice.map (rateAt vnf.flow)).sum := by
  have hgone : ∀ i, decide (((src : Int), i) ∈ plan.map MigrateTuple.source) = false ↔ i ∉ choice := by
    intro i
    rw [decide_eq_false_iff_not, hplan]
  have hchosen : (Finset.range vnf.flow.length).filter (fun i => i ∈ choice) = choice.toFinset := by
    ext i
    rw [Finset.mem_filter, Finset.mem_range, List.mem_toFinset]
    exact and_iff_right_of_imp (hpicks.2 i)
  rw [staying, sum_map_without, eq_sub_iff_add_eq, ← sum_rateAt, ← List.sum_toFinset _ hpicks.1, ← hchosen]
  simp only [hgone]
  rw [add_comm]
  exact Finset.sum_filter_add_sum_filter_not _ _ _

/-- The loads of the old and the new network function behind the migration. -/
theorem loads_migrated {s s' : Algorithms} {src : Nat} {choice : List Nat} (hvnf : s.globalVNFinfo[src]? = some vnf)
    (hplan : s.migrateInfo = []) (hpicks : PicksOf vnf.flow choice)
    (h : migrateTotal (planAll (newVNFInstance s) src choice) = .ok s') :
    ∃ old new, s'.globalVNFinfo[src]? = some old ∧ s'.globalVNFinfo[s.globalVNFinfo.length]? = some new ∧
      old.load = vnf.load - choiceLoad vnf choice ∧ new.load = choiceLoad vnf choice := by
  have hlt := (List.getElem?_eq_some_iff.mp hvnf).1
  have hvnf' : (newVNFInstance s).globalVNFinfo[src]? = some vnf := by
    rw [newVNFInstance, List.getElem?_append_left hlt]
    exact hvnf
  have hnew' : (newVNFInstance s).globalVNFinfo[s.globalVNFinfo.length]? = some VNFinfo.new := by
    rw [newVNFInstance, List.getElem?_append_right (Nat.le_refl _), Nat.sub_self]
    rfl
  have hlast : ((newVNFInstance s).globalVNFinfo.length : Int) - 1 = (s.globalVNFinfo.length : Int) := by
    simp [newVNFInstance]
  obtain ⟨hperm, hcarried⟩ := (ends_migrate_choice (get_eq hvnf') hplan hpicks).of_eq h
  rw [planAll_migrateInfo (s := newVNFInstance s) hplan, hlast] at hperm
  replace hperm := (List.reverse_perm _).trans hperm
  obtain ⟨old, arrived, hold, hflow, harrived⟩ := hcarried.flows src vnf hvnf'
  obtain ⟨new, arrived', hnew, hflow', harrived'⟩ := hcarried.flows _ _ hnew'
  refine ⟨old, new, hold, hnew, ?_, ?_⟩
  · -- Nothing is sent to the old one.
    have hnone : arriving (newVNFInstance s).globalVNFinfo s'.migrateInfo.reverse src = [] := by
      refine List.filterMap_eq_nil_iff.mpr fun tuple ht => ?_
      obtain ⟨i, -, rfl⟩ := List.mem_map.mp (hperm.mem_iff.mp ht)
      exact if_neg fun he => hlt.ne (Int.ofNat_inj.mp he).symm
    rw [hnone, List.map_nil, List.map_eq_nil_iff] at harrived
    rw [VNFinfo.load, hflow, harrived, List.append_nil, staying_perm hperm, sum_rates_staying (fun i => ?_) hpicks,
      sub_div]
    · rfl
    · simp [MigrateTuple.source]
  · rw [VNFinfo.load, hflow', choiceLoad]
    refine congrArg (· / maxLoad) ?_
    show (arrived'.map Flowinfo.flowRate).sum = _
    rw [sum_rates_unnumbered harrived', arriving, ((hperm.filterMap _).map Flowinfo.flowRate).sum_eq]
    exact sum_rates_arriving hvnf' hpicks.2

end OFM.OFMAlgorithm
