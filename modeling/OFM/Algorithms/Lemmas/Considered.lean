import OFM.Algorithms.Lemmas.Choices

/-!
# The flows that are considered

`ScaleOut` and `ScaleOutRandom` consider one flow after the other, and record those with which all stays safe:
which flows they consider, and when they stop.
-/

namespace OFM.OFMAlgorithm
open OFM.Lib

variable {flow : List Flowinfo} {load : ℚ} {done : List Nat} {st : Picking} {i j k : Nat} {f : Flowinfo}

/-! ## Safe sets -/

def rates (flow : List Flowinfo) (picks : List Nat) : ℚ := (picks.map (rateAt flow)).sum

theorem rates_snoc (flow : List Flowinfo) (done : List Nat) (i : Nat) :
    rates flow (done ++ [i]) = rates flow done + rateAt flow i := by
  simp [rates]

/-- All flows make the whole load. -/
theorem rates_perm_range (h : done.Perm (List.range flow.length)) :
    rates flow done = (flow.map Flowinfo.flowRate).sum := by
  rw [rates, (h.map _).sum_eq, ← sum_rateAt]
  rfl

/-- `NewSafe` and `BufferSafe` for flows that are migrated together. -/
structure SafeSet (flow : List Flowinfo) (picks : List Nat) : Prop where
  newSafe : rates flow picks ≤ maxLoad * thSafe
  bufferSafe : (migtimeGamma + picks.length * migtimeEta + 2 * laProcess) * rates flow picks ≤ bufferSize

theorem safeSet_nil (flow : List Flowinfo) : SafeSet flow [] where
  newSafe := limit_pos.le
  bufferSafe := by
    show _ * (0 : ℚ) ≤ _
    rw [mul_zero, bufferSize]
    norm_num

/-- All flows that have been considered have been recorded, and were safe to record. -/
structure Recorded (flow : List Flowinfo) (load : ℚ) (done : List Nat) (st : Picking) : Prop where
  planned : st.planned = done
  migCount : st.migCount = done.length
  newLoad : st.newLoad = rates flow done
  oldLoad : st.oldLoad = load - rates flow done
  safe : ∀ picks, picks <+: done → SafeSet flow picks

/-- The loop has stopped: what is left is below the safe load, or the last flow would not have been safe. -/
structure Stopped (flow : List Flowinfo) (load : ℚ) (considered : List Nat) (st : Picking) : Prop where
  safe : ∀ picks, picks <+: st.planned → SafeSet flow picks
  reason : st.planned = considered ∧ load - rates flow considered < maxLoad * thSafe ∨
    ∃ i, considered = st.planned ++ [i] ∧ ¬ SafeSet flow considered

theorem recorded_start (flow : List Flowinfo) (load : ℚ) : Recorded flow load [] ⟨load, 0, 0, []⟩ where
  planned := rfl
  migCount := rfl
  newLoad := rfl
  oldLoad := (sub_zero load).symm
  safe picks h := by
    rw [List.prefix_nil.mp h]
    exact safeSet_nil flow

theorem Stopped.prefix {considered : List Nat} (h : Stopped flow load considered st) : st.planned <+: considered := by
  rcases h.reason with ⟨heq, -⟩ | ⟨i, heq, -⟩
  · exact heq ▸ List.prefix_refl _
  · exact heq ▸ List.prefix_append _ _

/-- One more flow is considered. -/
theorem Recorded.pick (h : Recorded flow load done st) (hf : flow[i]? = some f) :
    (((st.pick f.flowRate i).oldUnsafe ∧ (st.pick f.flowRate i).safe) →
      Recorded flow load (done ++ [i]) (st.pick f.flowRate i)) ∧
    (¬ ((st.pick f.flowRate i).oldUnsafe ∧ (st.pick f.flowRate i).safe) →
      Stopped flow load (done ++ [i]) (st.pick f.flowRate i)) := by
  have hnew : st.newLoad + f.flowRate = rates flow (done ++ [i]) := by
    rw [rates_snoc, h.newLoad, rateAt_eq hf]
  have hold : st.oldLoad - f.flowRate = load - rates flow (done ++ [i]) := by
    rw [rates_snoc, h.oldLoad, rateAt_eq hf]
    ring
  have hcount : st.migCount + 1 = (done ++ [i]).length := by
    rw [h.migCount, List.length_append, List.length_singleton]
  have hiff : (⟨st.oldLoad - f.flowRate, st.newLoad + f.flowRate, st.migCount + 1, st.planned⟩ :
      Picking).safe ↔ SafeSet flow (done ++ [i]) := by
    rw [Picking.safe, hnew, hcount]
    exact ⟨fun h => ⟨h.1, h.2⟩, fun h => ⟨h.newSafe, h.bufferSafe⟩⟩
  rw [Picking.pick]
  by_cases hsafe : SafeSet flow (done ++ [i])
  · have hall : ∀ picks, picks <+: done ++ [i] → SafeSet flow picks := by
      intro picks hpre
      rcases List.prefix_concat_iff.mp hpre with rfl | hpre
      · exact hsafe
      · exact h.safe picks hpre
    rw [if_pos (hiff.mpr hsafe)]
    constructor
    · exact fun _ => ⟨congrArg (· ++ [i]) h.planned, hcount, hnew, hold, hall⟩
    · intro hstop
      refine ⟨?_, Or.inl ⟨congrArg (· ++ [i]) h.planned, ?_⟩⟩
      · rw [h.planned]
        exact hall
      · rw [← hold]
        exact not_le.mp fun habove => hstop ⟨habove, hiff.mpr hsafe⟩
  · rw [if_neg fun hs => hsafe (hiff.mp hs)]
    constructor
    · exact fun hagain => absurd (hiff.mp hagain.2) hsafe
    · intro _
      refine ⟨?_, Or.inr ⟨i, congrArg (· ++ [i]) h.planned.symm, hsafe⟩⟩
      rw [h.planned]
      exact h.safe

/-- As long as the load is too high there are flows that have not been considered. -/
theorem Recorded.not_perm (h : Recorded flow (flow.map Flowinfo.flowRate).sum done st) (hold : st.oldUnsafe) :
    ¬ done.Perm (List.range flow.length) := by
  intro hperm
  rw [Picking.oldUnsafe, h.oldLoad, rates_perm_range hperm, sub_self] at hold
  exact absurd limit_pos (not_lt.mpr hold)

/-! ## At random -/

/-- The flows that the loop of `ScaleOutRandom` considers. -/
def consideredRandom (flow : List Flowinfo) (random : Nat → ℚ) (flowidList : List Nat) (st : Picking) : List Nat :=
  let index := ⌊random st.migCount * flowidList.length⌋.toNat
  match _h : flowidList[index]? with
  | none => []
  | some flowIndex =>
      let st := st.pick (rateAt flow flowIndex) flowIndex
      flowIndex :: if st.oldUnsafe ∧ st.safe then consideredRandom flow random (flowidList.eraseIdx index) st else []
termination_by flowidList.length
decreasing_by
  obtain ⟨hlt, -⟩ := List.getElem?_eq_some_iff.mp _h
  rw [List.length_eraseIdx_of_lt hlt]
  omega

/-- The index that is drawn. -/
def drawn (random : Nat → ℚ) (list : List Nat) (st : Picking) : Nat := ⌊random st.migCount * list.length⌋.toNat

section Draw

variable {random : Nat → ℚ} {list : List Nat} (hi : list[drawn random list st]? = some i) (hf : flow[i]? = some f)

include hi hf

theorem pickRandom_eq : pickRandom flow random list st =
    if (st.pick f.flowRate i).oldUnsafe ∧ (st.pick f.flowRate i).safe then
      pickRandom flow random (list.eraseIdx (drawn random list st)) (st.pick f.flowRate i)
    else .ok (st.pick f.flowRate i) := by
  rw [drawn] at hi
  rw [pickRandom]
  split
  · rename_i hnone
    exact absurd (hi.symm.trans hnone) nofun
  · rename_i i' hi'
    obtain rfl := Option.some.inj (hi.symm.trans hi')
    rw [get_eq hf]
    rfl

theorem consideredRandom_eq : consideredRandom flow random list st = i ::
    if (st.pick f.flowRate i).oldUnsafe ∧ (st.pick f.flowRate i).safe then
      consideredRandom flow random (list.eraseIdx (drawn random list st)) (st.pick f.flowRate i)
    else [] := by
  rw [drawn] at hi
  rw [consideredRandom]
  split
  · rename_i hnone
    exact absurd (hi.symm.trans hnone) nofun
  · rename_i i' hi'
    obtain rfl := Option.some.inj (hi.symm.trans hi')
    rw [rateAt_eq hf]
    rfl

end Draw

theorem ends_pickRandom_stopped {random : Nat → ℚ} (hrandom : ∀ n, 0 ≤ random n ∧ random n < 1) {list : List Nat}
    (hlist : (done ++ list).Perm (List.range flow.length))
    (h : Recorded flow (flow.map Flowinfo.flowRate).sum done st) (hold : st.oldUnsafe) :
    Ends Never (pickRandom flow random list st) fun st' =>
      PicksOf flow (done ++ consideredRandom flow random list st) ∧
        Stopped flow (flow.map Flowinfo.flowRate).sum (done ++ consideredRandom flow random list st) st' := by
  induction hn : list.length generalizing list done st with
  | zero =>
      rw [List.length_eq_zero_iff.mp hn, List.append_nil] at hlist
      exact absurd hlist (h.not_perm hold)
  | succ n ih =>
      have hlt : drawn random list st < list.length :=
        floor_lt_length (hrandom st.migCount) (hn ▸ Nat.succ_pos n)
      obtain ⟨i, hi⟩ : ∃ i, list[drawn random list st]? = some i := ⟨_, List.getElem?_eq_getElem hlt⟩
      have herase := List.getElem_cons_eraseIdx_perm hlt
      rw [(List.getElem?_eq_some_iff.mp hi).2] at herase
      have hperm : (done ++ [i] ++ list.eraseIdx (drawn random list st)).Perm (List.range flow.length) := by
        rw [List.append_assoc]
        exact (herase.append_left done).trans hlist
      have hpicks : PicksOf flow (done ++ [i]) := by
        refine ⟨?_, fun j hj => List.mem_range.mp (hperm.mem_iff.mp (List.mem_append_left _ hj))⟩
        exact (List.sublist_append_left _ _).nodup (hperm.nodup_iff.mpr List.nodup_range)
      obtain ⟨f, hf⟩ : ∃ f, flow[i]? = some f := ⟨_, List.getElem?_eq_getElem (hpicks.2 i (by simp))⟩
      obtain ⟨hmore, hstop⟩ := h.pick hf
      rw [pickRandom_eq hi hf, consideredRandom_eq hi hf]
      by_cases hagain : (st.pick f.flowRate i).oldUnsafe ∧ (st.pick f.flowRate i).safe
      · rw [if_pos hagain, if_pos hagain, List.append_cons]
        refine ih hperm (hmore hagain) hagain.1 ?_
        rw [List.length_eraseIdx_of_lt hlt, hn, Nat.add_sub_cancel]
      · rw [if_neg hagain, if_neg hagain]
        exact ⟨hpicks, hstop hagain⟩

/-! ## By the product -/

def productAt (flow : List Flowinfo) (i : Nat) : ℚ := ((flow[i]?).map Flowinfo.product).getD 0

theorem productAt_eq (h : flow[i]? = some f) : productAt flow i = f.product := by
  rw [productAt, h]
  rfl

/-- The larger product comes first, then the larger rate, then the smaller index. -/
def Before (flow : List Flowinfo) (i j : Nat) : Prop :=
  productAt flow j < productAt flow i ∨ productAt flow j = productAt flow i ∧
    (rateAt flow j < rateAt flow i ∨ rateAt flow j = rateAt flow i ∧ i < j)

theorem Before.trans (h : Before flow i j) (h' : Before flow j k) : Before flow i k := by
  rcases h with h | ⟨heq, h⟩
  · refine Or.inl ?_
    rcases h' with h' | ⟨heq', -⟩
    · exact h'.trans h
    · exact heq' ▸ h
  · rcases h' with h' | ⟨heq', h'⟩
    · exact Or.inl (heq ▸ h')
    · refine Or.inr ⟨heq'.trans heq, ?_⟩
      rcases h with h | ⟨he, h⟩
      · refine Or.inl ?_
        rcases h' with h' | ⟨he', -⟩
        · exact h'.trans h
        · exact he' ▸ h
      · rcases h' with h' | ⟨he', h'⟩
        · exact Or.inl (he ▸ h')
        · exact Or.inr ⟨he'.trans he, h.trans h'⟩

/-- The products of the flows that have been considered have been overwritten. -/
def Marked (flow : List Flowinfo) (done : List Nat) (product : List ℚ) : Prop :=
  ∀ i, product[i]? = (flow[i]?).map fun f => if i ∈ done then leastProduct else f.product

variable {product : List ℚ}

theorem Marked.length_eq (h : Marked flow done product) : product.length = flow.length := by
  refine le_antisymm ?_ ?_
  · have hnone := h flow.length
    rw [List.getElem?_eq_none (Nat.le_refl _), Option.map_none] at hnone
    exact List.getElem?_eq_none_iff.mp hnone
  · have hnone := h product.length
    rw [List.getElem?_eq_none (Nat.le_refl _)] at hnone
    exact List.getElem?_eq_none_iff.mp (Option.map_eq_none_iff.mp hnone.symm)

theorem Marked.set (h : Marked flow done product) (i : Nat) :
    Marked flow (done ++ [i]) (product.set i leastProduct) := by
  intro j
  rw [List.getElem?_set]
  by_cases hij : i = j
  · subst hij
    rw [if_pos rfl, h.length_eq]
    by_cases hlt : i < flow.length
    · rw [if_pos hlt, List.getElem?_eq_getElem hlt]
      simp
    · rw [if_neg hlt, List.getElem?_eq_none (Nat.not_lt.mp hlt)]
      rfl
  · rw [if_neg hij, h j]
    simp [Ne.symm hij]

/-- What a range is made of. -/
theorem mem_of_range_eq {n : Nat} {pre rest : List Nat} (h : List.range n = pre ++ i :: rest) :
    i < n ∧ ∀ j < n, (j ∉ i :: rest ↔ j < i) ∧ (j ∉ rest ↔ j ≤ i) := by
  have hsorted := @List.pairwise_lt_range n
  rw [h, List.pairwise_append, List.pairwise_cons] at hsorted
  have hmem : ∀ j, j < n ↔ j ∈ pre ∨ j = i ∨ j ∈ rest := by
    intro j
    rw [← List.mem_range, h, List.mem_append, List.mem_cons]
  have hpre : ∀ j ∈ pre, j < i := fun j hj => hsorted.2.2 j hj i (List.mem_cons_self ..)
  have hrest : ∀ j ∈ rest, i < j := fun j hj => hsorted.2.1.1 j hj
  refine ⟨(hmem i).mpr (Or.inr (Or.inl rfl)), fun j hj => ?_⟩
  rw [List.mem_cons]
  rcases (hmem j).mp hj with hj | rfl | hj
  · have hlt := hpre j hj
    have hnot : j ∉ rest := fun hmem => absurd (hrest j hmem) (Nat.lt_asymm hlt)
    exact ⟨iff_of_true (by simp [hlt.ne, hnot]) hlt, iff_of_true hnot hlt.le⟩
  · exact ⟨iff_of_false (by simp) (Nat.lt_irrefl _),
      iff_of_true (fun hmem => absurd (hrest j hmem) (Nat.lt_irrefl _)) (Nat.le_refl _)⟩
  · have hlt := hrest j hj
    exact ⟨iff_of_false (by simp [hj]) (Nat.lt_asymm hlt), iff_of_false (by simp [hj]) (Nat.not_le.mpr hlt)⟩

/-- Where the search for the largest product stands that has looked at the indexes below a bound. -/
def Leads (flow : List Flowinfo) (done : List Nat) (looked : Nat → Prop) (best : ℚ × Nat) : Prop :=
  (best.1 = leastProduct ∧ ∀ j < flow.length, looked j → j ∈ done) ∨
    (best.1 = productAt flow best.2 ∧ best.2 ∉ done ∧ looked best.2 ∧
      ∀ j < flow.length, looked j → j ∉ done → j ≠ best.2 → Before flow best.2 j)

/-- One index is looked at. -/
theorem ends_largerProduct (hmarked : Marked flow done product) (hleast : ∀ f ∈ flow, leastProduct < f.product)
    {best : ℚ × Nat} (hi : i < flow.length) (hbest : best.2 < flow.length) (h : Leads flow done (· < i) best) :
    Ends Never (largerProduct flow product best i) fun best' =>
      best'.2 < flow.length ∧ Leads flow done (· ≤ i) best' := by
  have hf := List.getElem?_eq_getElem hi
  have hg := List.getElem?_eq_getElem hbest
  have hproduct := hmarked i
  rw [hf, Option.map_some] at hproduct
  have hless : leastProduct < productAt flow i := by
    rw [productAt_eq hf]
    exact hleast _ (List.getElem_mem hi)
  rw [largerProduct, get_eq hproduct, get_eq hf, get_eq hg]
  show Ends Never (if _ then _ else _) _
  rw [← rateAt_eq hf, ← rateAt_eq hg]
  by_cases hdone : i ∈ done
  · -- It cannot be the largest one, unless all have been considered.
    rw [if_pos hdone]
    rcases h with ⟨hleast', hall⟩ | ⟨hvalue, hnot, hlooked, hbefore⟩
    · have hall' : ∀ j < flow.length, j ≤ i → j ∈ done := by
        intro j hj hle
        rcases Nat.lt_or_eq_of_le hle with hlt | rfl
        · exact hall j hj hlt
        · exact hdone
      refine Ends.ite (fun _ => ⟨hi, Or.inl ⟨rfl, hall'⟩⟩) fun _ => ⟨hbest, Or.inl ⟨hleast', hall'⟩⟩
    · have hlead : leastProduct < best.1 := by
        rw [hvalue, productAt_eq hg]
        exact hleast _ (List.getElem_mem hbest)
      rw [if_neg (by rintro (hlt | ⟨heq, -⟩); exacts [lt_asymm hlt hlead, hlead.ne heq])]
      refine ⟨hbest, Or.inr ⟨hvalue, hnot, le_of_lt hlooked, fun j hj hle hnot' hne => ?_⟩⟩
      rcases Nat.lt_or_eq_of_le hle with hlt | rfl
      · exact hbefore j hj hlt hnot' hne
      · exact absurd hdone hnot'
  · rw [if_neg hdone, ← productAt_eq hf]
    rcases h with ⟨hleast', hall⟩ | ⟨hvalue, hnot, hlooked, hbefore⟩
    · rw [if_pos (Or.inl (hleast' ▸ hless))]
      refine ⟨hi, Or.inr ⟨rfl, hdone, le_refl i, fun j hj hle hnot' hne => ?_⟩⟩
      exact absurd (hall j hj (lt_of_le_of_ne hle hne)) hnot'
    · rw [hvalue]
      refine Ends.ite (fun hlarger => ?_) fun hlarger => ?_
      · have hfirst : Before flow i best.2 := by
          rcases hlarger with hlt | ⟨heq, hlt⟩
          · exact Or.inl hlt
          · exact Or.inr ⟨heq.symm, Or.inl hlt⟩
        refine ⟨hi, Or.inr ⟨rfl, hdone, le_refl i, fun j hj hle hnot' hne => ?_⟩⟩
        by_cases hjb : j = best.2
        · exact hjb ▸ hfirst
        · exact hfirst.trans (hbefore j hj (lt_of_le_of_ne hle hne) hnot' hjb)
      · refine ⟨hbest, Or.inr ⟨hvalue, hnot, le_of_lt hlooked, fun j hj hle hnot' hne => ?_⟩⟩
        rcases Nat.lt_or_eq_of_le hle with hlt | rfl
        · exact hbefore j hj hlt hnot' hne
        · rw [not_or, not_and, not_lt] at hlarger
          rcases hlarger.1.lt_or_eq with hlt | heq
          · exact Or.inl hlt
          · refine Or.inr ⟨heq, ?_⟩
            rcases (not_lt.mp (hlarger.2 heq)).lt_or_eq with hlt | heq'
            · exact Or.inl hlt
            · exact Or.inr ⟨heq', hlooked⟩

/-- As long as one is left the search ends with the first of those that have not been considered. -/
theorem ends_first (hmarked : Marked flow done product) (hleast : ∀ f ∈ flow, leastProduct < f.product)
    (hleft : ∃ i < flow.length, i ∉ done) :
    Ends Never ((List.range flow.length).foldlM (largerProduct flow product) (leastProduct, 0)) fun best =>
      best.2 < flow.length ∧ best.2 ∉ done ∧
        ∀ j < flow.length, j ∉ done → j ≠ best.2 → Before flow best.2 j := by
  obtain ⟨i₀, hi₀, hnot⟩ := hleft
  refine (Ends.foldlM (fun rest best => best.2 < flow.length ∧
    Leads flow done (fun j => j < flow.length ∧ j ∉ rest) best) ⟨Nat.zero_lt_of_lt hi₀, Or.inl ⟨rfl, ?_⟩⟩ ?_).mono ?_
  · exact fun j hj hlooked => absurd (List.mem_range.mpr hj) hlooked.2
  · rintro i rest best ⟨pre, hpre⟩ ⟨hbest, hleads⟩
    obtain ⟨hi, hlooked⟩ := mem_of_range_eq hpre
    have hleads' : Leads flow done (· < i) best := by
      refine hleads.imp ?_ ?_
      · exact fun h => ⟨h.1, fun j hj hlt => h.2 j hj ⟨hj, (hlooked j hj).1.mpr hlt⟩⟩
      · rintro ⟨hvalue, hnot', hmem, hbefore⟩
        refine ⟨hvalue, hnot', (hlooked _ hbest).1.mp hmem.2, fun j hj hlt => ?_⟩
        exact hbefore j hj ⟨hj, (hlooked j hj).1.mpr hlt⟩
    refine (ends_largerProduct hmarked hleast hi hbest hleads').mono fun best' h => ⟨h.1, ?_⟩
    refine h.2.imp ?_ ?_
    · exact fun h => ⟨h.1, fun j hj hmem => h.2 j hj ((hlooked j hj).2.mp hmem.2)⟩
    · rintro ⟨hvalue, hnot', hle, hbefore⟩
      refine ⟨hvalue, hnot', ⟨h.1, (hlooked _ h.1).2.mpr hle⟩, fun j hj hmem => ?_⟩
      exact hbefore j hj ((hlooked j hj).2.mp hmem.2)
  · rintro best ⟨hbest, ⟨-, hall⟩ | ⟨-, hnot', -, hbefore⟩⟩
    · exact absurd (hall i₀ hi₀ ⟨hi₀, List.not_mem_nil⟩) hnot
    · exact ⟨hbest, hnot', fun j hj => hbefore j hj ⟨hj, List.not_mem_nil⟩⟩

/-- Different flows in their order, before all others. -/
structure InOrder (flow : List Flowinfo) (considered : List Nat) : Prop where
  picks : PicksOf flow considered
  ordered : considered.Pairwise (Before flow)
  ahead : ∀ i ∈ considered, ∀ j < flow.length, j ∉ considered → Before flow i j

theorem inOrder_nil (flow : List Flowinfo) : InOrder flow [] where
  picks := ⟨List.nodup_nil, List.forall_mem_nil _⟩
  ordered := List.Pairwise.nil
  ahead := List.forall_mem_nil _

theorem InOrder.snoc (h : InOrder flow done) (hi : i < flow.length) (hnot : i ∉ done)
    (hbefore : ∀ j < flow.length, j ∉ done → j ≠ i → Before flow i j) : InOrder flow (done ++ [i]) where
  picks := by
    refine ⟨?_, List.forall_mem_append.mpr ⟨h.picks.2, List.forall_mem_singleton.mpr hi⟩⟩
    exact List.nodup_append_comm.mp (List.nodup_cons.mpr ⟨hnot, h.picks.1⟩)
  ordered := List.pairwise_append.mpr ⟨h.ordered, List.pairwise_singleton _ _, fun j hj k hk =>
    List.mem_singleton.mp hk ▸ h.ahead j hj i hi hnot⟩
  ahead := by
    intro j hj k hk hkn
    rw [List.mem_append, List.mem_singleton, not_or] at hkn
    rcases List.mem_append.mp hj with hj | hj
    · exact h.ahead j hj k hk hkn.1
    · rw [List.mem_singleton.mp hj]
      exact hbefore k hk hkn.1 hkn.2

/-- The flows that the loop of `ScaleOut` considers. -/
def consideredGreedy (flow : List Flowinfo) : Nat → List ℚ → Picking → List Nat
  | 0, _, _ => []
  | fuel + 1, product, st =>
      match (List.range flow.length).foldlM (largerProduct flow product) (leastProduct, 0) with
      | .error _ => []
      | .ok best =>
          let st := st.pick (rateAt flow best.2) best.2
          best.2 :: if st.oldUnsafe ∧ st.safe then consideredGreedy flow fuel (product.set best.2 leastProduct) st
            else []

/-- Different flows are all of them, if there are so many. -/
theorem perm_range_of_all (h : PicksOf flow done) (hall : ∀ i < flow.length, i ∈ done) :
    done.Perm (List.range flow.length) :=
  (List.perm_ext_iff_of_nodup h.1 List.nodup_range).mpr fun i =>
    ⟨fun hi => List.mem_range.mpr (h.2 i hi), fun hi => hall i (List.mem_range.mp hi)⟩

theorem length_lt_of_left (h : PicksOf flow done) (hi : i < flow.length) (hnot : i ∉ done) :
    done.length < flow.length := by
  have hsub : (i :: done) ⊆ List.range flow.length :=
    List.cons_subset.mpr ⟨List.mem_range.mpr hi, fun j hj => List.mem_range.mpr (h.2 j hj)⟩
  have hlen := (List.subperm_of_subset (List.nodup_cons.mpr ⟨hnot, h.1⟩) hsub).length_le
  rwa [List.length_range] at hlen

/-- The loop ends after as many rounds as there are flows, or before. -/
theorem ends_pickGreedy_stopped {fuel : Nat} (hmarked : Marked flow done product)
    (hleast : ∀ f ∈ flow, leastProduct < f.product) (hdone : InOrder flow done)
    (h : Recorded flow (flow.map Flowinfo.flowRate).sum done st) (hold : st.oldUnsafe)
    (hfuel : flow.length ≤ fuel + done.length) :
    Ends Never (pickGreedy flow fuel product st) fun st' =>
      InOrder flow (done ++ consideredGreedy flow fuel product st) ∧
        Stopped flow (flow.map Flowinfo.flowRate).sum (done ++ consideredGreedy flow fuel product st) st' := by
  have hleft : ∃ i < flow.length, i ∉ done := by
    by_contra hall
    push Not at hall
    exact h.not_perm hold (perm_range_of_all hdone.picks hall)
  induction fuel generalizing done product st with
  | zero =>
      obtain ⟨i, hi, hnot⟩ := hleft
      have hlt := length_lt_of_left hdone.picks hi hnot
      omega
  | succ fuel ih =>
      obtain ⟨⟨p, i⟩, hbest, hi, hnot, hbefore⟩ := ok_of_never (ends_first hmarked hleast hleft)
      have hf := List.getElem?_eq_getElem hi
      have hproduct := List.getElem?_eq_getElem (hmarked.length_eq.symm ▸ hi : i < product.length)
      have hdone' := hdone.snoc hi hnot hbefore
      obtain ⟨hmore, hstop⟩ := h.pick hf
      rw [pickGreedy, consideredGreedy, hbest, ok_bind, get_eq hproduct, ok_bind, get_eq hf, ok_bind]
      dsimp only
      rw [rateAt_eq hf]
      by_cases hagain : (st.pick flow[i].flowRate i).oldUnsafe ∧ (st.pick flow[i].flowRate i).safe
      · rw [if_pos hagain, if_pos hagain, List.append_cons]
        have hrec := hmore hagain
        refine ih (hmarked.set i) hdone' hrec hagain.1 ?_ ?_
        · rw [List.length_append, List.length_singleton]
          omega
        · by_contra hall
          push Not at hall
          exact hrec.not_perm hagain.1 (perm_range_of_all hdone'.picks hall)
      · rw [if_neg hagain, if_neg hagain]
        exact ⟨hdone', hstop hagain⟩

/-! ## The calls -/

variable {s : Algorithms} {vnf : VNFinfo} {vnfId : Int} {random : Nat → ℚ}

/-- All flows that `ScaleOut` considers. -/
def greedyOrder (fuel : Nat) (vnf : VNFinfo) : List Nat :=
  let st : Picking := ⟨(vnf.flow.map Flowinfo.flowRate).sum, 0, 0, []⟩
  if st.oldUnsafe then consideredGreedy vnf.flow fuel (vnf.flow.map Flowinfo.product) st else []

/-- All flows that `ScaleOutRandom` considers. -/
def randomOrder (random : Nat → ℚ) (vnf : VNFinfo) : List Nat :=
  let st : Picking := ⟨vnf.loadPercentage * maxLoad, 0, 0, []⟩
  if st.oldUnsafe then consideredRandom vnf.flow random (List.range vnf.flow.length) st else []

/-- Where there is nothing to do. -/
theorem stopped_start (flow : List Flowinfo) (h : ¬ (⟨load, 0, 0, []⟩ : Picking).oldUnsafe) :
    Stopped flow load [] ⟨load, 0, 0, []⟩ where
  safe := (recorded_start flow load).safe
  reason := Or.inl ⟨rfl, by rw [rates, List.map_nil, List.sum_nil, sub_zero]; exact not_le.mp h⟩

theorem ends_greedyPicks_stopped {fuel : Nat} (hleast : ∀ f ∈ vnf.flow, leastProduct < f.product)
    (hfuel : vnf.flow.length ≤ fuel) : Ends Never (greedyPicks fuel vnf) fun st =>
      InOrder vnf.flow (greedyOrder fuel vnf) ∧
        Stopped vnf.flow (vnf.flow.map Flowinfo.flowRate).sum (greedyOrder fuel vnf) st := by
  rw [greedyPicks, greedyOrder]
  by_cases hold : (⟨(vnf.flow.map Flowinfo.flowRate).sum, 0, 0, []⟩ : Picking).oldUnsafe
  · rw [if_pos hold, if_pos hold]
    refine ends_pickGreedy_stopped (fun i => ?_) hleast (inOrder_nil _) (recorded_start ..) hold hfuel
    simp
  · rw [if_neg hold, if_neg hold]
    exact ⟨inOrder_nil _, stopped_start _ hold⟩

theorem ends_randomPicks_stopped (hrandom : ∀ n, 0 ≤ random n ∧ random n < 1)
    (hload : vnf.loadPercentage = vnf.load) : Ends Never (randomPicks random vnf) fun st =>
      PicksOf vnf.flow (randomOrder random vnf) ∧
        Stopped vnf.flow (vnf.flow.map Flowinfo.flowRate).sum (randomOrder random vnf) st := by
  have hsum : vnf.loadPercentage * maxLoad = (vnf.flow.map Flowinfo.flowRate).sum := by
    rw [hload, VNFinfo.load]
    exact div_mul_cancel₀ _ (by norm_num [maxLoad])
  rw [randomPicks, randomOrder, hsum]
  by_cases hold : (⟨(vnf.flow.map Flowinfo.flowRate).sum, 0, 0, []⟩ : Picking).oldUnsafe
  · rw [if_pos hold, if_pos hold]
    exact ends_pickRandom_stopped hrandom (List.Perm.refl _) (recorded_start ..) hold
  · rw [if_neg hold, if_neg hold]
    exact ⟨⟨List.nodup_nil, List.forall_mem_nil _⟩, stopped_start _ hold⟩

/-- Flows that have been picked are paid for and migrated. -/
theorem migrate_picks {picks : List Nat} (hget : get s.globalVNFinfo vnfId = .ok vnf) (hplan : s.migrateInfo = [])
    (hpicks : PicksOf vnf.flow picks) : ∃ cost s',
      planCost vnf (planAll s vnfId picks).migrateInfo = .ok cost ∧ migrateTotal (planAll s vnfId picks) = .ok s' ∧
      s'.migrateInfo.Perm (picks.map fun i => ⟨vnfId, i, s.globalVNFinfo.length - 1⟩) := by
  have hcost : Ends Never (planCost vnf (planAll s vnfId picks).migrateInfo) fun _ => True := by
    rw [planAll_migrateInfo hplan]
    refine ends_costOf fun i hi => ?_
    rw [List.map_map] at hi
    obtain ⟨j, hj, rfl⟩ := List.mem_map.mp hi
    exact hpicks.2 j hj
  obtain ⟨cost, hcost, -⟩ := ok_of_never hcost
  obtain ⟨s', hs', hperm, -⟩ := ok_of_never (ends_migrate_choice hget hplan hpicks)
  exact ⟨cost, s', hcost, hs', planAll_migrateInfo hplan vnfId picks ▸ hperm⟩

end OFM.OFMAlgorithm
