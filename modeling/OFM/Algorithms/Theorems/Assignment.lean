import OFM.Algorithms.Lemmas.Loads

/-!
# What load balancing selects and assigns

Step 3 of `LoadBalancingCheck` for one heavy network function, whatever its flags are: what it selects leaves the
load above the average, and nothing could be selected besides. Step 4 before its last round, for any light network
functions and any tuples: what is below `end` has a destination, a round assigns at most one tuple that does not fit,
and the load that is credited is above the average by that tuple at most.
-/

namespace OFM.OFMAlgorithm
open OFM.Lib

/-! ## Step 3 -/

section Selection

variable {avgLoad : ℚ} {vnf : VNFinfo} {flow : Flowinfo} {k : Nat}

/-- `srcVNF.flow.sort(new FlowRateComparator())` -/
def sortedFlows (vnf : VNFinfo) : List Flowinfo :=
  vnf.flow.insertionSort fun f₁ f₂ => f₁.flowRate ≤ f₂.flowRate

/-- The loop over the sorted flows, from the last one down. -/
def selectFlows (avgLoad : ℚ) (vnf : VNFinfo) : VNFinfo × List MigrateTuple :=
  let st := (sortedFlows vnf).zipIdx.reverse.foldl (planFlow avgLoad vnf.vnfId) (vnf.loadPercentage, [])
  ({ vnf with flow := sortedFlows vnf, loadPercentage := st.1 }, st.2)

/-- Step 2 comes before. -/
theorem planVNF_eq (avgLoad : ℚ) (vnf : VNFinfo) :
    planVNF avgLoad vnf = selectFlows avgLoad { vnf with flow := vnf.flow.map markFlow } := rfl

/-- The load at the moment when the flow at a position is considered. -/
def loadAt (avgLoad : ℚ) (vnf : VNFinfo) (k : Nat) : ℚ :=
  (((sortedFlows vnf).zipIdx.drop (k + 1)).reverse.foldl (planFlow avgLoad vnf.vnfId) (vnf.loadPercentage, [])).1

/-! ## What is selected -/

theorem selectFlows_eq (avgLoad : ℚ) (vnf : VNFinfo) : selectFlows avgLoad vnf =
    let taken := selected avgLoad vnf.loadPercentage (sortedFlows vnf).zipIdx.reverse
    ({ vnf with flow := sortedFlows vnf, loadPercentage := Greedy.left share vnf.loadPercentage taken },
      taken.map fun flow => ⟨vnf.vnfId, flow.2, -1⟩) := by
  rw [selectFlows, foldl_planFlow_eq]
  rfl

theorem mem_sortedFlows : flow ∈ sortedFlows vnf ↔ flow ∈ vnf.flow := by simp [sortedFlows]

theorem mem_zipIdx (h : (sortedFlows vnf)[k]? = some flow) : (sortedFlows vnf).zipIdx[k]? = some (flow, k) := by
  simp [List.getElem?_zipIdx, h]

/-- The flow at a position is considered behind those at the larger positions. -/
theorem reverse_zipIdx_eq (h : (sortedFlows vnf)[k]? = some flow) :
    (sortedFlows vnf).zipIdx.reverse = ((sortedFlows vnf).zipIdx.drop (k + 1)).reverse ++
      (flow, k) :: ((sortedFlows vnf).zipIdx.take k).reverse := by
  obtain ⟨hlt, hget⟩ := List.getElem?_eq_some_iff.mp (mem_zipIdx h)
  have hsplit := List.take_append_drop k (sortedFlows vnf).zipIdx
  rw [List.drop_eq_getElem_cons hlt, hget] at hsplit
  rw [← hsplit, List.reverse_append, List.reverse_cons, List.append_assoc, hsplit]
  rfl

theorem nodup_reverse_zipIdx (flow : List Flowinfo) : flow.zipIdx.reverse.Nodup := by
  apply List.Nodup.of_map Prod.snd
  rw [List.map_reverse, List.zipIdx_map_snd]
  exact List.nodup_reverse.mpr List.nodup_range'

/-- The selection leaves the load above the average; a flow that may be migrated and is not selected would have
brought it below, and would do so now. -/
structure Selects (avgLoad : ℚ) (vnf : VNFinfo) (result : VNFinfo × List MigrateTuple) : Prop where
  flows : result.1.flow.Perm vnf.flow
  sorted : result.1.flow.Pairwise fun f₁ f₂ => f₁.flowRate ≤ f₂.flowRate
  tuples : ∀ tuple ∈ result.2, tuple.srcVNFid = vnf.vnfId ∧ tuple.dstVNFid = -1 ∧
    ∃ flow, result.1.flow[tuple.flowid]? = some flow ∧ flow.migrateFlag
  once : (result.2.map MigrateTuple.flowid).Nodup
  above : avgLoad ≤ result.1.loadPercentage
  load : result.1.loadPercentage =
    vnf.loadPercentage - (result.2.map fun tuple => rateAt result.1.flow tuple.flowid / maxLoad).sum
  maximal : ∀ (k : Nat) (flow : Flowinfo), result.1.flow[k]? = some flow → flow.migrateFlag →
    k ∉ result.2.map MigrateTuple.flowid → loadAt avgLoad vnf k - flow.flowRate / maxLoad < avgLoad ∧
      result.1.loadPercentage - flow.flowRate / maxLoad < avgLoad

theorem selectFlows_selects (hheavy : avgLoad < vnf.loadPercentage) (hrates : ∀ f ∈ vnf.flow, 0 ≤ f.flowRate) :
    Selects avgLoad vnf (selectFlows avgLoad vnf) := by
  have hshare : ∀ p ∈ (sortedFlows vnf).zipIdx.reverse, 0 ≤ share p := by
    intro p hp
    have hmem := List.fst_mem_of_mem_zipIdx (List.mem_reverse.mp hp)
    exact div_nonneg (hrates _ (mem_sortedFlows.mp hmem)) maxLoad_pos.le
  have hsub := selected_sublist avgLoad vnf.loadPercentage (sortedFlows vnf).zipIdx.reverse
  have hthere : ∀ p ∈ selected avgLoad vnf.loadPercentage (sortedFlows vnf).zipIdx.reverse,
      (sortedFlows vnf)[p.2]? = some p.1 := by
    intro p hp
    exact List.mem_zipIdx_iff_getElem?.mp (List.mem_reverse.mp (hsub.subset hp))
  rw [selectFlows_eq]
  constructor
  case flows => exact List.perm_insertionSort _ _
  case sorted => exact List.pairwise_insertionSort _ _
  case tuples =>
    intro tuple ht
    obtain ⟨p, hp, rfl⟩ := List.mem_map.mp ht
    exact ⟨rfl, rfl, p.1, hthere p hp, flag_of_mem_selected hp⟩
  case once =>
    rw [List.map_map]
    apply (hsub.map Prod.snd).nodup
    rw [List.map_reverse, List.zipIdx_map_snd]
    exact List.nodup_reverse.mpr List.nodup_range'
  case above => exact Greedy.floor_le_scan hheavy.le
  case load =>
    rw [List.map_map]
    apply congrArg fun l : List ℚ => vnf.loadPercentage - l.sum
    apply List.map_congr_left
    intro p hp
    simp [share, rateAt_eq (hthere p hp)]
  case maximal =>
    intro k flow hk hmay hnot
    have hsplit := reverse_zipIdx_eq hk
    have hleft : (flow, k) ∉ selected avgLoad vnf.loadPercentage (sortedFlows vnf).zipIdx.reverse := by
      intro hp
      apply hnot
      rw [List.map_map]
      exact List.mem_map_of_mem (f := Prod.snd) hp
    have hnodup := nodup_reverse_zipIdx (sortedFlows vnf)
    rw [selected, hsplit] at hleft
    rw [hsplit] at hnodup hshare
    have hlow := Greedy.left_lt_of_not_mem hshare hnodup hmay hleft
    rw [← hsplit] at hlow
    rw [loadAt, foldl_planFlow_eq]
    exact hlow

/-- Three flows of which the middle one may not be migrated, on a network function of the load 10. -/
def heavy : VNFinfo := { VNFinfo.new with
  flow := [⟨4 * maxLoad, 100, 0, true⟩, ⟨3 * maxLoad, 100, 1, false⟩, ⟨3 * maxLoad, 100, 2, true⟩]
  loadPercentage := 10 }

theorem selectFlows_selects_heavy : Selects 5 heavy (selectFlows 5 heavy) :=
  selectFlows_selects (by decide) (by simp [heavy, maxLoad])

end Selection

/-! ## Step 4 -/

section Assignment

variable {vnfs vnfs' : List VNFinfo} {avgLoad : ℚ} {d f : Nat} {vnfId : Int} {st : Assignment}
  {plan plan' : List MigrateTuple} {tuple : MigrateTuple} {flow : Flowinfo} {fs rest : List Nat} {ids : List Int}
  {done : List Flowinfo}

/-! ## Tuples with rates -/

/-- All tuples refer to flows, with rates that are not negative. -/
def Rated (vnfs : List VNFinfo) (plan : List MigrateTuple) : Prop :=
  ∀ tuple ∈ plan, ∃ flow, flowOf vnfs tuple = .ok flow ∧ 0 ≤ flow.flowRate

theorem flowOf_source {tuple' : MigrateTuple} (h : tuple'.source = tuple.source) :
    flowOf vnfs tuple' = flowOf vnfs tuple := by
  obtain ⟨hsrc, hflowid⟩ := Prod.mk.inj h
  simp [flowOf, hsrc, hflowid]

theorem Rated.congr (h : Rated vnfs plan) (hsource : plan'.map MigrateTuple.source = plan.map MigrateTuple.source)
    (hcarried : vnfs'.map VNFinfo.carried = vnfs.map VNFinfo.carried) : Rated vnfs' plan' := by
  intro tuple' ht'
  have hmem := List.mem_map_of_mem (f := MigrateTuple.source) ht'
  rw [hsource] at hmem
  obtain ⟨tuple, ht, heq⟩ := List.mem_map.mp hmem
  obtain ⟨flow, hflow, hrate⟩ := h tuple ht
  exact ⟨flow, (flowOf_source heq.symm).trans (flowOf_carried hcarried hflow), hrate⟩

/-! ## What is forced -/

/-- The flow of a tuple that does not fit and is assigned only because it is at `end`. -/
def forcedAt (vnfs : List VNFinfo) (avgLoad : ℚ) (st : Assignment) (f : Nat) : Option Flowinfo := do
  let tuple ← st.plan[f]?
  let flow ← (flowOf vnfs tuple).toOption
  if 0 ≤ tuple.dstVNFid ∨ st.dstLoad + flow.flowRate / maxLoad < avgLoad ∨ f ≠ st.last then none
  else some flow

/-- The flows of all tuples that are forced while the tuples at some positions are looked at. -/
def forced (vnfs : List VNFinfo) (avgLoad : ℚ) (d : Nat) (vnfId : Int) : List Nat → Assignment → List Flowinfo
  | [], _ => []
  | f :: fs, st =>
      (forcedAt vnfs avgLoad st f).toList ++
        match assignTuple vnfs avgLoad d vnfId st f with
        | .ok st => forced vnfs avgLoad d vnfId fs st
        | .error _ => []

theorem forcedAt_eq (ht : st.plan[f]? = some tuple) (hflow : flowOf vnfs tuple = .ok flow) :
    forcedAt vnfs avgLoad st f =
      if 0 ≤ tuple.dstVNFid ∨ st.dstLoad + flow.flowRate / maxLoad < avgLoad ∨ f ≠ st.last then none
      else some flow := by
  simp [forcedAt, ht, hflow, Except.toOption]

theorem forced_cons (hd : d ≠ 0) (ht : st.plan[f]? = some tuple) (hflow : flowOf vnfs tuple = .ok flow) :
    forced vnfs avgLoad d vnfId (f :: fs) st =
      if 0 ≤ tuple.dstVNFid then forced vnfs avgLoad d vnfId fs st
      else if st.dstLoad + flow.flowRate / maxLoad < avgLoad then
        forced vnfs avgLoad d vnfId fs (st.take f vnfId flow)
      else if f = st.last then flow :: forced vnfs avgLoad d vnfId fs (st.take f vnfId flow)
      else forced vnfs avgLoad d vnfId fs st := by
  rw [forced, forcedAt_eq ht hflow, assignTuple_eq ht hflow]
  by_cases hdst : 0 ≤ tuple.dstVNFid
  · simp [hdst]
  · by_cases hfits : st.dstLoad + flow.flowRate / maxLoad < avgLoad
    · simp [hdst, hfits, Takes]
    · by_cases hlast : f = st.last
      · simp [hdst, hfits, hlast, Takes]
      · simp [hdst, hfits, hlast, Takes, hd]

/-! ## The invariant -/

/-- A tuple that had a destination, or has been given an id. -/
def MigrateTuple.HasDestination (ids : List Int) (tuple : MigrateTuple) : Prop :=
  0 ≤ tuple.dstVNFid ∨ tuple.dstVNFid ∈ ids

theorem MigrateTuple.hasDestination_iff (h : ∀ vnfId ∈ ids, 0 ≤ vnfId) :
    tuple.HasDestination ids ↔ 0 ≤ tuple.dstVNFid :=
  or_iff_left_of_imp (h _)

/-- What holds at every moment, with what has been forced in the round so far. -/
structure Within (ids : List Int) (avgLoad : ℚ) (done : List Flowinfo) (st : Assignment) : Prop where
  below : ∀ (k : Nat) (tuple : MigrateTuple), k < st.last → st.plan[k]? = some tuple → tuple.HasDestination ids
  once : done.length ≤ 1
  load : st.dstLoad ≤ avgLoad + (done.map fun flow => flow.flowRate / maxLoad).sum

/-- Once a tuple has been forced, `end` is behind all that are to come. -/
structure Assigns (ids : List Int) (avgLoad : ℚ) (done : List Flowinfo) (rest : List Nat) (st : Assignment) : Prop
    extends Within ids avgLoad done st where
  sorted : rest.Pairwise (· > ·)
  passed : done ≠ [] → ∀ f ∈ rest, f < st.last
  nonneg : ∀ flow ∈ done, 0 ≤ flow.flowRate

theorem Assigns.skip (h : Assigns ids avgLoad done (f :: rest) st) : Assigns ids avgLoad done rest st where
  toWithin := h.toWithin
  sorted := (List.pairwise_cons.mp h.sorted).2
  passed hne := (List.forall_mem_cons.mp (h.passed hne)).2
  nonneg := h.nonneg

/-- The tuple gets a destination; `end` goes on if it is there. -/
theorem Within.below_take (h : Within ids avgLoad done st) (hid : vnfId ∈ ids) (k : Nat) (tuple : MigrateTuple)
    (hk : k < (st.take f vnfId flow).last) (ht : (st.take f vnfId flow).plan[k]? = some tuple) :
    tuple.HasDestination ids := by
  simp only [Assignment.take] at hk ht
  by_cases hkf : f = k
  · subst hkf
    rw [List.getElem?_modify_eq] at ht
    obtain ⟨tuple', -, rfl⟩ := Option.map_eq_some_iff.mp ht
    exact Or.inr hid
  · rw [List.getElem?_modify_ne _ _ hkf] at ht
    apply h.below k tuple _ ht
    split at hk
    · omega
    · exact hk

theorem Assigns.passed_take (h : Assigns ids avgLoad done (f :: rest) st) :
    f = st.last ∨ done ≠ [] → ∀ f' ∈ rest, f' < (st.take f vnfId flow).last := by
  intro hor f' hf'
  have hlt := (List.pairwise_cons.mp h.sorted).1 f' hf'
  simp only [Assignment.take]
  split
  · omega
  · rename_i hlast
    have hne := hor.resolve_left hlast
    exact h.passed hne f' (List.mem_cons_of_mem f hf')

theorem Assigns.fit (h : Assigns ids avgLoad done (f :: rest) st) (hid : vnfId ∈ ids)
    (hfits : st.dstLoad + flow.flowRate / maxLoad < avgLoad) :
    Assigns ids avgLoad done rest (st.take f vnfId flow) where
  below := h.below_take hid
  once := h.once
  load := by
    have hsum : 0 ≤ (done.map fun flow => flow.flowRate / maxLoad).sum := by
      apply List.sum_nonneg
      intro x hx
      obtain ⟨flow', hflow', rfl⟩ := List.mem_map.mp hx
      exact div_nonneg (h.nonneg flow' hflow') maxLoad_pos.le
    simp only [Assignment.take]
    linarith
  sorted := h.skip.sorted
  passed hne := h.passed_take (Or.inr hne)
  nonneg := h.nonneg

/-- Nothing has been forced before. -/
theorem Assigns.force (h : Assigns ids avgLoad done (st.last :: rest) st) (hid : vnfId ∈ ids)
    (hrate : 0 ≤ flow.flowRate) :
    Assigns ids avgLoad (done ++ [flow]) rest (st.take st.last vnfId flow) := by
  have hnil : done = [] := by
    by_contra hne
    exact absurd (h.passed hne st.last (List.mem_cons_self ..)) (lt_irrefl _)
  subst hnil
  have hload := h.load
  constructor
  case toWithin =>
    refine ⟨h.below_take hid, by simp, ?_⟩
    simp only [List.map_nil, List.sum_nil, add_zero] at hload
    simp only [Assignment.take, List.nil_append, List.map_cons, List.map_nil, List.sum_cons, List.sum_nil, add_zero]
    linarith
  case sorted => exact h.skip.sorted
  case passed => exact fun _ => h.passed_take (Or.inl rfl)
  case nonneg => simpa using hrate

/-- The loop over the tuples at some positions. -/
theorem assignTuples_ok (hd : d ≠ 0) (hid : vnfId ∈ ids) (hfs : ∀ f ∈ fs, f < st.plan.length)
    (hrated : Rated vnfs st.plan) (h : Assigns ids avgLoad done (fs ++ rest) st) :
    ∃ now, fs.foldlM (assignTuple vnfs avgLoad d vnfId) st = .ok now ∧
      now.plan.map MigrateTuple.source = st.plan.map MigrateTuple.source ∧
      Assigns ids avgLoad (done ++ forced vnfs avgLoad d vnfId fs st) rest now := by
  induction fs generalizing st done with
  | nil => exact ⟨st, rfl, rfl, by simpa [forced] using h⟩
  | cons f fs ih =>
      rw [List.forall_mem_cons] at hfs
      have ht := List.getElem?_eq_getElem hfs.1
      obtain ⟨flow, hflow, hrate⟩ := hrated _ (List.getElem_mem hfs.1)
      rw [List.foldlM_cons, assignTuple_eq ht hflow, forced_cons hd ht hflow, ok_bind]
      -- Behind a tuple that has been assigned.
      have htaken : ∀ done', Assigns ids avgLoad done' (fs ++ rest) (st.take f vnfId flow) →
          ∃ now, fs.foldlM (assignTuple vnfs avgLoad d vnfId) (st.take f vnfId flow) = .ok now ∧
            now.plan.map MigrateTuple.source = st.plan.map MigrateTuple.source ∧
            Assigns ids avgLoad (done' ++ forced vnfs avgLoad d vnfId fs (st.take f vnfId flow)) rest now := by
        intro done' h'
        have hsource : (st.take f vnfId flow).plan.map MigrateTuple.source = st.plan.map MigrateTuple.source :=
          source_take
        have hlength : (st.take f vnfId flow).plan.length = st.plan.length := by
          have hlength := congrArg List.length hsource
          rwa [List.length_map, List.length_map] at hlength
        obtain ⟨now, hnow, hkeeps, hinv⟩ := ih (hlength ▸ hfs.2) (hrated.congr hsource rfl) h'
        exact ⟨now, hnow, hkeeps.trans hsource, hinv⟩
      by_cases hdst : 0 ≤ st.plan[f].dstVNFid
      · rw [if_pos hdst, if_pos hdst]
        exact ih hfs.2 hrated h.skip
      · rw [if_neg hdst, if_neg hdst]
        by_cases hfits : st.dstLoad + flow.flowRate / maxLoad < avgLoad
        · have htakes : Takes avgLoad st f flow := Or.inl hfits
          rw [if_pos htakes, if_pos hfits]
          exact htaken done (h.fit hid hfits)
        · rw [if_neg hfits]
          by_cases hlast : f = st.last
          · have htakes : Takes avgLoad st f flow := Or.inr hlast
            rw [if_pos htakes, if_pos hlast, List.append_cons]
            subst hlast
            exact htaken _ (h.force hid hrate)
          · have hno : ¬ Takes avgLoad st f flow := not_or.mpr ⟨hfits, hlast⟩
            rw [if_neg hno, if_neg hd, if_neg hlast]
            exact ih hfs.2 hrated h.skip

/-! ## The rounds -/

section Rounds

variable {start st final : List VNFinfo × List MigrateTuple × Nat} {rest : List (Nat × Nat)} {i : Nat}

/-- The tuples are looked at from the last one down. -/
def positions (st : List VNFinfo × List MigrateTuple × Nat) : List Nat := (List.range st.2.1.length).reverse

def beginning (st : List VNFinfo × List MigrateTuple × Nat) (vnf : VNFinfo) : Assignment :=
  ⟨st.2.1, vnf.loadPercentage, st.2.2⟩

/-- The round for the light network function `vnf` at `i`, which begins in a state: what holds at its moments, and
that the load at the end of all rounds is the one that it credits. -/
structure Credits (ids : List Int) (avgLoad : ℚ) (i d : Nat) (st : List VNFinfo × List MigrateTuple × Nat)
    (vnf : VNFinfo) (final : List VNFinfo × List MigrateTuple × Nat) : Prop where
  there : st.1[i]? = some vnf
  moments : ∀ fs fs', positions st = fs ++ fs' → ∃ now,
    fs.foldlM (assignTuple st.1 avgLoad d vnf.vnfId) (beginning st vnf) = .ok now ∧
      Within ids avgLoad (forced st.1 avgLoad d vnf.vnfId fs (beginning st vnf)) now
  credited : ∃ now vnf', (positions st).foldlM (assignTuple st.1 avgLoad d vnf.vnfId) (beginning st vnf) = .ok now ∧
    final.1[i]? = some vnf' ∧ vnf'.loadPercentage = now.dstLoad

/-- Between rounds, with the light ones that are to come. -/
structure Pending (start : List VNFinfo × List MigrateTuple × Nat) (ids : List Int) (avgLoad : ℚ)
    (rest : List (Nat × Nat)) (st : List VNFinfo × List MigrateTuple × Nat) : Prop where
  carried : st.1.map VNFinfo.carried = start.1.map VNFinfo.carried
  sources : st.2.1.map MigrateTuple.source = start.2.1.map MigrateTuple.source
  below : ∀ (k : Nat) (tuple : MigrateTuple), k < st.2.2 → st.2.1[k]? = some tuple → tuple.HasDestination ids
  light : ∀ p ∈ rest, p.2 ≠ 0 ∧ ∃ vnf, st.1[p.1]? = some vnf ∧ vnf.loadPercentage ≤ avgLoad ∧ vnf.vnfId ∈ ids
  nodup : (rest.map Prod.fst).Nodup

theorem Pending.round (h : Pending start ids avgLoad ((i, d) :: rest) st) (hrated : Rated start.1 start.2.1) :
    ∃ st' vnf, assignVNF avgLoad st (i, d) = .ok st' ∧ Pending start ids avgLoad rest st' ∧
      Credits ids avgLoad i d st vnf st' ∧ ∀ j ≠ i, st'.1[j]? = st.1[j]? := by
  obtain ⟨⟨hd, vnf, hvnf, hle, hid⟩, hlight⟩ := List.forall_mem_cons.mp h.light
  obtain ⟨hi, hnodup⟩ := List.nodup_cons.mp h.nodup
  have hrated' : Rated st.1 st.2.1 := hrated.congr h.sources h.carried
  have hinv : Assigns ids avgLoad [] (positions st) (beginning st vnf) := by
    refine ⟨⟨h.below, by simp, by simpa [beginning] using hle⟩, ?_, by simp, by simp⟩
    exact List.pairwise_reverse.mpr List.pairwise_lt_range
  -- The loop up to a position.
  have hmoment : ∀ fs fs', positions st = fs ++ fs' → ∃ now,
      fs.foldlM (assignTuple st.1 avgLoad d vnf.vnfId) (beginning st vnf) = .ok now ∧
        now.plan.map MigrateTuple.source = st.2.1.map MigrateTuple.source ∧
        Assigns ids avgLoad (forced st.1 avgLoad d vnf.vnfId fs (beginning st vnf)) fs' now := by
    intro fs fs' hsplit
    rw [hsplit] at hinv
    refine assignTuples_ok hd hid ?_ hrated' hinv
    intro f hf
    have hmem : f ∈ positions st := hsplit ▸ List.mem_append_left _ hf
    simpa [positions, beginning] using hmem
  obtain ⟨now, hnow, hsource, hdone⟩ := hmoment (positions st) [] (List.append_nil _).symm
  let st' := (st.1.modify i fun vnf => { vnf with loadPercentage := now.dstLoad }, now.plan, now.last)
  have hround : assignVNF avgLoad st (i, d) = .ok st' := by
    rw [assignVNF, get_eq hvnf, ok_bind]
    show ((positions st).foldlM (assignTuple st.1 avgLoad d vnf.vnfId) (beginning st vnf) >>= _) = _
    rw [hnow, ok_bind]
    rfl
  have hother : ∀ j ≠ i, st'.1[j]? = st.1[j]? := fun j hj => List.getElem?_modify_ne _ _ hj.symm
  refine ⟨st', vnf, hround, ?_, ?_, hother⟩
  · constructor
    case carried => exact (carried_setLoad ..).trans h.carried
    case sources => exact hsource.trans h.sources
    case below => exact hdone.below
    case nodup => exact hnodup
    case light =>
      intro p hp
      have hmem := List.mem_map_of_mem (f := Prod.fst) hp
      have hne : p.1 ≠ i := fun he => hi (he ▸ hmem)
      rw [hother p.1 hne]
      exact hlight p hp
  · refine ⟨hvnf, fun fs fs' hsplit => ?_, now, { vnf with loadPercentage := now.dstLoad }, hnow, ?_, rfl⟩
    · obtain ⟨now', hnow', -, hwithin⟩ := hmoment fs fs' hsplit
      exact ⟨now', hnow', hwithin.toWithin⟩
    · simp [st', hvnf]

theorem Pending.rounds (hrated : Rated start.1 start.2.1) (h : Pending start ids avgLoad rest st) :
    ∃ final, rest.foldlM (assignVNF avgLoad) st = .ok final ∧ (∀ j ∉ rest.map Prod.fst, final.1[j]? = st.1[j]?) ∧
      ∀ pre i d post, rest = pre ++ (i, d) :: post → ∃ mid vnf, pre.foldlM (assignVNF avgLoad) st = .ok mid ∧
        Credits ids avgLoad i d mid vnf final := by
  induction rest generalizing st with
  | nil => exact ⟨st, rfl, fun _ _ => rfl, fun pre i d post hsplit => by simp at hsplit⟩
  | cons light rest ih =>
      obtain ⟨i, d⟩ := light
      obtain ⟨st', vnf, hround, hpending, hcredits, hother⟩ := h.round hrated
      obtain ⟨final, hfinal, hsame, hrounds⟩ := ih hpending
      obtain ⟨hi, -⟩ := List.nodup_cons.mp h.nodup
      refine ⟨final, ?_, ?_, ?_⟩
      · rw [List.foldlM_cons, hround, ok_bind, hfinal]
      · intro j hj
        rw [List.map_cons, List.mem_cons, not_or] at hj
        rw [hsame j hj.2, hother j hj.1]
      · intro pre i' d' post hsplit
        cases pre with
        | nil =>
            obtain ⟨⟨rfl, rfl⟩, rfl⟩ : (i = i' ∧ d = d') ∧ rest = post := by simpa using hsplit
            obtain ⟨now, vnf', hnow, hvnf', hload⟩ := hcredits.credited
            exact ⟨st, vnf, rfl, hcredits.there, hcredits.moments, now, vnf', hnow, (hsame i hi).trans hvnf', hload⟩
        | cons light pre =>
            obtain ⟨rfl, hrest⟩ := List.cons.inj hsplit
            obtain ⟨mid, vnf', hmid, hcredits'⟩ := hrounds pre i' d' post hrest
            exact ⟨mid, vnf', by rw [List.foldlM_cons, hround, ok_bind, hmid], hcredits'⟩

end Rounds

/-- The ids of light network functions. -/
def lightIds (vnfs : List VNFinfo) (light : List Nat) : List Int :=
  light.filterMap fun i => vnfs[i]?.map VNFinfo.vnfId

/-- Step 4 with the light network functions at the positions from 1 on. -/
theorem assignment_within {light : List Nat}
    (hlight : ∀ i ∈ light, ∃ vnf, vnfs[i]? = some vnf ∧ vnf.loadPercentage ≤ avgLoad) (hnodup : light.Nodup)
    (hrated : Rated vnfs plan) :
    ∃ final, (light.zipIdx.drop 1).reverse.foldlM (assignVNF avgLoad) (vnfs, plan, 0) = .ok final ∧
      ∀ pre i d post, (light.zipIdx.drop 1).reverse = pre ++ (i, d) :: post → ∃ st vnf,
        pre.foldlM (assignVNF avgLoad) (vnfs, plan, 0) = .ok st ∧
          Credits (lightIds vnfs light) avgLoad i d st vnf final := by
  have hpending : Pending (vnfs, plan, 0) (lightIds vnfs light) avgLoad (light.zipIdx.drop 1).reverse
      (vnfs, plan, 0) := by
    constructor
    case carried => rfl
    case sources => rfl
    case below => exact fun k tuple hk _ => absurd hk (Nat.not_lt_zero k)
    case nodup =>
      rw [List.map_reverse, List.map_drop, List.zipIdx_map_fst]
      exact List.nodup_reverse.mpr hnodup.drop
    case light =>
      intro p hp
      obtain ⟨k, hk⟩ := List.getElem?_of_mem (List.mem_reverse.mp hp)
      rw [List.getElem?_drop, List.getElem?_zipIdx] at hk
      obtain ⟨i, hi, rfl⟩ := Option.map_eq_some_iff.mp hk
      have hmem := List.mem_of_getElem? hi
      obtain ⟨vnf, hvnf, hle⟩ := hlight i hmem
      refine ⟨by omega, vnf, hvnf, hle, List.mem_filterMap.mpr ⟨i, hmem, ?_⟩⟩
      simp [hvnf]
  obtain ⟨final, hfinal, -, hrounds⟩ := hpending.rounds hrated
  exact ⟨final, hfinal, hrounds⟩

/-- The two others take flows of the first of three network functions; the smaller one of them is at `end`. -/
def twoLight : List VNFinfo :=
  [{ VNFinfo.new with flow := [⟨1, 100, 0, true⟩, ⟨4, 100, 1, true⟩] }, { VNFinfo.new with vnfId := 1 },
    { VNFinfo.new with vnfId := 2 }]

theorem assignment_within_twoLight : ∃ final, ([(2, 1)] : List (Nat × Nat)).foldlM (assignVNF 0)
      (twoLight, [⟨0, 0, -1⟩, ⟨0, 1, -1⟩], 0) = .ok final ∧
    ∀ pre i d post, [(2, 1)] = pre ++ (i, d) :: post → ∃ st vnf,
      pre.foldlM (assignVNF 0) (twoLight, [⟨0, 0, -1⟩, ⟨0, 1, -1⟩], 0) = .ok st ∧
        Credits (lightIds twoLight [1, 2]) 0 i d st vnf final := by
  apply @assignment_within twoLight 0 [⟨0, 0, -1⟩, ⟨0, 1, -1⟩] [1, 2] _ (by decide)
  · simp [Rated, flowOf, twoLight, get, ok_bind]
  · simp [twoLight, VNFinfo.new]

end Assignment

end OFM.OFMAlgorithm
