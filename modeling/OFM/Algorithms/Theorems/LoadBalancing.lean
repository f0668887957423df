import OFM.Algorithms.Lemmas.Distribution

/-!
# Where load balancing sends flows

Every tuple goes to a light network function, but for those of flows that no light one has room for: these go to the
first network function, be it light or heavy, and what it says its load is does not count them.
-/

namespace OFM.OFMAlgorithm
open OFM.Lib

variable {s : Algorithms}

/-- The id is that of a network function that was not above the average. -/
def ToLight (s : Algorithms) (vnfId : Int) : Prop :=
  ∃ (i : Nat) (vnf : VNFinfo), s.globalVNFinfo[i]? = some vnf ∧
    vnf.loadPercentage ≤ averageLoad s.globalVNFinfo ∧ vnfId = vnf.vnfId

/-- When `MigrateTotal` is called every destination is light, and is not the source. -/
def MovesToLight (s : Algorithms) : Prop :=
  ∃ vnfs plan last, assigned s = .ok (vnfs, plan, last) ∧
    ∀ tuple ∈ plan, ToLight s tuple.dstVNFid ∧ tuple.dstVNFid ≠ tuple.srcVNFid

section ToLight

variable (hindexed : Indexed s.globalVNFinfo)

include hindexed

theorem toLight_iff_mem (i : Nat) : ToLight s i ↔ i ∈ lightOnes s := by
  rw [Distribution.mem_lightOnes]
  constructor
  · rintro ⟨j, vnf, hj, hle, hid⟩
    rw [hindexed j vnf hj] at hid
    obtain rfl : i = j := Int.ofNat_inj.mp hid
    exact ⟨vnf, hj, not_lt.mpr hle⟩
  · rintro ⟨vnf, hi, hlight⟩
    exact ⟨i, vnf, hi, not_lt.mp hlight, (hindexed i vnf hi).symm⟩

theorem toLight_zero_iff (hne : s.globalVNFinfo ≠ []) :
    ToLight s 0 ↔ ∀ vnf ∈ s.globalVNFinfo.head?, vnf.loadPercentage ≤ averageLoad s.globalVNFinfo := by
  obtain ⟨first, hfirst⟩ : ∃ first, s.globalVNFinfo[0]? = some first :=
    ⟨_, List.getElem?_eq_getElem (List.length_pos_iff.mpr hne)⟩
  have hmem := toLight_iff_mem hindexed 0
  rw [Nat.cast_zero] at hmem
  rw [hmem, Distribution.mem_lightOnes, List.head?_eq_getElem?, hfirst]
  simp

/-- The source of a tuple is heavy. -/
theorem Round.ne_source {st : List VNFinfo × List MigrateTuple × Nat} (hst : Round s st) {tuple : MigrateTuple}
    (ht : tuple ∈ st.2.1) (hlight : ToLight s tuple.dstVNFid) : tuple.dstVNFid ≠ tuple.srcVNFid := by
  intro hsame
  obtain ⟨i, vnf, hvnf, hle, hid⟩ := hlight
  obtain ⟨vnf', hvnf', hp⟩ := List.mem_flatMap.mp (hst.sources.mem_iff.mp (List.mem_map_of_mem ht))
  obtain ⟨j, hj⟩ := List.getElem?_of_mem hvnf'
  obtain ⟨hheavy, hid', -⟩ := mem_planned_source hp
  have hij : (i : Int) = j := by
    rw [← hindexed i vnf hvnf, ← hid, hsame, ← hindexed j vnf' hj]
    exact hid'
  obtain rfl : i = j := Int.ofNat_inj.mp hij
  obtain rfl := Option.some.inj (hvnf.symm.trans hj)
  exact absurd hheavy (not_lt.mpr hle)

/-- A flow goes to a light one where there is room, and to the first one where there is none. -/
theorem movesToLight_iff_placed (d : Distribution s) (hplan : s.migrateInfo = []) :
    MovesToLight s ↔ ToLight s 0 ∨ d.PlacesAll := by
  obtain ⟨plan, st, hst, hbegins, hfollows⟩ := d.exists_assigned hindexed hplan
  constructor
  · rintro ⟨vnfs, plan', last, heq, hlight⟩
    obtain rfl := Except.ok.inj (hst.symm.trans heq)
    refine or_iff_not_imp_right.mpr fun hno => ?_
    obtain ⟨f, hf, hnot⟩ : ∃ f < d.shares.length, ¬ d.Placed f := by
      rw [Distribution.PlacesAll] at hno
      push Not at hno
      exact hno
    -- The tuple of this flow is left with the position 0.
    have hlt : f < plan.length := hbegins.length_eq ▸ hf
    have hdst := (hlight _ (List.mem_of_getElem? (hfollows.getElem? (List.getElem?_eq_getElem hlt)))).1
    rw [Distribution.dst_eq_zero hnot] at hdst
    exact hdst
  · intro h
    obtain ⟨vnfs, plan', last⟩ := st
    refine ⟨vnfs, plan', last, hst, fun tuple ht => ?_⟩
    suffices hlight : ToLight s tuple.dstVNFid from ⟨hlight, (hfollows.round hbegins).ne_source hindexed ht hlight⟩
    obtain ⟨f, hf⟩ := List.getElem?_of_mem ht
    have heq : plan' = plan.mapIdx fun f tuple => { tuple with dstVNFid := (d.dst f : Int) } := hfollows.plan_eq
    rw [heq, List.getElem?_mapIdx] at hf
    obtain ⟨tuple', htuple', rfl⟩ := Option.map_eq_some_iff.mp hf
    have hlt : f < d.shares.length := hbegins.length_eq ▸ (List.getElem?_eq_some_iff.mp htuple').1
    by_cases hplaced : d.Placed f
    · obtain ⟨k, hk, hgoes⟩ := hplaced
      show ToLight s (d.dst f : Int)
      rw [Distribution.dst_eq hlt hk hgoes]
      exact (toLight_iff_mem hindexed _).mpr (List.getElem_mem hk)
    · have hzero := h.resolve_right fun hall => hplaced (hall f hlt)
      show ToLight s (d.dst f : Int)
      rw [Distribution.dst_eq_zero hplaced]
      exact hzero

end ToLight

/-- All destinations are light exactly if the first network function is, or there is room for all that leaves. -/
theorem movesToLight_iff (hindexed : Indexed s.globalVNFinfo) (hne : s.globalVNFinfo ≠ [])
    (hplan : s.migrateInfo = []) : MovesToLight s ↔
      (∀ vnf ∈ s.globalVNFinfo.head?, vnf.loadPercentage ≤ averageLoad s.globalVNFinfo) ∨
        ∃ d : Distribution s, d.PlacesAll := by
  rw [← toLight_zero_iff hindexed hne]
  constructor
  · intro h
    obtain ⟨d⟩ := nonempty_distribution s
    exact ((movesToLight_iff_placed hindexed d hplan).mp h).imp_right fun hall => ⟨d, hall⟩
  · rintro (h | ⟨d, h⟩)
    · obtain ⟨d⟩ := nonempty_distribution s
      exact (movesToLight_iff_placed hindexed d hplan).mpr (Or.inl h)
    · exact (movesToLight_iff_placed hindexed d hplan).mpr (Or.inr h)

/-- Two flows on the first of two network functions. The smaller one goes to the other. -/
def uneven : Algorithms where
  migrateInfo := []
  globalVNFinfo :=
    [{ VNFinfo.new with flow := [⟨1, 100, 0, false⟩, ⟨3, 100, 1, false⟩] }.refresh, { VNFinfo.new with vnfId := 1 }]
  vnfNum := 2

theorem uneven_indexed : Indexed uneven.globalVNFinfo := by
  intro i vnf hi
  match i with
  | 0 | 1 =>
      obtain rfl := Option.some.inj hi
      rfl
  | i + 2 => cases hi

/-- By the plan when `MigrateTotal` is called. -/
theorem movesToLight_iff_plan {plan : List MigrateTuple}
    (h : (assigned s).toOption.map (fun st => st.2.1) = some plan) :
    MovesToLight s ↔ ∀ tuple ∈ plan, ToLight s tuple.dstVNFid ∧ tuple.dstVNFid ≠ tuple.srcVNFid := by
  cases hst : assigned s with
  | error e =>
      rw [hst] at h
      cases h
  | ok st =>
      rw [hst] at h
      obtain rfl : st.2.1 = plan := Option.some.inj h
      constructor
      · rintro ⟨vnfs, plan', last, heq, hlight⟩
        obtain rfl := Except.ok.inj (hst.symm.trans heq)
        exact hlight
      · exact fun hlight => ⟨st.1, st.2.1, st.2.2, hst, hlight⟩

theorem movesToLight_iff_uneven : MovesToLight uneven ∧ ∃ d : Distribution uneven, d.PlacesAll := by
  have hmoves : MovesToLight uneven := by
    refine (@movesToLight_iff_plan uneven [⟨0, 0, 1⟩] (by decide +kernel)).mpr fun tuple ht => ?_
    obtain rfl := List.mem_singleton.mp ht
    exact ⟨⟨1, { VNFinfo.new with vnfId := 1 }, rfl, by decide +kernel, rfl⟩, by decide⟩
  exact ⟨hmoves, ((movesToLight_iff uneven_indexed (List.cons_ne_nil _ _) rfl).mp hmoves).resolve_left
    (by decide +kernel)⟩

/-- Four flows on the first of three network functions. The largest one fits nowhere. -/
def crowded : Algorithms where
  migrateInfo := []
  globalVNFinfo :=
    [{ VNFinfo.new with
        flow := [⟨1, 100, 0, false⟩, ⟨1, 100, 1, false⟩, ⟨3, 100, 2, false⟩, ⟨4, 100, 3, false⟩] }.refresh,
      { VNFinfo.new with vnfId := 1 }, { VNFinfo.new with vnfId := 2 }]
  vnfNum := 3

/-- The largest flow is sent to where it is. -/
theorem not_movesToLight_crowded : ¬ MovesToLight crowded := by
  rw [@movesToLight_iff_plan crowded [⟨0, 1, 2⟩, ⟨0, 0, 2⟩, ⟨0, 3, 0⟩] (by decide +kernel)]
  intro h
  exact (h ⟨0, 3, 0⟩ (by simp)).2 rfl

/-! ## The variance -/

def loads (vnfs : List VNFinfo) : List ℚ := vnfs.map VNFinfo.load

/-- The variance of the loads does not grow, and the result is the quotient of the variances. -/
def Balances (s : Algorithms) : Prop :=
  ∃ ratio s', loadBalancingCheck s = .ok (ratio, s') ∧
    variance (loads s'.globalVNFinfo) ≤ variance (loads s.globalVNFinfo) ∧
    (variance (loads s'.globalVNFinfo) ≠ 0 →
      ratio = some (variance (loads s.globalVNFinfo) / variance (loads s'.globalVNFinfo)))

/-- The sum of the loads is that of all flows. -/
theorem sum_loads (vnfs : List VNFinfo) : (loads vnfs).sum = ((allFlows vnfs).map Prod.fst).sum / maxLoad := by
  induction vnfs with
  | nil => simp [loads, allFlows]
  | cons vnf vnfs ih =>
      have hflows : (vnf.flows.map Prod.fst).sum = (vnf.flow.map Flowinfo.flowRate).sum := by
        rw [VNFinfo.flows, Multiset.map_coe, Multiset.sum_coe, List.map_map]
        rfl
      have hcons : allFlows (vnf :: vnfs) = vnf.flows + allFlows vnfs := List.sum_cons
      rw [hcons, Multiset.map_add, Multiset.sum_add, add_div, hflows, ← ih]
      rfl



/-- A list by its positions. -/
theorem eq_map_range {n : Nat} {x : List ℚ} {g : Nat → ℚ} (hlength : x.length = n) (h : ∀ i < n, x[i]? = some (g i)) :
    x = (List.range n).map g := by
  refine List.ext_getElem? fun i => ?_
  by_cases hi : i < n
  · rw [h i hi, List.getElem?_map, List.getElem?_range hi, Option.map_some]
  · rw [List.getElem?_eq_none (hlength.trans_le (not_lt.mp hi)), List.getElem?_eq_none (by simpa using not_lt.mp hi)]

theorem loads_eq (hloads : ∀ vnf ∈ s.globalVNFinfo, vnf.loadPercentage = vnf.load) :
    loads s.globalVNFinfo = (List.range s.globalVNFinfo.length).map (loadBefore s) := by
  refine eq_map_range (List.length_map ..) fun i hi => ?_
  have hget := List.getElem?_eq_getElem hi
  rw [loads, List.getElem?_map, hget, Option.map_some, loadBefore, hget, Option.map_some, Option.getD_some,
    hloads _ (List.mem_of_getElem? hget)]

/-- The quotient is that of the variances exactly if both are the same. -/
theorem balances_iff_of_check {v : ℚ} {s' : Algorithms}
    (hcheck : loadBalancingCheck s = .ok (quotient (variance (loads s.globalVNFinfo)) v, s')) : Balances s ↔
      variance (loads s'.globalVNFinfo) ≤ variance (loads s.globalVNFinfo) ∧
        (variance (loads s'.globalVNFinfo) = 0 ∨ v = variance (loads s'.globalVNFinfo)) := by
  constructor
  · rintro ⟨ratio, s'', hcheck', hle, hratio⟩
    obtain ⟨rfl, rfl⟩ := Prod.mk.inj (Except.ok.inj (hcheck.symm.trans hcheck'))
    refine ⟨hle, or_iff_not_imp_left.mpr fun hne => ?_⟩
    have hquotient := hratio hne
    have hpos := ((variance_nonneg _).lt_of_ne' hne).trans_le hle
    rw [quotient] at hquotient
    split at hquotient
    · cases hquotient
    · rename_i hv
      have hsame := (div_eq_div_iff hv hne).mp (Option.some.inj hquotient)
      exact (mul_left_cancel₀ hpos.ne' hsame).symm
  · rintro ⟨hle, hsame⟩
    refine ⟨_, s', hcheck, hle, fun hne => ?_⟩
    rw [quotient, hsame.resolve_left hne, if_neg hne]

section Variance

variable (hindexed : Indexed s.globalVNFinfo) (hloads : ∀ vnf ∈ s.globalVNFinfo, vnf.loadPercentage = vnf.load)
  (hplan : s.migrateInfo = []) (hrates : ∀ vnf ∈ s.globalVNFinfo, ∀ f ∈ vnf.flow, 0 ≤ f.flowRate)

include hindexed hloads hplan hrates

/-- The check goes on to its end. What it says the loads are is what the network functions are credited with, and
the first one gets the rest as well. -/
theorem exists_after (d : Distribution s) : ∃ s', loadBalancingCheck s =
      .ok (quotient (variance (loads s.globalVNFinfo))
        (variance ((List.range s.globalVNFinfo.length).map d.credited)), s') ∧
    loads s'.globalVNFinfo = (List.range s.globalVNFinfo.length).map d.after ∧
    allFlows s'.globalVNFinfo = allFlows s.globalVNFinfo := by
  obtain ⟨plan, st, hst, hbegins, hfollows⟩ := d.exists_assigned hindexed hplan
  have hround := hfollows.round hbegins
  have hfits : BalancingFits s := balancingFits_of_nil hindexed hplan
  have hplaced : Placed s st :=
    (@ends_assigned s AnyFault (valid_of_indexed hindexed hplan) hfits).of_eq hst
  have hlength : st.1.length = s.globalVNFinfo.length := by
    rw [length_carried hplaced.carried, plannedVNFs, List.length_map]
  have hthere : ∀ tuple ∈ st.2.1, tuple.There st.1 := by
    intro tuple ht
    obtain ⟨flow, hflow, -⟩ := ok_of_never (ends_flowOf (hplaced.room.lt (List.mem_map_of_mem ht)))
    obtain ⟨hnonneg, hlt⟩ := hplaced.valid.dst tuple ht
    obtain ⟨dst, hdst⟩ := Int.eq_ofNat_of_zero_le hnonneg
    have hlt' : dst < st.1.length := by
      rw [hdst] at hlt
      exact Int.ofNat_lt.mp hlt
    exact ⟨⟨flow, hflow⟩, ⟨_, hdst ▸ get_eq (List.getElem?_eq_getElem hlt')⟩⟩
  have hnodup : (st.2.1.map MigrateTuple.source).Nodup :=
    hround.sources.nodup_iff.mpr (nodup_freshSources hfits.indexed)
  obtain ⟨s', hs', hflows, hperm, hcarried⟩ := ok_of_never ((ends_migrateTotal_flows
    { s with migrateInfo := st.2.1, globalVNFinfo := st.1 }).and_any (ends_migrateTotal_carried hnodup hthere))
  have hbefore : s.globalVNFinfo.map VNFinfo.loadPercentage = loads s.globalVNFinfo := List.map_congr_left hloads
  have hcredited : st.1.map VNFinfo.loadPercentage = (List.range s.globalVNFinfo.length).map d.credited := by
    refine eq_map_range (by rw [List.length_map, hlength]) fun i hi => ?_
    obtain ⟨vnf', hvnf', hload⟩ := hfollows.credited hrates (List.getElem?_eq_getElem hi)
    rw [List.getElem?_map, hvnf', Option.map_some, hload]
  refine ⟨s', ?_, eq_map_range ?_ fun i hi => ?_, ?_⟩
  · rw [loadBalancingCheck_eq, hst, ok_bind, hs', ok_bind, hbefore, hcredited]
  · rw [loads, List.length_map]
    exact hcarried.length.trans hlength
  · have hget := List.getElem?_eq_getElem hi
    have hmem := List.mem_of_getElem? hget
    obtain ⟨vnf', hvnf', hload⟩ := load_migrated hround hindexed hget (hloads _ hmem) (hrates _ hmem)
      ((List.reverse_perm _).trans hperm) hthere hcarried
    rw [loads, List.getElem?_map, hvnf', Option.map_some, hload, hfollows.received_eq hbegins,
      Distribution.loadPercentage_planned hrates hget, ← add_assoc]
    rfl
  · exact hflows.trans ((allFlows_carried hplaced.carried).trans (allFlows_planned ..))

theorem balances_iff_harmless (d : Distribution s) : Balances s ↔ d.Harmless := by
  obtain ⟨s', hcheck, hafter, hflows⟩ := exists_after hindexed hloads hplan hrates d
  have hsum : ((List.range s.globalVNFinfo.length).map d.after).sum = (loads s.globalVNFinfo).sum := by
    rw [← hafter, sum_loads, hflows, ← sum_loads]
  have hmean : (loads s.globalVNFinfo).sum / s.globalVNFinfo.length = averageLoad s.globalVNFinfo := by
    rw [averageLoad, List.map_congr_left hloads, loads]
  have hbefore := loads_eq hloads
  rw [balances_iff_of_check hcheck, hafter, variance_eq_zero_iff, hsum, List.length_map, List.length_range, hmean,
    hbefore]
  rw [hbefore] at hsum hmean
  have hall : (∀ x ∈ (List.range s.globalVNFinfo.length).map d.after, x = averageLoad s.globalVNFinfo) ↔
      ∀ i < s.globalVNFinfo.length, d.after i = averageLoad s.globalVNFinfo := by simp
  rw [hall, Distribution.Harmless]
  rcases Nat.eq_zero_or_pos s.globalVNFinfo.length with hnil | hpos
  · simp [hnil]
  · have hle := d.variance_after_le hrates hpos hsum
    rw [d.variance_credited_iff hpos (hsum ▸ hmean)]
    constructor
    · rintro ⟨-, h | h | h⟩
      · exact Or.inr (Or.inl h)
      · exact Or.inl h
      · exact Or.inr (Or.inr h)
    · rintro (h | h | h)
      · exact ⟨hle (by rw [h, zero_mul, zero_mul]), Or.inr (Or.inl h)⟩
      · -- There is no variance.
        have hzero := (variance_eq_zero_iff ((List.range s.globalVNFinfo.length).map d.after)).mpr
        rw [hsum, List.length_map, List.length_range, hmean, hall] at hzero
        exact ⟨(hzero h).trans_le (variance_nonneg _), Or.inl h⟩
      · refine ⟨hle (mul_le_mul_of_nonneg_left ?_ (Distribution.rest_nonneg hrates d)), Or.inr (Or.inr h)⟩
        have hnonneg : 0 ≤ d.rest / s.globalVNFinfo.length :=
          div_nonneg (Distribution.rest_nonneg hrates d) (Nat.cast_nonneg _)
        linarith

end Variance

/-- Load balancing balances exactly if what there is no room for is harmless. -/
theorem balances_iff (hindexed : Indexed s.globalVNFinfo)
    (hloads : ∀ vnf ∈ s.globalVNFinfo, vnf.loadPercentage = vnf.load) (hplan : s.migrateInfo = [])
    (hrates : ∀ vnf ∈ s.globalVNFinfo, ∀ f ∈ vnf.flow, 0 ≤ f.flowRate) :
    Balances s ↔ ∃ d : Distribution s, d.Harmless := by
  constructor
  · intro h
    obtain ⟨d⟩ := nonempty_distribution s
    exact ⟨d, (balances_iff_harmless hindexed hloads hplan hrates d).mp h⟩
  · rintro ⟨d, h⟩
    exact (balances_iff_harmless hindexed hloads hplan hrates d).mpr h

/-- By what the check returns and the loads behind it. -/
theorem balances_iff_result {ratio : Option ℚ} {after : List ℚ}
    (h : (loadBalancingCheck s).toOption.map (fun result => (result.1, loads result.2.globalVNFinfo)) =
      some (ratio, after)) : Balances s ↔ variance after ≤ variance (loads s.globalVNFinfo) ∧
        (variance after ≠ 0 → ratio = some (variance (loads s.globalVNFinfo) / variance after)) := by
  cases hcheck : loadBalancingCheck s with
  | error e =>
      rw [hcheck] at h
      cases h
  | ok result =>
      rw [hcheck] at h
      obtain ⟨rfl, rfl⟩ := Prod.mk.inj (Option.some.inj h)
      constructor
      · rintro ⟨ratio, s', hcheck', hbalances⟩
        obtain rfl := Except.ok.inj (hcheck.symm.trans hcheck')
        exact hbalances
      · exact fun hbalances => ⟨result.1, result.2, hcheck, hbalances⟩

theorem balances_iff_uneven : Balances uneven ∧ ∃ d : Distribution uneven, d.Harmless := by
  have hbalances : Balances uneven :=
    (@balances_iff_result uneven (some 4) [3 / 103324, 1 / 103324] (by decide +kernel)).mpr
      (by decide +kernel)
  exact ⟨hbalances, (balances_iff uneven_indexed (by decide +kernel) rfl (by decide)).mp hbalances⟩

/-- The flow that there is no room for stays, and is not counted. -/
theorem not_balances_crowded : ¬ Balances crowded := by
  rw [@balances_iff_result crowded (some (81 / 7)) [7 / 103324, 0, 1 / 51662] (by decide +kernel)]
  decide +kernel

end OFM.OFMAlgorithm
