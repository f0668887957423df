import OFM.Algorithms.Lemmas.Picks
import OFM.Algorithms.Lemmas.Plan
import OFM.Lib.Machine

/-!
# Conservation of flows

As long as every call finds a plan that fits, no list is accessed out of its range and the flows stay those
of the start. The plan is never cleared: what is left of it need not fit any more. `MigrateTotal` moves exactly the flows
that the plan names, each to its destination, whatever network functions are sources of some tuples and destinations
of others.
-/

namespace OFM.OFMAlgorithm
open OFM.Lib

variable {s : Algorithms} {vnf : VNFinfo}

/-! ## A new network function -/

theorem size_append_le (vnfs vnfs' : List VNFinfo) (i : Int) : size vnfs i ≤ size (vnfs ++ vnfs') i := by
  rcases get_cases vnfs i with ⟨n, vnf, rfl, hvnf, -⟩ | hget
  · have happ : (vnfs ++ vnfs')[n]? = some vnf := by
      rw [List.getElem?_append_left (List.getElem?_eq_some_iff.mp hvnf).1]
      exact hvnf
    rw [size_eq hvnf, size_eq happ]
  · rw [size, hget]
    exact Nat.zero_le _

theorem Room.mono {size' size'' : Int → Nat} {sources : List (Int × Nat)} (h : Room size' sources)
    (hle : ∀ i, size' i ≤ size'' i) : Room size'' sources :=
  fun p hp => (h p hp).trans (hle p.1)

@[simp] theorem newVNFInstance_vnfs (s : Algorithms) :
    (newVNFInstance s).globalVNFinfo = s.globalVNFinfo ++ [VNFinfo.new] := rfl

@[simp] theorem newVNFInstance_plan (s : Algorithms) : (newVNFInstance s).migrateInfo = s.migrateInfo := rfl

theorem allFlows_newVNFInstance (s : Algorithms) :
    allFlows (newVNFInstance s).globalVNFinfo = allFlows s.globalVNFinfo := by
  simp [allFlows, VNFinfo.flows, VNFinfo.new]

theorem Algorithms.Valid.newVNFInstance (h : s.Valid) : (newVNFInstance s).Valid := by
  have hlen : (s.globalVNFinfo ++ [VNFinfo.new]).length = s.globalVNFinfo.length + 1 := by simp
  constructor
  · intro vnfId hid
    rw [newVNFInstance_vnfs, List.map_append, List.mem_append] at hid
    rw [newVNFInstance_vnfs, hlen]
    rcases hid with hid | hid
    · have hlt := h.ids vnfId hid
      omega
    · obtain rfl : vnfId = 0 := by simpa [VNFinfo.new] using hid
      omega
  · intro tuple ht
    rw [newVNFInstance_vnfs, hlen]
    have hlt := h.dst tuple ht
    omega

/-! ## Flows for it -/

/-- Nothing of the first network function is in the plan that is there, for which there is room. -/
structure PlanFits (s : Algorithms) : Prop where
  room : s.HasRoom
  other : ∀ tuple ∈ s.migrateInfo, tuple.srcVNFid ≠ 0

theorem planAll_source (s : Algorithms) (picks : List Nat) :
    (planAll s 0 picks).migrateInfo.map MigrateTuple.source =
      s.migrateInfo.map MigrateTuple.source ++ picks.map fun i => ((0 : Int), i) := by
  rw [planAll, List.map_append, List.map_map]
  rfl

/-- There is room for different flows of the first network function. -/
theorem hasRoom_planAll {picks : List Nat} (hfits : PlanFits s) (hvnf : s.globalVNFinfo[0]? = some vnf)
    (hpicks : PicksOf vnf.flow picks) : (planAll (newVNFInstance s) 0 picks).HasRoom := by
  rw [Algorithms.HasRoom, planAll_source]
  refine Room.mono ?_ (size_append_le s.globalVNFinfo [VNFinfo.new])
  refine Room.append hfits.room (room_of_nodup ?_ fun p hp => ?_) fun p hp q hq he => ?_
  · exact hpicks.1.map fun i j hij => (Prod.mk.inj hij).2
  · obtain ⟨i, hi, rfl⟩ := List.mem_map.mp hp
    have hsize : size s.globalVNFinfo 0 = vnf.flow.length := size_eq hvnf
    rw [hsize]
    exact hpicks.2 i hi
  · obtain ⟨tuple, ht, rfl⟩ := List.mem_map.mp hp
    obtain ⟨i, -, rfl⟩ := List.mem_map.mp hq
    exact hfits.other tuple ht he

theorem valid_planAll (hvalid : s.Valid) (picks : List Nat) : (planAll (newVNFInstance s) 0 picks).Valid := by
  have hnew := hvalid.newVNFInstance
  refine hnew.of_plan rfl (fun tuple ht => ?_) _
  rcases List.mem_append.mp ht with ht | ht
  · exact hnew.dst tuple ht
  · obtain ⟨i, -, rfl⟩ := List.mem_map.mp ht
    simp

/-- What a call leaves behind. -/
def Keeps (s s' : Algorithms) : Prop := allFlows s'.globalVNFinfo = allFlows s.globalVNFinfo ∧ s'.Valid

theorem keeps_newVNFInstance (hvalid : s.Valid) : Keeps s (newVNFInstance s) :=
  ⟨allFlows_newVNFInstance s, hvalid.newVNFInstance⟩

theorem ends_migrate_planAll {picks : List Nat} (hvalid : s.Valid) (hfits : PlanFits s)
    (hvnf : s.globalVNFinfo[0]? = some vnf) (hpicks : PicksOf vnf.flow picks) :
    Ends InRange (migrateTotal (planAll (newVNFInstance s) 0 picks)) (Keeps s) := by
  refine (ends_migrateTotal_valid (valid_planAll hvalid picks) (hasRoom_planAll hfits hvnf hpicks)).mono ?_
  rintro s' ⟨hflows, hvalid'⟩
  exact ⟨hflows.trans (allFlows_newVNFInstance s), hvalid'⟩

/-- The costs are those of flows of one list, whatever list the plan refers to. -/
theorem ends_planCost {picks : List Nat} (hplan : ∀ tuple ∈ s.migrateInfo, tuple.flowid < vnf.flow.length)
    (hpicks : PicksOf vnf.flow picks) :
    Ends InRange (planCost vnf (planAll (newVNFInstance s) 0 picks).migrateInfo) fun _ => True := by
  apply ends_costOf
  intro i hi
  obtain ⟨tuple, ht, rfl⟩ := List.mem_map.mp hi
  rcases List.mem_append.mp ht with ht | ht
  · exact hplan tuple ht
  · obtain ⟨i, hpick, rfl⟩ := List.mem_map.mp ht
    exact hpicks.2 i hpick

/-! ## The ways to scale out -/

/-- What the mode takes for granted: that the number of flows is not too large; that no product is as small
as the least one; that the load is that of the flows but for less than is safe. The other two look the whole plan
up in one list. -/
def ModeFits (s : Algorithms) (vnf : VNFinfo) (mode : Int) : Prop :=
  (mode = scaleOutModeBest → vnf.flowNum ≤ vnf.flow.length) ∧
  (mode = scaleOutModeGreedy → (∀ f ∈ vnf.flow, leastProduct < f.product) ∧
    ∀ tuple ∈ s.migrateInfo, tuple.flowid < vnf.flow.length) ∧
  (mode = scaleOutModeRandom → vnf.loadPercentage - vnf.load < thSafe ∧
    ∀ tuple ∈ s.migrateInfo, tuple.flowid < vnf.flow.length)

/-- What a call finds fits; for scaling out where the first network function is too full and the mode is one of
the three. -/
def Check.Fits (s : Algorithms) : Check → Prop
  | .loadBalancing => BalancingFits s
  | .scaleOut mode _ => ∀ vnf ∈ s.globalVNFinfo.head?, thHigh < vnf.loadPercentage →
      mode = scaleOutModeBest ∨ mode = scaleOutModeGreedy ∨ mode = scaleOutModeRandom →
      PlanFits s ∧ ModeFits s vnf mode

theorem get_newVNFInstance (hvnf : s.globalVNFinfo[0]? = some vnf) :
    get (newVNFInstance s).globalVNFinfo 0 = .ok vnf := by
  apply get_eq (n := 0)
  rw [newVNFInstance_vnfs, List.getElem?_append_left (List.getElem?_eq_some_iff.mp hvnf).1]
  exact hvnf

section ScaleOut

variable (hvalid : s.Valid) (hfits : PlanFits s) (hvnf : s.globalVNFinfo[0]? = some vnf)

include hvalid hfits hvnf

theorem ends_scaleOutBest (hnum : vnf.flowNum ≤ vnf.flow.length) :
    Ends InRange (scaleOutBest (newVNFInstance s) 0) fun result => Keeps s result.2 := by
  rw [scaleOutBest, get_newVNFInstance hvnf]
  refine (ends_best hnum).bind fun best hbest => ?_
  exact (ends_migrate_planAll hvalid hfits hvnf hbest).bind fun _ h => h

theorem ends_scaleOut (fuel : Nat) (hproduct : ∀ f ∈ vnf.flow, leastProduct < f.product)
    (hplan : ∀ tuple ∈ s.migrateInfo, tuple.flowid < vnf.flow.length) :
    Ends InRange (scaleOut fuel (newVNFInstance s) 0) fun result => Keeps s result.2 := by
  rw [scaleOut, get_newVNFInstance hvnf]
  refine (ends_greedyPicks fuel hproduct).bind fun st hpicks => ?_
  refine (ends_planCost hplan hpicks).bind fun cost _ => ?_
  exact (ends_migrate_planAll hvalid hfits hvnf hpicks).bind fun _ h => h

theorem ends_scaleOutRandom (draws : Draws) (hload : vnf.loadPercentage - vnf.load < thSafe)
    (hplan : ∀ tuple ∈ s.migrateInfo, tuple.flowid < vnf.flow.length) :
    Ends InRange (scaleOutRandom draws.value (newVNFInstance s) 0) fun result => Keeps s result.2 := by
  rw [scaleOutRandom, get_newVNFInstance hvnf]
  refine (ends_randomPicks draws.inRange hload).bind fun st hpicks => ?_
  refine (ends_planCost hplan hpicks).bind fun cost _ => ?_
  exact (ends_migrate_planAll hvalid hfits hvnf hpicks).bind fun _ h => h

end ScaleOut

theorem ends_scaleOutCheck_room (hvalid : s.Valid) (fuel : Nat) {mode : Int} {draws : Draws}
    (hfits : (Check.scaleOut mode draws).Fits s) :
    Ends InRange (scaleOutCheck fuel draws mode s) fun result => Keeps s result.2 := by
  have hsame : Keeps s s := ⟨rfl, hvalid⟩
  rw [scaleOutCheck]
  split
  · exact hsame
  · rename_i vnf vnfs hcons
    have hvnf : s.globalVNFinfo[0]? = some vnf := by
      rw [hcons]
      rfl
    have hhead : vnf ∈ s.globalVNFinfo.head? := by
      rw [hcons]
      rfl
    refine Ends.ite (fun hhigh => ?_) fun _ => hsame
    have hmodes := hfits vnf hhead hhigh
    refine Ends.ite (fun hmode => ?_) fun _ => ?_
    · obtain ⟨hplan, -, hgreedy, -⟩ := hmodes (Or.inr (Or.inl hmode))
      exact ends_scaleOut hvalid hplan hvnf fuel (hgreedy hmode).1 (hgreedy hmode).2
    refine Ends.ite (fun hmode => ?_) fun _ => ?_
    · obtain ⟨hplan, hbest, -, -⟩ := hmodes (Or.inl hmode)
      exact ends_scaleOutBest hvalid hplan hvnf (hbest hmode)
    refine Ends.ite (fun hmode => ?_) fun _ => ?_
    · obtain ⟨hplan, -, -, hrandom⟩ := hmodes (Or.inr (Or.inr hmode))
      exact ends_scaleOutRandom hvalid hplan hvnf draws (hrandom hmode).1 (hrandom hmode).2
    · exact keeps_newVNFInstance hvalid

/-! ## Runs -/

/-- A check that returns. -/
def Check.step (fuel : Nat) (s : Algorithms) (c : Check) : Option Algorithms := (c.exec fuel s).toOption

theorem Check.Fits.ends {c : Check} (hfits : c.Fits s) (hvalid : s.Valid) (fuel : Nat) :
    Ends InRange (c.exec fuel s) (Keeps s) := by
  cases c with
  | loadBalancing => exact (ends_loadBalancingCheck_room hvalid hfits).bind fun _ h => h
  | scaleOut mode draws => exact (ends_scaleOutCheck_room hvalid fuel hfits).bind fun _ h => h

theorem Check.exec_of_step {fuel : Nat} {s s' : Algorithms} {c : Check} (h : Check.step fuel s c = some s') :
    c.exec fuel s = .ok s' := by
  rw [Check.step] at h
  cases he : c.exec fuel s with
  | ok t =>
      rw [he] at h
      exact congrArg Except.ok (Option.some.inj h)
  | error e =>
      rw [he] at h
      cases h

/-- No call of the run accesses a list out of its range, and after every call that returns the flows are those
of the start. -/
def Conserves (fuel : Nat) (s : Algorithms) (checks : List Check) : Prop :=
  Machine.Along (Check.step fuel)
    (fun t c => Ends InRange (c.exec fuel t) fun t' => allFlows t'.globalVNFinfo = allFlows s.globalVNFinfo) s checks

/-- Where every call finds what fits, no access is out of range and no flow is lost or doubled. -/
theorem conserves_of_fits (fuel : Nat) {vnfs : List VNFinfo} (hindexed : Indexed vnfs) (vnfNum : Int)
    {checks : List Check}
    (hfits : Machine.Along (Check.step fuel) (fun s c => c.Fits s) ⟨[], vnfs, vnfNum⟩ checks) :
    Conserves fuel ⟨[], vnfs, vnfNum⟩ checks := by
  intro pre c suf t he ht
  have hpre : Machine.Along (Check.step fuel) (fun s c => c.Fits s) ⟨[], vnfs, vnfNum⟩ pre := by
    intro pre' c' suf' t' he' ht'
    exact hfits pre' c' (suf' ++ c :: suf) t' (by rw [he, he', List.append_assoc, List.cons_append]) ht'
  have hkeeps : Keeps ⟨[], vnfs, vnfNum⟩ t := by
    refine Machine.run_invariant (I := Keeps _) ⟨rfl, valid_of_indexed hindexed rfl⟩ ?_ hpre ht
    rintro t c t' ⟨hflows, hvalid⟩ hfits hstep
    obtain ⟨hflows', hvalid'⟩ := (hfits.ends hvalid fuel).of_eq (Check.exec_of_step hstep)
    exact ⟨hflows'.trans hflows, hvalid'⟩
  refine ((hfits pre c suf t he ht).ends hkeeps.2 fuel).mono fun t' h => ?_
  exact h.1.trans hkeeps.1

/-- Three flows on the first of two network functions. -/
def threeFlows : List VNFinfo :=
  [{ VNFinfo.new with flow := [⟨10, 100, 0, false⟩, ⟨10, 100, 1, false⟩, ⟨10, 100, 2, false⟩] }.refresh,
    { VNFinfo.new with vnfId := 1 }]

theorem threeFlows_indexed : Indexed threeFlows := by
  intro i vnf hi
  match i with
  | 0 | 1 =>
      obtain rfl := Option.some.inj hi
      rfl
  | i + 2 => cases hi

/-- One check of the load. -/
theorem conserves_of_fits_threeFlows : Conserves 0 ⟨[], threeFlows, 2⟩ [.loadBalancing] :=
  conserves_of_fits 0 threeFlows_indexed 2
    (Machine.along_cons.mpr ⟨balancingFits_of_nil threeFlows_indexed rfl, fun _ _ => Machine.along_nil⟩)

/-- The second check carries out what the first one has left in the plan. -/
theorem not_conserves_twice : Indexed threeFlows ∧
    ¬ Conserves 0 ⟨[], threeFlows, 2⟩ [.loadBalancing, .loadBalancing] := by
  refine ⟨threeFlows_indexed, fun h => ?_⟩
  have hfault : ((Check.exec 0 ⟨[], threeFlows, 2⟩ .loadBalancing >>= fun t =>
      Check.exec 0 t .loadBalancing).map fun _ => ()) = .error .indexOutOfBounds := by
    decide +kernel
  cases hfirst : Check.exec 0 ⟨[], threeFlows, 2⟩ .loadBalancing with
  | error e =>
      have hends : Ends InRange (Check.exec 0 _ .loadBalancing) _ := h [] .loadBalancing _ _ rfl rfl
      rw [hfirst] at hends hfault
      exact hends (Except.error.inj hfault)
  | ok t =>
      have hrun : Machine.run (Check.step 0) ⟨[], threeFlows, 2⟩ [.loadBalancing] = some t := by
        simp [Check.step, hfirst, Except.toOption]
      have hends : Ends InRange (Check.exec 0 t .loadBalancing) _ := h [.loadBalancing] .loadBalancing [] t rfl hrun
      rw [hfirst] at hfault
      change ((Check.exec 0 t .loadBalancing).map fun _ => ()) = _ at hfault
      cases hsecond : Check.exec 0 t .loadBalancing with
      | error e =>
          rw [hsecond] at hends hfault
          exact hends (Except.error.inj hfault)
      | ok t' =>
          rw [hsecond] at hfault
          cases hfault

/-! ## A plan is carried out as it is -/

/-- The flows that are not named stay in their order; behind them are those that have come. No flow is lost or
doubled. -/
structure Executed (s s' : Algorithms) : Prop where
  length : s'.globalVNFinfo.length = s.globalVNFinfo.length
  plan : s'.migrateInfo.Perm s.migrateInfo
  flows : ∀ (i : Nat) (vnf : VNFinfo), s.globalVNFinfo[i]? = some vnf →
    ∃ vnf' arrived, s'.globalVNFinfo[i]? = some vnf' ∧
      vnf'.flow = staying s.migrateInfo i vnf.flow ++ arrived ∧
      (arrived.map Flowinfo.unnumbered).Perm
        ((arriving s.globalVNFinfo s.migrateInfo i).map Flowinfo.unnumbered)
  all : allFlows s'.globalVNFinfo = allFlows s.globalVNFinfo

theorem migrateTotal_executed {s : Algorithms} (hdistinct : (s.migrateInfo.map MigrateTuple.source).Nodup)
    (hthere : ∀ tuple ∈ s.migrateInfo, tuple.There s.globalVNFinfo) :
    ∃ s', migrateTotal s = .ok s' ∧ Executed s s' := by
  have hends := (ends_migrateTotal_flows s).and_any (ends_migrateTotal_carried hdistinct hthere)
  obtain ⟨s', hs', hflows, hperm, hcarried⟩ := ok_of_never hends
  have hreverse := (List.reverse_perm s'.migrateInfo).trans hperm
  refine ⟨s', hs', hcarried.length, hperm, fun i vnf hi => ?_, hflows⟩
  obtain ⟨vnf', arrived, hvnf', hflow, harrived⟩ := hcarried.flows i vnf hi
  refine ⟨vnf', arrived, hvnf', ?_, ?_⟩
  · rw [hflow, staying_perm hreverse]
  · rw [harrived]
    exact (hreverse.filterMap _).map _

/-- Two network functions that exchange flows. -/
def exchange : Algorithms where
  migrateInfo := [⟨0, 0, 1⟩, ⟨1, 0, 0⟩, ⟨0, 2, 1⟩]
  globalVNFinfo :=
    [{ VNFinfo.new with flow := [⟨1, 100, 0, false⟩, ⟨2, 100, 1, false⟩, ⟨3, 100, 2, false⟩] }.refresh,
      { VNFinfo.new with vnfId := 1, flow := [⟨4, 100, 0, false⟩] }.refresh]
  vnfNum := 2

theorem migrateTotal_executed_exchange : ∃ s', migrateTotal exchange = .ok s' ∧ Executed exchange s' := by
  refine migrateTotal_executed (by decide) fun tuple ht => ?_
  have ht : tuple ∈ [MigrateTuple.mk 0 0 1, ⟨1, 0, 0⟩, ⟨0, 2, 1⟩] := ht
  simp only [List.mem_cons, List.not_mem_nil, or_false] at ht
  rcases ht with rfl | rfl | rfl
  · exact ⟨⟨_, rfl⟩, ⟨_, rfl⟩⟩
  · exact ⟨⟨_, rfl⟩, ⟨_, rfl⟩⟩
  · exact ⟨⟨_, rfl⟩, ⟨_, rfl⟩⟩

/-- Where their flows are afterwards. -/
example : (migrateTotal exchange).map (fun s => s.globalVNFinfo.map fun vnf => vnf.flow.map Flowinfo.flowRate) =
    .ok [[2, 4], [3, 1]] := by decide

end OFM.OFMAlgorithm
