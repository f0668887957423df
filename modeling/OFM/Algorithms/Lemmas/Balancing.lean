import Mathlib.Data.List.Perm.Basic
import OFM.Algorithms.Scaling
import OFM.Lib.Computations
import OFM.Lib.Greedy

/-!
# What a migration leaves behind, and what load balancing plans

The network functions that a migration touches are counted anew; all others stay as they are, and no
flow gets lost. The plan of one network function, and how the tuples get their destinations.
-/

namespace OFM.OFMAlgorithm
open OFM.Lib

variable {allowed : Fault → Prop} {α : Type}

/-- Any failure. -/
abbrev AnyFault : Fault → Prop := fun _ => True

theorem ends_get (l : List α) (i : Int) :
    Ends AnyFault (get l i) fun a => ∃ n : Nat, i = n ∧ l[n]? = some a := by
  rcases get_cases l i with ⟨n, a, hi, ha, hget⟩ | hget
  · rw [hget]
    exact ⟨n, hi, ha⟩
  · rw [hget]
    trivial

/-! ## Counted anew -/

/-- The numbers say what the flows say. -/
def VNFinfo.Clean (vnf : VNFinfo) : Prop :=
  vnf.flowNum = vnf.flow.length ∧ vnf.loadPercentage = vnf.load

@[simp] theorem VNFinfo.refresh_flow (vnf : VNFinfo) : vnf.refresh.flow = vnf.flow := rfl

@[simp] theorem VNFinfo.refresh_vnfId (vnf : VNFinfo) : vnf.refresh.vnfId = vnf.vnfId := rfl

theorem VNFinfo.refresh_clean (vnf : VNFinfo) : vnf.refresh.Clean := ⟨rfl, rfl⟩

/-- The lists that `migrateOne` leaves, when the flow is at `f` of `src`. -/
def migrated (vnfs : List VNFinfo) (src f dst : Nat) (moved : Flowinfo) : List VNFinfo :=
  ((vnfs.modify src fun vnf => { vnf with flow := vnf.flow.set f moved }).modify dst fun vnf =>
    { vnf with flow := vnf.flow ++ [moved] }.refresh).modify src fun vnf =>
      { vnf with flow := vnf.flow.eraseIdx f }.refresh

/-- What a migration does when it does not fail. -/
theorem ends_migrateOne (vnfs : List VNFinfo) (tuple : MigrateTuple) :
    Ends AnyFault (migrateOne vnfs tuple) fun vnfs' => ∃ (src dst : Nat) (v w : VNFinfo) (flow : Flowinfo),
      tuple.srcVNFid = src ∧ tuple.dstVNFid = dst ∧ vnfs[src]? = some v ∧ vnfs[dst]? = some w ∧
      v.flow[tuple.flowid]? = some flow ∧
      vnfs' = migrated vnfs src tuple.flowid dst { flow with flowid := w.flowNum } := by
  refine (ends_get _ _).bind ?_
  rintro v ⟨src, hsrc, hv⟩
  refine (ends_get _ _).bind ?_
  rintro flow ⟨f, hf, hflow⟩
  refine (ends_get _ _).bind ?_
  rintro w ⟨dst, hdst, hw⟩
  obtain rfl : tuple.flowid = f := Int.ofNat_inj.mp hf
  refine Ends.pure_iff.mpr ⟨src, dst, v, w, flow, hsrc, hdst, hv, hw, hflow, ?_⟩
  rw [hsrc, hdst, Int.toNat_natCast, Int.toNat_natCast]
  rfl

theorem map_vnfId_modify (vnfs : List VNFinfo) (i : Nat) (f : VNFinfo → VNFinfo)
    (h : ∀ vnf, (f vnf).vnfId = vnf.vnfId) :
    (vnfs.modify i f).map VNFinfo.vnfId = vnfs.map VNFinfo.vnfId := by
  refine List.ext_getElem? fun j => ?_
  rw [List.getElem?_map, List.getElem?_map, List.getElem?_modify]
  cases vnfs[j]? with
  | none => rfl
  | some vnf =>
      split
      · exact congrArg some (h vnf)
      · rfl

theorem migrated_vnfId (vnfs : List VNFinfo) (src f dst : Nat) (moved : Flowinfo) :
    (migrated vnfs src f dst moved).map VNFinfo.vnfId = vnfs.map VNFinfo.vnfId := by
  rw [migrated, map_vnfId_modify, map_vnfId_modify, map_vnfId_modify]
  · exact fun _ => rfl
  · exact fun _ => rfl
  · exact fun _ => rfl

/-- The two network functions of a migration are clean behind it. -/
theorem migrated_clean {vnfs : List VNFinfo} {src f dst : Nat} {moved : Flowinfo} {i : Nat}
    {vnf : VNFinfo} (hi : i = src ∨ i = dst) (h : (migrated vnfs src f dst moved)[i]? = some vnf) :
    vnf.Clean := by
  rw [migrated, List.getElem?_modify] at h
  by_cases hsrc : src = i
  · obtain ⟨v, -, rfl⟩ := Option.map_eq_some_iff.mp h
    rw [if_pos hsrc]
    exact VNFinfo.refresh_clean _
  · obtain ⟨v, hv, rfl⟩ := Option.map_eq_some_iff.mp h
    rw [List.getElem?_modify] at hv
    obtain ⟨v, -, rfl⟩ := Option.map_eq_some_iff.mp hv
    rw [if_neg hsrc, if_pos (hi.resolve_left (Ne.symm hsrc)).symm]
    exact VNFinfo.refresh_clean _

/-- All others are as before. -/
theorem migrated_other {vnfs : List VNFinfo} {src f dst : Nat} {moved : Flowinfo} {i : Nat}
    (hsrc : i ≠ src) (hdst : i ≠ dst) : (migrated vnfs src f dst moved)[i]? = vnfs[i]? := by
  rw [migrated, List.getElem?_modify_ne _ _ hsrc.symm, List.getElem?_modify_ne _ _ hdst.symm,
    List.getElem?_modify_ne _ _ hsrc.symm]

/-- Network functions that are not clean are the source or the destination of a tuple. -/
def CleanBut (plan : List MigrateTuple) (vnfs : List VNFinfo) : Prop :=
  ∀ (i : Nat) (vnf : VNFinfo), vnfs[i]? = some vnf →
    vnf.Clean ∨ ∃ tuple ∈ plan, tuple.srcVNFid = i ∨ tuple.dstVNFid = i

/-- No migration changes an id. -/
theorem ends_migrate_vnfId (plan : List MigrateTuple) (vnfs : List VNFinfo) :
    Ends AnyFault (plan.foldlM migrateOne vnfs) fun vnfs' =>
      vnfs'.map VNFinfo.vnfId = vnfs.map VNFinfo.vnfId := by
  refine Ends.foldlM_const (fun vnfs' : List VNFinfo =>
    vnfs'.map VNFinfo.vnfId = vnfs.map VNFinfo.vnfId) rfl ?_
  rintro tuple - vnfs' hids
  refine (ends_migrateOne vnfs' tuple).mono ?_
  rintro _ ⟨src, dst, v, w, flow, -, -, -, -, -, rfl⟩
  exact (migrated_vnfId ..).trans hids

theorem ends_migrateTotal_vnfId (s : Algorithms) :
    Ends AnyFault (migrateTotal s) fun s' =>
      s'.globalVNFinfo.map VNFinfo.vnfId = s.globalVNFinfo.map VNFinfo.vnfId :=
  (ends_migrate_vnfId _ _).bind fun _ h => h

/-- When the plan has been carried out, all network functions are clean. -/
theorem ends_migrate_clean {plan : List MigrateTuple} {vnfs : List VNFinfo} (h : CleanBut plan vnfs) :
    Ends AnyFault (plan.foldlM migrateOne vnfs) fun vnfs' => ∀ vnf ∈ vnfs', vnf.Clean := by
  refine (Ends.foldlM CleanBut h ?_).mono ?_
  · rintro tuple rest vnfs' - hclean
    refine (ends_migrateOne vnfs' tuple).mono ?_
    rintro _ ⟨src, dst, v, w, flow, hsrc, hdst, -, -, -, rfl⟩ i vnf hi
    by_cases hmem : i = src ∨ i = dst
    · exact Or.inl (migrated_clean hmem hi)
    · obtain ⟨hne, hne'⟩ := not_or.mp hmem
      rw [migrated_other hne hne'] at hi
      rcases hclean i vnf hi with hc | ⟨t, ht, hti⟩
      · exact Or.inl hc
      · rcases List.mem_cons.mp ht with rfl | ht
        · rw [hsrc, hdst, Int.ofNat_inj, Int.ofNat_inj] at hti
          exact absurd (hti.imp Eq.symm Eq.symm) hmem
        · exact Or.inr ⟨t, ht, hti⟩
  · intro vnfs' hclean vnf hvnf
    obtain ⟨i, hi⟩ := List.getElem?_of_mem hvnf
    rcases hclean i vnf hi with hc | ⟨t, ht, -⟩
    · exact hc
    · cases ht

theorem ends_migrateTotal_clean {s : Algorithms} (h : CleanBut s.migrateInfo s.globalVNFinfo) :
    Ends AnyFault (migrateTotal s) fun s' => ∀ vnf ∈ s'.globalVNFinfo, vnf.Clean := by
  refine (ends_migrate_clean fun i vnf hi => ?_).bind fun vnfs hvnfs => hvnfs
  refine (h i vnf hi).imp_right ?_
  rintro ⟨t, ht, hti⟩
  exact ⟨t, List.mem_reverse.mpr ((List.mem_insertionSort _).mpr ht), hti⟩

/-! ## One network function -/

@[simp] theorem markFlow_key (flow : Flowinfo) : (markFlow flow).key = flow.key := by
  rw [markFlow]
  split <;> rfl

/-- Marking and sorting moves flows about, and no more. -/
theorem sorted_keys (flow : List Flowinfo) (le : Flowinfo → Flowinfo → Prop) [DecidableRel le] :
    (((flow.map markFlow).insertionSort le).map Flowinfo.key).Perm (flow.map Flowinfo.key) := by
  refine ((List.perm_insertionSort le _).map _).trans ?_
  rw [List.map_map]
  exact List.Perm.of_eq (List.map_congr_left fun flow _ => markFlow_key flow)

/-- The load that a flow makes. -/
def share (flow : Flowinfo × Nat) : ℚ := flow.1.flowRate / maxLoad

def mayMigrate (flow : Flowinfo × Nat) : Bool := flow.1.migrateFlag

/-- The flows that the loop over them selects. -/
def selected (avgLoad load : ℚ) (flows : List (Flowinfo × Nat)) : List (Flowinfo × Nat) :=
  Greedy.scan mayMigrate share avgLoad load flows

theorem selected_sublist (avgLoad load : ℚ) (flows : List (Flowinfo × Nat)) :
    (selected avgLoad load flows).Sublist flows := Greedy.scan_sublist

theorem flag_of_mem_selected {avgLoad load : ℚ} {flows : List (Flowinfo × Nat)} {flow : Flowinfo × Nat}
    (h : flow ∈ selected avgLoad load flows) : mayMigrate flow := Greedy.may_of_mem_scan h

/-- The loop is a greedy scan, which has the average as its floor. -/
theorem foldl_planFlow_eq (avgLoad : ℚ) (vnfId : Int) (flows : List (Flowinfo × Nat))
    (st : ℚ × List MigrateTuple) :
    flows.foldl (planFlow avgLoad vnfId) st = (Greedy.left share st.1 (selected avgLoad st.1 flows),
      st.2 ++ (selected avgLoad st.1 flows).map fun flow => ⟨vnfId, flow.2, -1⟩) := by
  induction flows generalizing st with
  | nil => simp [selected, Greedy.scan]
  | cons flow flows ih =>
      rw [List.foldl_cons, ih, selected, selected, Greedy.scan, planFlow]
      by_cases hflag : flow.1.migrateFlag
      · rw [if_neg (not_not.mpr hflag)]
        by_cases hlow : st.1 - flow.1.flowRate / maxLoad < avgLoad
        · rw [if_pos hlow, if_neg (by simp [share, hlow])]
        · rw [if_neg hlow, if_pos (by simpa [share, mayMigrate, hflag] using hlow)]
          simp [share]
      · rw [if_pos hflag, if_neg (by simp [mayMigrate, hflag])]

/-- The loop over the flows: what it adds to the plan. -/
theorem foldl_planFlow (avgLoad : ℚ) (vnfId : Int) (flows : List (Flowinfo × Nat))
    (st : ℚ × List MigrateTuple) :
    ∃ new, (flows.foldl (planFlow avgLoad vnfId) st).2 = st.2 ++ new ∧
      (new.map MigrateTuple.flowid).Sublist (flows.map Prod.snd) ∧
      (∀ tuple ∈ new, tuple.srcVNFid = vnfId ∧ tuple.dstVNFid = -1) ∧
      ((flows.foldl (planFlow avgLoad vnfId) st).1 = st.1 ∨ new ≠ []) := by
  rw [foldl_planFlow_eq]
  refine ⟨_, rfl, ?_, ?_, ?_⟩
  · rw [List.map_map]
    exact (selected_sublist ..).map Prod.snd
  · intro tuple ht
    obtain ⟨flow, -, rfl⟩ := List.mem_map.mp ht
    exact ⟨rfl, rfl⟩
  · cases selected avgLoad st.1 flows with
    | nil => simp
    | cons flow taken => simp

/-- What is planned for a network function. -/
structure Planned (vnf : VNFinfo) (result : VNFinfo × List MigrateTuple) : Prop where
  vnfId : result.1.vnfId = vnf.vnfId
  flowNum : result.1.flowNum = vnf.flowNum
  keys : (result.1.flow.map Flowinfo.key).Perm (vnf.flow.map Flowinfo.key)
  load : result.1.loadPercentage = vnf.loadPercentage ∨ result.2 ≠ []
  tuples : ∀ tuple ∈ result.2, tuple.srcVNFid = vnf.vnfId ∧ tuple.dstVNFid = -1
  /-- Each flow at most once. -/
  flowids : (result.2.map MigrateTuple.flowid).Nodup
  flowid_lt : ∀ tuple ∈ result.2, tuple.flowid < vnf.flow.length

theorem planned_planned (avgLoad : ℚ) (vnf : VNFinfo) : Planned vnf (planned avgLoad vnf) := by
  rw [planned]
  split
  · let flow := (vnf.flow.map markFlow).insertionSort fun f₁ f₂ => f₁.flowRate ≤ f₂.flowRate
    have hlength : flow.length = vnf.flow.length := by
      rw [List.length_insertionSort, List.length_map]
    obtain ⟨new, hnew, hsub, hids, hload⟩ :=
      foldl_planFlow avgLoad vnf.vnfId flow.zipIdx.reverse (vnf.loadPercentage, [])
    rw [List.nil_append] at hnew
    have hresult : (planVNF avgLoad vnf).2 = new := hnew
    have hindexes : flow.zipIdx.reverse.map Prod.snd = (List.range flow.length).reverse := by
      rw [List.map_reverse, List.zipIdx_map_snd, List.range_eq_range']
    rw [hindexes] at hsub
    refine ⟨rfl, rfl, sorted_keys _ _, ?_, ?_, ?_, ?_⟩
    · rw [hresult]
      exact hload
    · rw [hresult]
      exact hids
    · rw [hresult]
      exact hsub.nodup (List.nodup_reverse.mpr List.nodup_range)
    · rw [hresult]
      intro tuple ht
      have hmem := hsub.subset (List.mem_map_of_mem ht)
      rwa [List.mem_reverse, List.mem_range, hlength] at hmem
  · exact ⟨rfl, rfl, List.Perm.refl _, Or.inl rfl, List.forall_mem_nil _, List.nodup_nil,
      List.forall_mem_nil _⟩

theorem load_eq_of_keys {vnf vnf' : VNFinfo}
    (h : (vnf'.flow.map Flowinfo.key).Perm (vnf.flow.map Flowinfo.key)) : vnf'.load = vnf.load := by
  have hrate : ∀ flow : List Flowinfo,
      flow.map Flowinfo.flowRate = (flow.map Flowinfo.key).map Prod.fst := by
    intro flow
    rw [List.map_map]
    rfl
  rw [VNFinfo.load, VNFinfo.load, hrate, hrate, (h.map Prod.fst).sum_eq]

theorem length_eq_of_keys {vnf vnf' : VNFinfo}
    (h : (vnf'.flow.map Flowinfo.key).Perm (vnf.flow.map Flowinfo.key)) :
    vnf'.flow.length = vnf.flow.length := by
  have := h.length_eq
  rwa [List.length_map, List.length_map] at this

/-- A network function for which nothing is planned stays clean. -/
theorem Planned.clean {vnf : VNFinfo} {result : VNFinfo × List MigrateTuple} (h : Planned vnf result)
    (hclean : vnf.Clean) : result.1.Clean ∨ result.2 ≠ [] := by
  refine h.load.imp_left fun hload => ⟨?_, ?_⟩
  · rw [h.flowNum, length_eq_of_keys h.keys, hclean.1]
  · rw [hload, load_eq_of_keys h.keys, hclean.2]

/-! ## Destinations -/

/-- The flow a tuple refers to, without a destination. -/
def MigrateTuple.source (tuple : MigrateTuple) : Int × Nat := (tuple.srcVNFid, tuple.flowid)

/-- Tuples keep what they refer to, and their destinations once they have them. -/
def Kept (plan plan' : List MigrateTuple) : Prop :=
  plan'.map MigrateTuple.source = plan.map MigrateTuple.source ∧
    ∀ (k : Nat) (tuple : MigrateTuple), plan[k]? = some tuple → 0 ≤ tuple.dstVNFid →
      plan'[k]? = some tuple

theorem Kept.refl (plan : List MigrateTuple) : Kept plan plan := ⟨rfl, fun _ _ h _ => h⟩

theorem Kept.trans {plan plan' plan'' : List MigrateTuple} (h : Kept plan plan') (h' : Kept plan' plan'') :
    Kept plan plan'' :=
  ⟨h'.1.trans h.1, fun k tuple hk hd => h'.2 k tuple (h.2 k tuple hk hd) hd⟩

theorem Kept.length_eq {plan plan' : List MigrateTuple} (h : Kept plan plan') :
    plan'.length = plan.length := by
  have := congrArg List.length h.1
  rwa [List.length_map, List.length_map] at this

/-- A tuple without a destination gets one. -/
theorem Kept.modify {plan : List MigrateTuple} {f : Nat} {tuple : MigrateTuple} (dst : Int)
    (hf : plan[f]? = some tuple) (hdst : ¬ 0 ≤ tuple.dstVNFid) :
    Kept plan (plan.modify f fun tuple => { tuple with dstVNFid := dst }) := by
  refine ⟨List.ext_getElem? fun k => ?_, fun k t hk hd => ?_⟩
  · rw [List.getElem?_map, List.getElem?_map, List.getElem?_modify]
    cases plan[k]? with
    | none => rfl
    | some t => split <;> rfl
  · rw [List.getElem?_modify_ne _ _ _, hk]
    rintro rfl
    obtain rfl := Option.some.inj (hf.symm.trans hk)
    exact hdst hd

/-- A destination is given once, whatever has been written before. -/
theorem modify_dst_modify_dst (plan : List MigrateTuple) (f : Nat) (dst dst' : Int) :
    ((plan.modify f fun tuple => { tuple with dstVNFid := dst }).modify f
      fun tuple => { tuple with dstVNFid := dst' }) =
      plan.modify f fun tuple => { tuple with dstVNFid := dst' } := by
  rw [List.modify_modify_eq]
  rfl

/-- The same where only the first of the light ones has written before. -/
theorem ite_modify_dst (plan : List MigrateTuple) (d f : Nat) (dst : Int) :
    (if d = 0 then plan.modify f fun tuple => { tuple with dstVNFid := (d : Int) } else plan).modify f
      (fun tuple => { tuple with dstVNFid := dst }) =
      plan.modify f fun tuple => { tuple with dstVNFid := dst } := by
  split
  · exact modify_dst_modify_dst ..
  · rfl

theorem Kept.mem {plan plan' : List MigrateTuple} (h : Kept plan plan') {tuple : MigrateTuple}
    (ht : tuple ∈ plan) (hdst : 0 ≤ tuple.dstVNFid) : tuple ∈ plan' := by
  obtain ⟨k, hk⟩ := List.getElem?_of_mem ht
  exact List.mem_of_getElem? (h.2 k tuple hk hdst)

theorem Kept.mem_source {plan plan' : List MigrateTuple} (h : Kept plan plan') {tuple : MigrateTuple}
    (ht : tuple ∈ plan) : ∃ tuple' ∈ plan', tuple'.source = tuple.source := by
  have hmem := List.mem_map_of_mem (f := MigrateTuple.source) ht
  rw [← h.1] at hmem
  exact List.mem_map.mp hmem

/-- The load of a destination changes only with a tuple that names it. -/
def Assigned (vnfId : Int) (st st' : Assignment) : Prop :=
  Kept st.plan st'.plan ∧
    (st'.dstLoad = st.dstLoad ∨ ∃ tuple ∈ st'.plan, tuple.dstVNFid = vnfId)

theorem ends_assignTuple (vnfs : List VNFinfo) (avgLoad : ℚ) (d : Nat) (vnfId : Int) (st : Assignment)
    (f : Nat) : Ends AnyFault (assignTuple vnfs avgLoad d vnfId st f) (Assigned vnfId st) := by
  refine (ends_get st.plan f).bind ?_
  rintro tuple ⟨n, hn, htuple⟩
  obtain rfl : f = n := Int.ofNat_inj.mp hn
  refine Ends.ite (fun _ => ⟨Kept.refl _, Or.inl rfl⟩) fun hdst => ?_
  refine (Ends.any (flowOf vnfs tuple)).bind fun flow _ => ?_
  refine Ends.ite (fun _ => ?_) fun _ => ?_
  · have hplan := ite_modify_dst st.plan d f vnfId
    refine ⟨?_, Or.inr ⟨{ tuple with dstVNFid := vnfId }, ?_, rfl⟩⟩
    · exact hplan ▸ Kept.modify vnfId htuple hdst
    · refine List.mem_of_getElem? (i := f) ?_
      show (List.modify _ f _)[f]? = _
      rw [hplan, List.getElem?_modify_eq, htuple]
      rfl
  · refine ⟨?_, Or.inl rfl⟩
    show Kept st.plan (if d = 0 then _ else _)
    split
    · exact Kept.modify _ htuple hdst
    · exact Kept.refl _

theorem ends_assign (vnfs : List VNFinfo) (avgLoad : ℚ) (d : Nat) {vnfId : Int} (hid : 0 ≤ vnfId)
    (st : Assignment) (fs : List Nat) :
    Ends AnyFault (fs.foldlM (assignTuple vnfs avgLoad d vnfId) st) (Assigned vnfId st) := by
  refine Ends.foldlM_const (Assigned vnfId st) ⟨Kept.refl _, Or.inl rfl⟩ ?_
  rintro f - st' ⟨hkept, hload⟩
  refine (ends_assignTuple vnfs avgLoad d vnfId st' f).mono ?_
  rintro st'' ⟨hkept', hload'⟩
  refine ⟨hkept.trans hkept', ?_⟩
  rcases hload' with hload' | ht
  · rcases hload with hload | ⟨tuple, ht, hdst⟩
    · exact Or.inl (hload'.trans hload)
    · exact Or.inr ⟨tuple, hkept'.mem ht (hdst ▸ hid), hdst⟩
  · exact Or.inr ht

/-! ## The whole check -/

theorem CleanBut.kept {plan plan' : List MigrateTuple} {vnfs : List VNFinfo} (h : CleanBut plan vnfs)
    (hkept : Kept plan plan') : CleanBut plan' vnfs := by
  intro i vnf hi
  refine (h i vnf hi).imp_right ?_
  rintro ⟨tuple, ht, hsrc | hdst⟩
  · obtain ⟨tuple', ht', hsource⟩ := hkept.mem_source ht
    exact ⟨tuple', ht', Or.inl ((congrArg Prod.fst hsource).trans hsrc)⟩
  · exact ⟨tuple, hkept.mem ht (hdst ▸ Int.natCast_nonneg i), Or.inr hdst⟩

/-- A network function has its index as its id. -/
def Indexed (vnfs : List VNFinfo) : Prop :=
  ∀ (i : Nat) (vnf : VNFinfo), vnfs[i]? = some vnf → vnf.vnfId = i

theorem indexed_iff (vnfs : List VNFinfo) :
    Indexed vnfs ↔ ∀ (i : Nat) (vnfId : Int), (vnfs.map VNFinfo.vnfId)[i]? = some vnfId → vnfId = i := by
  simp only [List.getElem?_map, Option.map_eq_some_iff, forall_exists_index, and_imp]
  exact ⟨fun h i vnfId vnf hi he => he ▸ h i vnf hi, fun h i vnf hi => h i _ vnf hi rfl⟩

theorem Indexed.congr {vnfs vnfs' : List VNFinfo} (h : Indexed vnfs)
    (he : vnfs'.map VNFinfo.vnfId = vnfs.map VNFinfo.vnfId) : Indexed vnfs' := by
  rw [indexed_iff] at h ⊢
  rwa [he]

theorem ends_assignVNF (avgLoad : ℚ) {vnfs : List VNFinfo} {plan : List MigrateTuple} {last : Nat}
    (hindexed : Indexed vnfs) (hclean : CleanBut plan vnfs) (light : Nat × Nat) :
    Ends AnyFault (assignVNF avgLoad (vnfs, plan, last) light) fun st =>
      st.1.map VNFinfo.vnfId = vnfs.map VNFinfo.vnfId ∧ CleanBut st.2.1 st.1 := by
  refine (ends_get vnfs light.1).bind ?_
  rintro vnf ⟨n, hn, hvnf⟩
  obtain rfl : light.1 = n := Int.ofNat_inj.mp hn
  have hid : vnf.vnfId = light.1 := hindexed _ _ hvnf
  refine (ends_assign vnfs avgLoad light.2 (hid ▸ Int.natCast_nonneg _) _ _).bind ?_
  rintro st ⟨hkept, hload⟩
  refine Ends.pure_iff.mpr ⟨map_vnfId_modify _ _ _ fun _ => rfl, fun i vnf' hi => ?_⟩
  dsimp only at hi
  by_cases hne : light.1 = i
  · subst hne
    rw [List.getElem?_modify_eq, hvnf] at hi
    obtain rfl := Option.some.inj hi
    rcases hload with hload | ⟨tuple, ht, hdst⟩
    · refine (hclean.kept hkept _ _ hvnf).imp_left ?_
      rintro ⟨hnum, hload'⟩
      exact ⟨hnum, hload.trans hload'⟩
    · exact Or.inr ⟨tuple, ht, Or.inr (hdst.trans hid)⟩
  · rw [List.getElem?_modify_ne _ _ hne] at hi
    exact hclean.kept hkept i vnf' hi

theorem ends_sortByFlowRate (vnfs : List VNFinfo) (plan : List MigrateTuple) :
    Ends AnyFault (sortByFlowRate vnfs plan) fun plan' => plan'.Perm plan := by
  refine Ends.ite (fun _ => List.Perm.refl _) fun hlength => ?_
  clear hlength
  refine Ends.bind (P := fun rated : List (ℚ × MigrateTuple) => rated.map Prod.snd = plan) ?_ ?_
  · refine (Ends.mapM (R := fun tuple rated => rated.2 = tuple) fun tuple _ => ?_).mono ?_
    · exact Ends.bind (Ends.any (flowOf vnfs tuple)) fun flow _ => rfl
    · intro rated h
      induction h with
      | nil => rfl
      | cons hab _ ih => exact congrArg₂ List.cons hab ih
  · rintro rated rfl
    exact (List.perm_insertionSort _ rated).map _

/-- The representation of `GlobalVNFinfo`. -/
def Algorithms.Represented (s : Algorithms) : Prop :=
  ∀ (i : Nat) (vnf : VNFinfo), s.globalVNFinfo[i]? = some vnf → vnf.vnfId = i ∧ vnf.Clean

theorem Algorithms.Represented.indexed {s : Algorithms} (h : s.Represented) : Indexed s.globalVNFinfo :=
  fun i vnf hi => (h i vnf hi).1

theorem planned_vnfId (avgLoad : ℚ) (vnfs : List VNFinfo) :
    (vnfs.map fun vnf => (planned avgLoad vnf).1).map VNFinfo.vnfId = vnfs.map VNFinfo.vnfId := by
  rw [List.map_map]
  exact List.map_congr_left fun vnf _ => (planned_planned avgLoad vnf).vnfId

/-- Behind the planning, network functions that are not clean are sources. -/
theorem planned_cleanBut {s : Algorithms} (h : s.Represented) (avgLoad : ℚ) (plan : List MigrateTuple) :
    CleanBut (plan ++ s.globalVNFinfo.flatMap fun vnf => (planned avgLoad vnf).2)
      (s.globalVNFinfo.map fun vnf => (planned avgLoad vnf).1) := by
  intro i vnf hi
  rw [List.getElem?_map] at hi
  obtain ⟨vnf, hvnf, rfl⟩ := Option.map_eq_some_iff.mp hi
  have hplanned := planned_planned avgLoad vnf
  obtain ⟨hid, hclean⟩ := h i vnf hvnf
  refine (hplanned.clean hclean).imp_right fun hne => ?_
  obtain ⟨tuple, ht⟩ := List.exists_mem_of_ne_nil _ hne
  refine ⟨tuple, List.mem_append_right _ (List.mem_flatMap.mpr ⟨vnf, List.mem_of_getElem? hvnf, ht⟩), ?_⟩
  exact Or.inl ((hplanned.tuples tuple ht).1.trans hid)

/-- Load balancing keeps the representation when it throws no exception. -/
theorem ends_loadBalancingCheck {s : Algorithms} (h : s.Represented) :
    Ends AnyFault (loadBalancingCheck s) fun result => result.2.Represented := by
  have hindexed : Indexed (s.globalVNFinfo.map fun vnf => (planned (averageLoad s.globalVNFinfo) vnf).1) :=
    h.indexed.congr (planned_vnfId _ _)
  refine (ends_sortByFlowRate _ _).bind fun plan hplan => ?_
  have hclean : CleanBut plan
      (s.globalVNFinfo.map fun vnf => (planned (averageLoad s.globalVNFinfo) vnf).1) := by
    intro i vnf hi
    refine (planned_cleanBut h _ s.migrateInfo i vnf hi).imp_right ?_
    rintro ⟨tuple, ht, hti⟩
    exact ⟨tuple, hplan.mem_iff.mpr ht, hti⟩
  refine Ends.bind (Ends.foldlM_const (fun st => Indexed st.1 ∧ CleanBut st.2.1 st.1)
    ⟨hindexed, hclean⟩ ?_) ?_
  · rintro light - ⟨vnfs, plan, last⟩ ⟨hindexed, hclean⟩
    refine (ends_assignVNF _ hindexed hclean light).mono ?_
    rintro st ⟨hids, hclean'⟩
    exact ⟨hindexed.congr hids, hclean'⟩
  · rintro ⟨vnfs, plan, last⟩ ⟨hindexed, hclean⟩
    refine ((ends_migrateTotal_vnfId _).and (ends_migrateTotal_clean
      (s := { s with migrateInfo := plan, globalVNFinfo := vnfs }) hclean)).bind ?_
    rintro s' ⟨hids, hclean'⟩
    exact fun i vnf hi => ⟨hindexed.congr hids i vnf hi, hclean' vnf (List.mem_of_getElem? hi)⟩

end OFM.OFMAlgorithm
