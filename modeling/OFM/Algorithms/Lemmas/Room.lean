import Mathlib.Algebra.Order.Group.Multiset
import Mathlib.Data.List.Nodup
import Mathlib.Data.List.Perm.Subperm
import OFM.Algorithms.Lemmas.Balancing

/-!
# Room for a plan

A plan is carried out from the largest number of a flow to the smallest. It stays within the lists if
behind the flow of every tuple there is room for the tuples that are carried out before it. The flows are
conserved in any case.
-/

namespace OFM.OFMAlgorithm
open OFM.Lib

/-- No list is accessed out of its range. -/
abbrev InRange : Fault → Prop := fun e => e ≠ .indexOutOfBounds

/-! ## Conservation -/

/-- The sum over a list, when one element changes. -/
theorem sum_map_modify {α M : Type} [AddCommMonoid M] (f : α → M) (g : α → α) {l : List α} {i : Nat} {a : α}
    (h : l[i]? = some a) : ((l.modify i g).map f).sum + f a = (l.map f).sum + f (g a) := by
  induction l generalizing i with
  | nil => cases h
  | cons b l ih =>
      cases i with
      | zero =>
          obtain rfl := Option.some.inj h
          rw [List.modify_zero_cons, List.map_cons, List.map_cons, List.sum_cons, List.sum_cons]
          exact add_right_comm .. |>.trans (by rw [add_comm (f (g b)), add_right_comm])
      | succ i =>
          rw [List.modify_succ_cons, List.map_cons, List.map_cons, List.sum_cons, List.sum_cons,
            add_assoc, add_assoc, ih h]

def VNFinfo.flows (vnf : VNFinfo) : Multiset (ℚ × ℚ) := (vnf.flow.map Flowinfo.key : Multiset (ℚ × ℚ))

/-- All flows of all network functions. -/
def allFlows (vnfs : List VNFinfo) : Multiset (ℚ × ℚ) := (vnfs.map VNFinfo.flows).sum

theorem allFlows_modify_same {vnfs : List VNFinfo} {i : Nat} {g : VNFinfo → VNFinfo} {vnf : VNFinfo}
    (hi : vnfs[i]? = some vnf) (h : (g vnf).flows = vnf.flows) : allFlows (vnfs.modify i g) = allFlows vnfs := by
  have hsum := sum_map_modify VNFinfo.flows g hi
  rw [h] at hsum
  exact add_right_cancel hsum

/-- A flow that is removed where it was and added somewhere is neither lost nor doubled. -/
theorem allFlows_migrated {vnfs : List VNFinfo} {src f dst : Nat} {v w : VNFinfo}
    {flow : Flowinfo} (moved : Flowinfo) (hv : vnfs[src]? = some v) (hw : vnfs[dst]? = some w)
    (hflow : v.flow[f]? = some flow) (hkey : moved.key = flow.key) :
    allFlows (migrated vnfs src f dst moved) = allFlows vnfs := by
  have hf : f < v.flow.length := (List.getElem?_eq_some_iff.mp hflow).1
  -- The flow is renumbered.
  set vnfs₁ := vnfs.modify src fun vnf => { vnf with flow := vnf.flow.set f moved } with hvnfs₁
  have h₁ : allFlows vnfs₁ = allFlows vnfs := by
    refine allFlows_modify_same hv (congrArg Multiset.ofList ?_)
    refine List.ext_getElem? fun k => ?_
    rw [List.getElem?_map, List.getElem?_map, List.getElem?_set]
    split
    · rename_i hk
      rw [← hk, hflow]
      exact congrArg some hkey
    · rfl
  -- It is added to the destination.
  obtain ⟨w₁, hw₁⟩ : ∃ w₁, vnfs₁[dst]? = some w₁ := by
    rw [hvnfs₁, List.getElem?_modify, hw]
    exact ⟨_, rfl⟩
  set vnfs₂ := vnfs₁.modify dst fun vnf => { vnf with flow := vnf.flow ++ [moved] }.refresh with hvnfs₂
  have h₂ : allFlows vnfs₂ = allFlows vnfs₁ + {moved.key} := by
    have hsum := sum_map_modify VNFinfo.flows
      (fun vnf : VNFinfo => ({ vnf with flow := vnf.flow ++ [moved] } : VNFinfo).refresh) hw₁
    have hadd : VNFinfo.flows ({ w₁ with flow := w₁.flow ++ [moved] } : VNFinfo).refresh =
        w₁.flows + {moved.key} := by
      rw [VNFinfo.flows, VNFinfo.refresh_flow, List.map_append]
      rfl
    rw [hadd, ← add_assoc, add_right_comm] at hsum
    exact add_right_cancel hsum
  -- It is removed from its source.
  obtain ⟨v₂, hv₂, hmoved⟩ : ∃ v₂, vnfs₂[src]? = some v₂ ∧ v₂.flow[f]? = some moved := by
    have hset : (v.flow.set f moved)[f]? = some moved := by
      rw [List.getElem?_set_self hf]
    by_cases hsd : dst = src
    · refine ⟨_, by rw [hvnfs₂, hsd, List.getElem?_modify_eq, hvnfs₁, List.getElem?_modify_eq, hv]; rfl, ?_⟩
      rw [VNFinfo.refresh_flow, List.getElem?_append_left (by rwa [List.length_set])]
      exact hset
    · refine ⟨_, by rw [hvnfs₂, List.getElem?_modify_ne _ _ hsd, hvnfs₁, List.getElem?_modify_eq, hv]; rfl,
        hset⟩
  have h₃ := sum_map_modify VNFinfo.flows
    (fun vnf : VNFinfo => ({ vnf with flow := vnf.flow.eraseIdx f } : VNFinfo).refresh) hv₂
  have herase : VNFinfo.flows ({ v₂ with flow := v₂.flow.eraseIdx f } : VNFinfo).refresh + {moved.key} =
      v₂.flows := by
    have hperm := (List.getElem_cons_eraseIdx_perm (List.getElem?_eq_some_iff.mp hmoved).1)
    rw [(List.getElem?_eq_some_iff.mp hmoved).2] at hperm
    have hmap := Multiset.coe_eq_coe.mpr (hperm.map Flowinfo.key)
    rw [List.map_cons, ← Multiset.cons_coe, ← Multiset.singleton_add, add_comm] at hmap
    exact hmap
  have hfinal : allFlows (migrated vnfs src f dst moved) + v₂.flows + {moved.key} =
      allFlows vnfs + v₂.flows + {moved.key} := by
    calc allFlows (migrated vnfs src f dst moved) + v₂.flows + {moved.key}
        = allFlows vnfs₂ + VNFinfo.flows ({ v₂ with flow := v₂.flow.eraseIdx f } : VNFinfo).refresh +
            {moved.key} := congrArg (· + _) h₃
      _ = allFlows vnfs₂ + v₂.flows := by rw [add_assoc, herase]
      _ = allFlows vnfs + v₂.flows + {moved.key} := by rw [h₂, h₁, add_right_comm]
  exact add_right_cancel (add_right_cancel hfinal)

theorem ends_migrateTotal_flows (s : Algorithms) :
    Ends AnyFault (migrateTotal s) fun s' => allFlows s'.globalVNFinfo = allFlows s.globalVNFinfo := by
  refine Ends.bind (Ends.foldlM_const (fun vnfs => allFlows vnfs = allFlows s.globalVNFinfo) rfl ?_)
    fun _ h => h
  rintro tuple - vnfs hflows
  refine (ends_migrateOne vnfs tuple).mono ?_
  rintro _ ⟨src, dst, v, w, flow, -, -, hv, hw, hflow, rfl⟩
  exact (allFlows_migrated { flow with flowid := w.flowNum } hv hw hflow rfl).trans hflows

/-! ## Room -/

/-- How many flows there are at an index. -/
def size (vnfs : List VNFinfo) (i : Int) : Nat :=
  match get vnfs i with
  | .ok vnf => vnf.flow.length
  | .error _ => 0

/-- What refers to a list fits in, with all that refers to it from there on. -/
def Room (size : Int → Nat) (sources : List (Int × Nat)) : Prop :=
  ∀ p ∈ sources, p.2 + sources.countP (fun q => q.1 = p.1 ∧ p.2 ≤ q.2) ≤ size p.1

variable {vnfs : List VNFinfo} {sources sources' : List (Int × Nat)} {size' : Int → Nat}

theorem size_eq {n : Nat} {vnf : VNFinfo} (h : vnfs[n]? = some vnf) : size vnfs n = vnf.flow.length := by
  rw [size, get_eq h]

theorem size_congr {vnfs' : List VNFinfo}
    (h : (vnfs'.map fun vnf => vnf.flow.length) = vnfs.map fun vnf => vnf.flow.length) :
    size vnfs' = size vnfs := by
  have hsize : ∀ (l : List VNFinfo) (i : Int), size l i = if 0 ≤ i then
      ((l.map fun vnf => vnf.flow.length)[i.toNat]?).getD 0 else 0 := by
    intro l i
    rw [size, get, List.getElem?_map]
    split_ifs
    · cases l[i.toNat]? <;> rfl
    · rfl
  funext i
  rw [hsize, hsize, h]

/-- Where there is a flow. -/
theorem of_lt_size {i : Int} {f : Nat} (h : f < size vnfs i) :
    ∃ (n : Nat) (vnf : VNFinfo) (flow : Flowinfo), i = n ∧ vnfs[n]? = some vnf ∧ vnf.flow[f]? = some flow := by
  rcases get_cases vnfs i with ⟨n, vnf, hi, hvnf, hget⟩ | hget
  · rw [size, hget] at h
    exact ⟨n, vnf, _, hi, hvnf, List.getElem?_eq_getElem h⟩
  · rw [size, hget] at h
    exact absurd h (Nat.not_lt_zero f)

theorem Room.lt (h : Room size' sources) {p : Int × Nat} (hp : p ∈ sources) : p.2 < size' p.1 := by
  have hpos : 0 < sources.countP fun q => q.1 = p.1 ∧ p.2 ≤ q.2 :=
    List.countP_pos_iff.mpr ⟨p, hp, by simp⟩
  have hroom := h p hp
  omega

theorem Room.perm (h : Room size' sources) (hperm : sources'.Perm sources) : Room size' sources' := by
  intro p hp
  rw [hperm.countP_eq]
  exact h p (hperm.mem_iff.mp hp)

/-- What refers to other lists does not matter. -/
theorem Room.append (h : Room size' sources) (h' : Room size' sources')
    (hne : ∀ p ∈ sources, ∀ q ∈ sources', p.1 ≠ q.1) : Room size' (sources ++ sources') := by
  intro p hp
  rw [List.countP_append]
  rcases List.mem_append.mp hp with hp | hp
  · have hzero : sources'.countP (fun q => q.1 = p.1 ∧ p.2 ≤ q.2) = 0 := by
      simp only [List.countP_eq_zero, decide_eq_true_eq, not_and]
      exact fun q hq he => absurd he.symm (hne p hp q hq)
    rw [hzero]
    exact h p hp
  · have hzero : sources.countP (fun q => q.1 = p.1 ∧ p.2 ≤ q.2) = 0 := by
      simp only [List.countP_eq_zero, decide_eq_true_eq, not_and]
      exact fun q hq he => absurd he (hne q hq p hp)
    rw [hzero, Nat.zero_add]
    exact h' p hp

/-- Different flows that are there fit in. -/
theorem room_of_nodup (hnd : sources.Nodup) (hlt : ∀ p ∈ sources, p.2 < size' p.1) : Room size' sources := by
  intro p hp
  have hlast : ((sources.filter fun q => q.1 = p.1 ∧ p.2 ≤ q.2).map Prod.snd).Nodup := by
    refine List.Nodup.map_on (fun x hx y hy hxy => ?_) (hnd.filter _)
    simp only [List.mem_filter, decide_eq_true_eq] at hx hy
    exact Prod.ext (hx.2.1.trans hy.2.1.symm) hxy
  have hsub : (sources.filter fun q => q.1 = p.1 ∧ p.2 ≤ q.2).map Prod.snd ⊆
      List.range' p.2 (size' p.1 - p.2) := by
    intro f hf
    simp only [List.mem_map, List.mem_filter, decide_eq_true_eq] at hf
    obtain ⟨q, ⟨hq, he, hle⟩, rfl⟩ := hf
    have hq' := hlt q hq
    rw [he] at hq'
    rw [List.mem_range'_1]
    omega
  have hlen := (List.subperm_of_subset hlast hsub).length_le
  rw [List.length_map, ← List.countP_eq_length_filter, List.length_range'] at hlen
  have hp' := hlt p hp
  omega

/-! ## A plan with room -/

theorem migrateOne_eq {tuple : MigrateTuple} {src dst : Nat} {v w : VNFinfo} {flow : Flowinfo}
    (hsrc : tuple.srcVNFid = src) (hdst : tuple.dstVNFid = dst) (hv : vnfs[src]? = some v)
    (hw : vnfs[dst]? = some w) (hflow : v.flow[tuple.flowid]? = some flow) :
    migrateOne vnfs tuple =
      .ok (migrated vnfs src tuple.flowid dst { flow with flowid := w.flowNum }) := by
  rw [migrateOne, hsrc, hdst, get_eq hv, get_eq hw]
  simp only [bind, Except.bind, get_eq hflow, Int.toNat_natCast]
  rfl

/-- A migration takes one flow from one list. -/
theorem length_migrated {src f dst j : Nat} {moved : Flowinfo} {vnf : VNFinfo} (hj : vnfs[j]? = some vnf) :
    ∃ vnf', (migrated vnfs src f dst moved)[j]? = some vnf' ∧
      vnf.flow.length ≤ vnf'.flow.length + if j = src then 1 else 0 := by
  by_cases hsrc : src = j
  · subst hsrc
    rw [if_pos rfl, migrated, List.getElem?_modify_eq]
    by_cases hdst : dst = src
    · subst hdst
      rw [List.getElem?_modify_eq, List.getElem?_modify_eq, hj]
      refine ⟨_, rfl, ?_⟩
      simp only [VNFinfo.refresh_flow, List.length_eraseIdx, List.length_append, List.length_set,
        List.length_singleton]
      split <;> omega
    · rw [List.getElem?_modify_ne _ _ hdst, List.getElem?_modify_eq, hj]
      refine ⟨_, rfl, ?_⟩
      simp only [VNFinfo.refresh_flow, List.length_eraseIdx, List.length_set]
      split <;> omega
  · rw [if_neg (Ne.symm hsrc), migrated, List.getElem?_modify_ne _ _ hsrc]
    by_cases hdst : dst = j
    · subst hdst
      rw [List.getElem?_modify_eq, List.getElem?_modify_ne _ _ hsrc, hj]
      refine ⟨_, rfl, ?_⟩
      simp
    · rw [List.getElem?_modify_ne _ _ hdst, List.getElem?_modify_ne _ _ hsrc, hj]
      exact ⟨vnf, rfl, Nat.le_refl _⟩

theorem size_migrated (src f dst : Nat) (moved : Flowinfo) (i : Int) :
    size vnfs i ≤ size (migrated vnfs src f dst moved) i + if i = src then 1 else 0 := by
  rcases get_cases vnfs i with ⟨n, vnf, rfl, hvnf, hget⟩ | hget
  · obtain ⟨vnf', hvnf', hle⟩ := @length_migrated vnfs src f dst n moved vnf hvnf
    rw [size_eq hvnf, size_eq hvnf']
    simpa using hle
  · simp [size, hget]

@[simp] theorem length_migrated_vnfs (src f dst : Nat) (moved : Flowinfo) :
    (migrated vnfs src f dst moved).length = vnfs.length := by
  simp [migrated]

/-- Where a tuple has been carried out there is still room for those with smaller numbers. -/
theorem Room.migrated {p : Int × Nat} {src dst : Nat} {moved : Flowinfo} (hp : p.1 = src)
    (h : Room (size vnfs) (p :: sources)) (hle : ∀ q ∈ sources, q.2 ≤ p.2) :
    Room (size (migrated vnfs src p.2 dst moved)) sources := by
  intro q hq
  have hroom := h q (List.mem_cons_of_mem p hq)
  have hsize := @size_migrated vnfs src p.2 dst moved q.1
  rw [List.countP_cons] at hroom
  by_cases hqp : q.1 = p.1
  · have hcount : p.1 = q.1 ∧ q.2 ≤ p.2 := ⟨hqp.symm, hle q hq⟩
    rw [if_pos (hqp.trans hp)] at hsize
    simp only [hcount, and_self, decide_true, if_true] at hroom
    omega
  · rw [if_neg fun he => hqp (he.trans hp.symm)] at hsize
    have hcount : ¬ (p.1 = q.1 ∧ q.2 ≤ p.2) := fun hc => hqp hc.1.symm
    simp only [hcount, decide_false, Bool.false_eq_true, if_false] at hroom
    omega

theorem ends_migrate_room {plan : List MigrateTuple} (hsorted : plan.Pairwise fun t t' => t'.flowid ≤ t.flowid)
    (hroom : Room (size vnfs) (plan.map MigrateTuple.source))
    (hdst : ∀ tuple ∈ plan, 0 ≤ tuple.dstVNFid ∧ tuple.dstVNFid < vnfs.length) :
    Ends InRange (plan.foldlM migrateOne vnfs) fun _ => True := by
  induction plan generalizing vnfs with
  | nil => exact Ends.ok_iff.mpr trivial
  | cons tuple plan ih =>
      obtain ⟨hle, hsorted⟩ := List.pairwise_cons.mp hsorted
      rw [List.forall_mem_cons] at hdst
      obtain ⟨src, v, flow, hsrc, hv, hflow⟩ := of_lt_size (hroom.lt (List.mem_cons_self ..))
      obtain ⟨dst, hdst'⟩ := Int.eq_ofNat_of_zero_le hdst.1.1
      have hlt : dst < vnfs.length := by
        have hlt := hdst.1.2
        omega
      rw [List.foldlM_cons, migrateOne_eq hsrc hdst' hv (List.getElem?_eq_getElem hlt) hflow]
      refine ih hsorted ?_ fun t ht => ?_
      · apply Room.migrated hsrc hroom
        simpa [MigrateTuple.source] using hle
      · rw [length_migrated_vnfs]
        exact hdst.2 t ht

/-- A plan with room is carried out, and no flow gets lost. -/
theorem ends_migrateTotal_room {s : Algorithms}
    (hroom : Room (size s.globalVNFinfo) (s.migrateInfo.map MigrateTuple.source))
    (hdst : ∀ tuple ∈ s.migrateInfo, 0 ≤ tuple.dstVNFid ∧ tuple.dstVNFid < s.globalVNFinfo.length) :
    Ends InRange (migrateTotal s) fun s' => allFlows s'.globalVNFinfo = allFlows s.globalVNFinfo ∧
      s'.globalVNFinfo.map VNFinfo.vnfId = s.globalVNFinfo.map VNFinfo.vnfId ∧
      s'.migrateInfo.Perm s.migrateInfo := by
  have hperm : (s.migrateInfo.insertionSort fun t t' => t.flowid ≤ t'.flowid).Perm s.migrateInfo :=
    List.perm_insertionSort _ _
  have hsafe : Ends InRange (migrateTotal s) fun s' => s'.migrateInfo.Perm s.migrateInfo := by
    refine Ends.bind (ends_migrate_room ?_ ?_ ?_) fun _ _ => hperm
    · rw [List.pairwise_reverse]
      exact List.pairwise_insertionSort _ _
    · exact hroom.perm ((((List.reverse_perm _).trans hperm)).map _)
    · intro tuple ht
      rw [List.mem_reverse, hperm.mem_iff] at ht
      exact hdst tuple ht
  refine ((ends_migrateTotal_flows s).and_any ((ends_migrateTotal_vnfId s).and_any hsafe)).mono ?_
  exact fun s' h => h

end OFM.OFMAlgorithm
