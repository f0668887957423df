import OFM.Algorithms.Lemmas.Room
import OFM.Lib.Sublists

/-!
# What a plan does

Where the flows are when a plan of different flows has been carried out from the largest number to the
smallest: those that the plan does not name are where they were, in their order, and behind them come those
that it sends there.
-/

namespace OFM.OFMAlgorithm
open OFM.Lib

/-- No failure. -/
abbrev Never : Fault → Prop := fun _ => False

theorem ok_of_never {α : Type} {x : Except Fault α} {P : α → Prop} (h : Ends Never x P) :
    ∃ a, x = .ok a ∧ P a := by
  cases x with
  | ok a => exact ⟨a, rfl, h⟩
  | error e => exact h.elim

/-- A flow without its number, which a migration changes. -/
def Flowinfo.unnumbered (flow : Flowinfo) : Flowinfo := { flow with flowid := 0 }

/-- The flow and the destination of a tuple are there. -/
structure MigrateTuple.There (vnfs : List VNFinfo) (tuple : MigrateTuple) : Prop where
  flow : ∃ flow, flowOf vnfs tuple = .ok flow
  dst : ∃ vnf, get vnfs tuple.dstVNFid = .ok vnf

/-- The flows of an index that the plan does not name. -/
def staying (plan : List MigrateTuple) (i : Nat) (flow : List Flowinfo) : List Flowinfo :=
  without (fun f => ((i : Int), f) ∈ plan.map MigrateTuple.source) flow

/-- The flows that the plan sends to an index. -/
def arriving (vnfs : List VNFinfo) (plan : List MigrateTuple) (i : Nat) : List Flowinfo :=
  plan.filterMap fun tuple => if tuple.dstVNFid = (i : Int) then (flowOf vnfs tuple).toOption else none

/-- The plan has been carried out. -/
structure Carried (vnfs : List VNFinfo) (plan : List MigrateTuple) (vnfs' : List VNFinfo) : Prop where
  length : vnfs'.length = vnfs.length
  flows : ∀ (i : Nat) (vnf : VNFinfo), vnfs[i]? = some vnf → ∃ vnf' arrived, vnfs'[i]? = some vnf' ∧
    vnf'.flow = staying plan i vnf.flow ++ arrived ∧
    arrived.map Flowinfo.unnumbered = (arriving vnfs plan i).map Flowinfo.unnumbered

variable {vnfs vnfs' : List VNFinfo} {plan : List MigrateTuple} {tuple : MigrateTuple}

theorem flowOf_eq_ok {flow : Flowinfo} : flowOf vnfs tuple = .ok flow ↔
    ∃ (src : Nat) (v : VNFinfo), tuple.srcVNFid = src ∧ vnfs[src]? = some v ∧ v.flow[tuple.flowid]? = some flow := by
  rw [flowOf, bind_eq_ok]
  constructor
  · rintro ⟨v, hv, hflow⟩
    obtain ⟨src, hsrc, hv⟩ := (ends_get _ _).of_eq hv
    obtain ⟨f, hf, hflow⟩ := (ends_get _ _).of_eq hflow
    obtain rfl : tuple.flowid = f := Int.ofNat_inj.mp hf
    exact ⟨src, v, hsrc, hv, hflow⟩
  · rintro ⟨src, v, hsrc, hv, hflow⟩
    exact ⟨v, hsrc ▸ get_eq hv, get_eq hflow⟩

theorem carried_nil (vnfs : List VNFinfo) : Carried vnfs [] vnfs where
  length := rfl
  flows i vnf hi := by
    have hstay : staying [] i vnf.flow = vnf.flow := without_none fun n _ => rfl
    exact ⟨vnf, [], hi, by rw [hstay, List.append_nil], rfl⟩

/-- The flows at an index after one migration. -/
theorem flow_migrated {src f dst i : Nat} {moved : Flowinfo} {v vnf : VNFinfo} (hv : vnfs[src]? = some v)
    (hf : f < v.flow.length) (hi : vnfs[i]? = some vnf) : ∃ vnf', (migrated vnfs src f dst moved)[i]? = some vnf' ∧
      vnf'.flow = (if i = src then vnf.flow.eraseIdx f else vnf.flow) ++ if i = dst then [moved] else [] := by
  have herase : ∀ l : List Flowinfo, (l.set f moved).eraseIdx f = l.eraseIdx f := fun l => by
    rw [List.eraseIdx_set_eq]
  by_cases hsrc : src = i
  · subst hsrc
    obtain rfl := Option.some.inj (hv.symm.trans hi)
    rw [if_pos rfl, migrated, List.getElem?_modify_eq]
    by_cases hdst : dst = src
    · subst hdst
      rw [List.getElem?_modify_eq, List.getElem?_modify_eq, hi, if_pos rfl]
      refine ⟨_, rfl, ?_⟩
      simp only [VNFinfo.refresh_flow]
      rw [List.eraseIdx_append_of_lt_length (by rwa [List.length_set]), herase]
    · rw [List.getElem?_modify_ne _ _ hdst, List.getElem?_modify_eq, hi, if_neg (Ne.symm hdst), List.append_nil]
      exact ⟨_, rfl, herase _⟩
  · rw [if_neg (Ne.symm hsrc), migrated, List.getElem?_modify_ne _ _ hsrc]
    by_cases hdst : dst = i
    · subst hdst
      rw [List.getElem?_modify_eq, List.getElem?_modify_ne _ _ hsrc, hi, if_pos rfl]
      exact ⟨_, rfl, rfl⟩
    · rw [List.getElem?_modify_ne _ _ hdst, List.getElem?_modify_ne _ _ hsrc, hi, if_neg (Ne.symm hdst)]
      exact ⟨vnf, rfl, (List.append_nil _).symm⟩

/-- Of a network function from which flows with larger numbers have gone one more goes. -/
theorem staying_snoc {i : Nat} {flow : List Flowinfo}
    (hlater : tuple.srcVNFid = (i : Int) → ∀ t ∈ plan, t.srcVNFid = (i : Int) → tuple.flowid < t.flowid) :
    staying (plan ++ [tuple]) i flow =
      if tuple.srcVNFid = (i : Int) then (staying plan i flow).eraseIdx tuple.flowid else staying plan i flow := by
  split
  · rename_i hsrc
    have hgone : ∀ n ≤ tuple.flowid, decide (((i : Int), n) ∈ plan.map MigrateTuple.source) = false := by
      intro n hn
      refine decide_eq_false fun hmem => ?_
      obtain ⟨t, ht, heq⟩ := List.mem_map.mp hmem
      obtain ⟨hi, rfl⟩ := Prod.mk.inj heq
      exact absurd (hlater hsrc t ht hi) (Nat.not_lt.mpr hn)
    rw [staying, staying, eraseIdx_without hgone]
    refine without_congr fun n _ => ?_
    simp [MigrateTuple.source, hsrc, or_comm]
  · rename_i hsrc
    refine without_congr fun n _ => ?_
    simp [MigrateTuple.source, Ne.symm hsrc]

theorem arriving_snoc {i : Nat} {flow : Flowinfo} (hflow : flowOf vnfs tuple = .ok flow) :
    arriving vnfs (plan ++ [tuple]) i =
      arriving vnfs plan i ++ if tuple.dstVNFid = (i : Int) then [flow] else [] := by
  rw [arriving, List.filterMap_append]
  refine congrArg (arriving vnfs plan i ++ ·) ?_
  split
  · rename_i hdst
    simp [hdst, hflow, Except.toOption]
  · rename_i hdst
    simp [hdst]

/-- One more tuple is carried out. -/
theorem Carried.migrateOne (h : Carried vnfs plan vnfs') (hthere : tuple.There vnfs)
    (hlater : ∀ t ∈ plan, t.srcVNFid = tuple.srcVNFid → tuple.flowid < t.flowid) :
    Ends Never (migrateOne vnfs' tuple) (Carried vnfs (plan ++ [tuple])) := by
  obtain ⟨flow, hflow⟩ := hthere.flow
  obtain ⟨w, hw⟩ := hthere.dst
  obtain ⟨src, v, hsrc, hv, hflow'⟩ := flowOf_eq_ok.mp hflow
  obtain ⟨dst, hdst, hw⟩ := (ends_get _ _).of_eq hw
  have hf := (List.getElem?_eq_some_iff.mp hflow').1
  obtain ⟨v', arrived, hv', hvflow, -⟩ := h.flows src v hv
  obtain ⟨w', -, hw', -, -⟩ := h.flows dst w hw
  -- The flow is where it was.
  have hstill : (staying plan src v.flow)[tuple.flowid]? = some flow := by
    rw [staying, getElem?_without fun n hn => ?_, hflow']
    refine decide_eq_false fun hmem => ?_
    obtain ⟨t, ht, heq⟩ := List.mem_map.mp hmem
    obtain ⟨hi, rfl⟩ := Prod.mk.inj heq
    exact absurd (hlater t ht (hi.trans hsrc.symm)) (Nat.not_lt.mpr hn)
  have hlt := (List.getElem?_eq_some_iff.mp hstill).1
  have hflow'' : v'.flow[tuple.flowid]? = some flow := by
    rw [hvflow, List.getElem?_append_left hlt, hstill]
  have hlt' := (List.getElem?_eq_some_iff.mp hflow'').1
  rw [migrateOne_eq hsrc hdst hv' hw' hflow'']
  refine ⟨(length_migrated_vnfs ..).trans h.length, fun i vnf hi => ?_⟩
  obtain ⟨vnf', arrived', hvnf', hvnfflow, harrived⟩ := h.flows i vnf hi
  obtain ⟨vnf'', hvnf'', heq⟩ := @flow_migrated vnfs' src tuple.flowid dst i
    { flow with flowid := w'.flowNum } v' vnf' hv' hlt' hvnf'
  refine ⟨vnf'', arrived' ++ (if i = dst then [{ flow with flowid := w'.flowNum }] else []), hvnf'', ?_, ?_⟩
  · rw [heq, hvnfflow, staying_snoc (fun he t ht hti => hlater t ht (hti.trans he.symm)), ← List.append_assoc]
    refine congrArg₂ (fun l l' : List Flowinfo => l ++ l') ?_ rfl
    by_cases his : i = src
    · subst his
      obtain rfl := Option.some.inj (hv.symm.trans hi)
      rw [if_pos rfl, if_pos hsrc, List.eraseIdx_append_of_lt_length hlt]
    · rw [if_neg his, if_neg fun he => his (Int.ofNat_inj.mp (he.symm.trans hsrc))]
  · rw [arriving_snoc hflow, List.map_append, List.map_append, harrived]
    refine congrArg₂ (fun l l' : List Flowinfo => l ++ l') rfl ?_
    by_cases hid : i = dst
    · rw [if_pos hid, if_pos (hdst.trans (congrArg _ hid.symm))]
      rfl
    · rw [if_neg hid, if_neg fun he => hid (Int.ofNat_inj.mp (he.symm.trans hdst))]

/-- The order in which a plan of different flows is carried out. -/
theorem pairwise_flowid (hdistinct : (plan.map MigrateTuple.source).Nodup)
    (hsorted : plan.Pairwise fun t t' => t'.flowid ≤ t.flowid) :
    plan.Pairwise fun t t' => t.srcVNFid = t'.srcVNFid → t'.flowid < t.flowid := by
  refine (hsorted.and (List.pairwise_map.mp hdistinct)).imp ?_
  rintro t t' ⟨hle, hne⟩ hsrc
  refine lt_of_le_of_ne hle fun he => hne ?_
  rw [MigrateTuple.source, MigrateTuple.source, hsrc, he]

theorem ends_migrate_carried (hdistinct : (plan.map MigrateTuple.source).Nodup)
    (hsorted : plan.Pairwise fun t t' => t'.flowid ≤ t.flowid) (hthere : ∀ t ∈ plan, t.There vnfs) :
    Ends Never (plan.foldlM migrateOne vnfs) (Carried vnfs plan) := by
  have hpairwise := pairwise_flowid hdistinct hsorted
  refine (Ends.foldlM (fun rest vnfs' => ∃ done, plan = done ++ rest ∧ Carried vnfs done vnfs')
    ⟨[], rfl, carried_nil vnfs⟩ ?_).mono ?_
  · rintro tuple rest vnfs' - ⟨done, hplan, hcarried⟩
    have hlater : ∀ t ∈ done, t.srcVNFid = tuple.srcVNFid → tuple.flowid < t.flowid := by
      intro t ht
      rw [hplan] at hpairwise
      exact (List.pairwise_append.mp hpairwise).2.2 t ht tuple (List.mem_cons_self ..)
    have hmem : tuple ∈ plan := hplan ▸ List.mem_append_right _ (List.mem_cons_self ..)
    refine (hcarried.migrateOne (hthere tuple hmem) hlater).mono fun vnfs'' h => ⟨done ++ [tuple], ?_, h⟩
    rw [List.append_assoc, List.singleton_append, hplan]
  · rintro vnfs' ⟨done, hplan, hcarried⟩
    rw [List.append_nil] at hplan
    exact hplan ▸ hcarried

/-! ## Another order -/

theorem staying_perm {plan' : List MigrateTuple} (h : plan'.Perm plan) (i : Nat) (flow : List Flowinfo) :
    staying plan' i flow = staying plan i flow :=
  without_congr fun _ _ => decide_eq_decide.mpr (h.map MigrateTuple.source).mem_iff

/-- The plan of `MigrateTotal`, in the order of its execution. -/
theorem ends_migrateTotal_carried {s : Algorithms} (hdistinct : (s.migrateInfo.map MigrateTuple.source).Nodup)
    (hthere : ∀ t ∈ s.migrateInfo, t.There s.globalVNFinfo) :
    Ends Never (migrateTotal s) fun s' => s'.migrateInfo.Perm s.migrateInfo ∧
      Carried s.globalVNFinfo s'.migrateInfo.reverse s'.globalVNFinfo := by
  have hperm : (s.migrateInfo.insertionSort fun t t' => t.flowid ≤ t'.flowid).Perm s.migrateInfo :=
    List.perm_insertionSort _ _
  have hreverse := (List.reverse_perm _).trans hperm
  refine Ends.bind (ends_migrate_carried ((hreverse.map _).nodup_iff.mpr hdistinct) ?_ ?_) fun _ h => ⟨hperm, h⟩
  · rw [List.pairwise_reverse]
    exact List.pairwise_insertionSort _ _
  · exact fun t ht => hthere t (hreverse.mem_iff.mp ht)

end OFM.OFMAlgorithm
