import OFM.Algorithms.Lemmas.Scaling
import OFM.Lib.Machine

/-!
# The representation of the network functions

Which calls keep ids equal to indexes, numbers of flows equal to the lengths of their lists and loads
equal to the sums of their rates: load balancing does, and the other calls do exactly when they change
nothing of what they leave out.
-/

namespace OFM.OFMAlgorithm
open OFM.Lib

/-- Network functions that have been filled with these flows, numbered and refreshed. -/
def start (flows : List (List Flowinfo)) : Algorithms where
  migrateInfo := []
  globalVNFinfo := flows.mapIdx fun i flow => { VNFinfo.new with vnfId := i, flow }.refresh
  vnfNum := flows.length

theorem start_represented (flows : List (List Flowinfo)) : (start flows).Represented := by
  intro i vnf hi
  rw [start, List.getElem?_mapIdx] at hi
  obtain ⟨flow, -, rfl⟩ := Option.map_eq_some_iff.mp hi
  exact ⟨rfl, VNFinfo.refresh_clean _⟩

/-- New flows are as many as the old ones, a network function is added to none, the first one is not too
full, and nothing is merged; load balancing is always fine. -/
def Call.Ok (s : Algorithms) : Call → Prop
  | .refresh i newflow => ∀ vnf ∈ s.globalVNFinfo[i]?, (newflow.length : Int) = vnf.flowNum
  | .newVNFInstance => s.globalVNFinfo = []
  | .check .loadBalancing => True
  | .check (.scaleOut _ _) => ∀ vnf ∈ s.globalVNFinfo.head?, ¬ thHigh < vnf.loadPercentage
  | .scaleInRandom => ∀ i j, ¬ Mergeable s.globalVNFinfo i j

theorem refresh_represented_iff {s : Algorithms} (h : s.Represented) (i : Nat) (newflow : List Flowinfo)
    {vnf : VNFinfo} (hvnf : s.globalVNFinfo[i]? = some vnf) :
    ({ s with globalVNFinfo := s.globalVNFinfo.modify i (VNFinfo.refreshWith · newflow) } :
      Algorithms).Represented ↔ (newflow.length : Int) = vnf.flowNum := by
  constructor
  · intro h'
    have hi : (s.globalVNFinfo.modify i (VNFinfo.refreshWith · newflow))[i]? =
        some (vnf.refreshWith newflow) := by
      rw [List.getElem?_modify_eq, hvnf]
      rfl
    exact (h' i _ hi).2.1.symm
  · intro hlength j vnf' hj
    dsimp only at hj
    by_cases hij : i = j
    · subst hij
      rw [List.getElem?_modify_eq, hvnf] at hj
      obtain rfl := Option.some.inj hj
      exact ⟨(h i vnf hvnf).1, hlength.symm, rfl⟩
    · rw [List.getElem?_modify_ne _ _ hij] at hj
      exact h j vnf' hj

/-- Exactly the calls that are ok keep the representation, if they return. -/
theorem ends_exec {s : Algorithms} (h : s.Represented) (fuel : Nat) (call : Call) :
    Ends AnyFault (call.exec fuel s) fun s' => s'.Represented ↔ call.Ok s := by
  cases call with
  | refresh i newflow =>
      refine (ends_get s.globalVNFinfo i).bind ?_
      rintro vnf ⟨n, hn, hvnf⟩
      obtain rfl : i = n := Int.ofNat_inj.mp hn
      refine Ends.pure_iff.mpr ((refresh_represented_iff h i newflow hvnf).trans ?_)
      refine ⟨fun hlength vnf' hvnf' => ?_, fun hok => hok vnf hvnf⟩
      obtain rfl := Option.some.inj (hvnf.symm.trans hvnf')
      exact hlength
  | newVNFInstance =>
      refine Ends.ok_iff.mpr ⟨fun h' => ?_, fun hnil i vnf hi => ?_⟩
      · by_contra hne
        exact not_represented_of_new hne rfl h'
      · have hnew : (newVNFInstance s).globalVNFinfo = [VNFinfo.new] :=
          congrArg (· ++ [VNFinfo.new]) hnil
        rw [hnew] at hi
        obtain ⟨rfl, rfl⟩ : i = 0 ∧ VNFinfo.new = vnf := by
          cases i with
          | zero => exact ⟨rfl, Option.some.inj hi⟩
          | succ i => cases hi
        exact ⟨rfl, rfl, by rw [VNFinfo.load]; exact (zero_div _).symm⟩
  | check c =>
      cases c with
      | loadBalancing =>
          exact (ends_loadBalancingCheck h).bind fun result hresult => iff_of_true hresult trivial
      | scaleOut mode draws =>
          exact (ends_scaleOutCheck h fuel draws mode).bind fun result hresult => hresult
  | scaleInRandom => exact (ends_scaleInRandom h).bind fun result hresult => hresult

theorem exec_of_step {fuel : Nat} {s s' : Algorithms} {call : Call} (h : step fuel s call = some s') :
    call.exec fuel s = .ok s' := by
  rw [step] at h
  cases he : call.exec fuel s with
  | ok t =>
      rw [he] at h
      exact congrArg Except.ok (Option.some.inj h)
  | error e =>
      rw [he] at h
      cases h

/-- The representation holds after every call of a run exactly if every call is ok. -/
theorem represented_iff (fuel : Nat) (flows : List (List Flowinfo)) {calls : List Call} {s : Algorithms}
    (hr : Machine.run (step fuel) (start flows) calls = some s) :
    (∀ pre suf t, calls = pre ++ suf → Machine.run (step fuel) (start flows) pre = some t →
      t.Represented) ↔ Machine.Along (step fuel) (fun s call => call.Ok s) (start flows) calls :=
  Machine.always_iff_along (start_represented flows)
    (fun _ call _ h hs => (ends_exec h fuel call).of_eq (exec_of_step hs)) hr

/-- The three flows of a network function are refreshed, and the load is balanced with another one. -/
def refreshed : List Call :=
  [.refresh 0 [⟨20, 100, 0, false⟩, ⟨20, 100, 1, false⟩, ⟨20, 100, 2, false⟩], .check .loadBalancing]

/-- The representation holds throughout, and flows change their places. -/
theorem represented_iff_sample :
    ∃ s, Machine.run (step 0) (start [[⟨10, 100, 0, false⟩, ⟨10, 100, 1, false⟩, ⟨10, 100, 2, false⟩], []])
        refreshed = some s ∧
      s.globalVNFinfo.map VNFinfo.flowNum = [2, 1] ∧
      ∀ pre suf t, refreshed = pre ++ suf →
        Machine.run (step 0) (start [[⟨10, 100, 0, false⟩, ⟨10, 100, 1, false⟩, ⟨10, 100, 2, false⟩], []])
          pre = some t → t.Represented := by
  have hrun : (Machine.run (step 0)
      (start [[⟨10, 100, 0, false⟩, ⟨10, 100, 1, false⟩, ⟨10, 100, 2, false⟩], []]) refreshed).map
      (fun s => s.globalVNFinfo.map VNFinfo.flowNum) = some [2, 1] := by decide +kernel
  obtain ⟨s, hr, hs⟩ := Option.map_eq_some_iff.mp hrun
  refine ⟨s, hr, hs, (represented_iff 0 _ hr).mpr ?_⟩
  refine Machine.along_cons.mpr ⟨fun vnf hvnf => ?_, fun _ _ => ?_⟩
  · obtain rfl := Option.some.inj hvnf
    rfl
  · exact Machine.along_cons.mpr ⟨trivial, fun _ _ => Machine.along_nil⟩

/-- Its id is 0 at the index 1. -/
theorem new_not_represented : ∃ t, Machine.run (step 0) (start [[]]) [.newVNFInstance] = some t ∧
    ¬ t.Represented := by
  refine ⟨_, rfl, fun h => ?_⟩
  have hid := (h 1 VNFinfo.new rfl).1
  exact absurd hid (by decide)

end OFM.OFMAlgorithm
