import Mathlib.Data.Rat.Floor
import OFM.Algorithms.Migration

/-!
# Scaling

`Algorithms.java`: `ScaleInRandom`, and `ScaleOutCheck` with its three ways to choose the flows of a new
network function. A search that may go on for ever has fuel.
-/

namespace OFM.OFMAlgorithm

/-- `r` -/
def r (x : ℚ) : ℚ := if 0 ≤ x then x else 0

/-- The sum of what some flows of a list cost, when they have to wait for so long. -/
def costOf (flow : List Flowinfo) (wait : ℚ) (indexes : List Nat) : Except Fault ℚ := do
  let cost ← indexes.foldlM (fun cost (i : Nat) => do
    let f ← get flow i
    return cost + f.flowRate * r (wait + laProcess - f.sla)) (0 : ℚ)
  return cost * sfmt * penaltyAlpha

/-! ## Scaling in -/

/-- The first network function behind `i` with which it stays below the safe load. -/
def mergeTarget (vnfs : List VNFinfo) (i : Nat) (load : ℚ) : Option Nat :=
  (vnfs.zipIdx.find? fun vnf => i < vnf.2 ∧ load + vnf.1.loadPercentage ≤ thSafe).map Prod.snd

/-- The body of the loop of `ScaleInRandom`. No flow moves. -/
def scaleInStep (st : List VNFinfo × ℚ) (i : Nat) : Except Fault (List VNFinfo × ℚ) := do
  let vnf ← get st.1 i
  let cost ← costOf vnf.flow sfmt (List.range vnf.flowNum.toNat)
  if vnf.loadPercentage < thLow then
    match mergeTarget st.1 i vnf.loadPercentage with
    | some j =>
        return (st.1.modify j fun target =>
          { target with loadPercentage := target.loadPercentage + vnf.loadPercentage },
          st.2 + (benefitVM - cost))
    | none => return st
  else return st

def scaleInRandom (s : Algorithms) : Except Fault (ℚ × Algorithms) := do
  let st ← (List.range s.globalVNFinfo.length).foldlM scaleInStep (s.globalVNFinfo, 0)
  return (st.2, { s with globalVNFinfo := st.1 })

/-! ## `nchoosek` -/

/-- `nchoosek`. Each call has a list of its own to drop the last element from; an empty list of which two
or more are to be chosen is handed on for ever. -/
def nchoosek (source : List Nat) (num : Nat) : Except Fault (List (List Nat)) :=
  if source.length = num then .ok [source]
  else if 1 < num then
    if h : source = [] then .error .stackOverflow
    else do
      let withLast ← nchoosek source.dropLast (num - 1)
      let withoutLast ← nchoosek source.dropLast num
      return withLast.map (· ++ [source.getLast h]) ++ withoutLast
  else .ok (source.map fun i => [i])
termination_by source.length
decreasing_by all_goals
  rw [List.length_dropLast]
  have := List.length_pos_iff.mpr h
  omega

section References

variable {α : Type}

/-- `tempresult.get(j).add(source.get(source.size()-1))` -/
def addLast (source : Nat) (lists : List (List α)) (ref : Nat) : Except Fault (List (List α)) := do
  let _ ← get lists ref
  let elements ← get lists source
  let last ← get elements (elements.length - 1)
  return lists.modify ref (· ++ [last])

/-- `nchoosek` on the lists themselves, as far as there are stack frames: the lists that are returned, and all lists
there are then. They are new, or the one that is given, and a call adds to those that the calls within it have returned.
A list is the place of its elements among all lists; the lists of such places are not shared. -/
def nchoosekIn : (frames source num : Nat) → List (List α) → Except Fault (List Nat × List (List α))
  | 0, _, _, _ => .error .stackOverflow
  | frames + 1, source, num, lists => do
      let elements ← get lists source
      if elements.length = num then return ([source], lists)
      else if 1 < num then
        let sourceparam := lists.length
        let (withLast, lists) ← nchoosekIn frames sourceparam (num - 1) (lists ++ [elements.dropLast])
        let lists ← withLast.foldlM (addLast source) lists
        let (withoutLast, lists) ← nchoosekIn frames sourceparam num lists
        return (withLast ++ withoutLast, lists)
      else
        return (List.range' lists.length elements.length, lists ++ elements.map fun i => [i])

end References

/-! ## Scaling out -/

/-- A choice of `ScaleOutBest` with its cost, if there has been one below the bound. -/
structure Best where
  result : List Nat
  maxCost : ℚ

/-- The body of the inner loop of `ScaleOutBest`, for a choice of `f` flows. -/
def considerChoice (vnf : VNFinfo) (f : Nat) (best : Best) (choice : List Nat) : Except Fault Best := do
  let newLoad ← choice.foldlM (fun load (i : Nat) => do
    let flow ← get vnf.flow i
    return load + flow.flowRate / maxLoad) (0 : ℚ)
  let oldUnsafe := thSafe - newLoad < vnf.loadPercentage
  let newSafe := newLoad < thSafe
  if ¬ (oldUnsafe ∧ newSafe) then return best
  let migTime := migtimeGamma + f * migtimeEta
  if ¬ (migTime + 2 * laProcess) * newLoad ≤ bufferSize then return best
  let cost ← costOf vnf.flow sfmt choice
  if cost < best.maxCost then return ⟨choice, cost⟩ else return best

/-- The flows at the indexes are planned to go from the first network function to the last. -/
def planAll (s : Algorithms) (vnfId : Int) (indexes : List Nat) : Algorithms :=
  { s with migrateInfo := s.migrateInfo ++
      indexes.map fun i => ⟨vnfId, i, s.globalVNFinfo.length - 1⟩ }

def scaleOutBest (s : Algorithms) (vnfId : Int) : Except Fault (ℚ × Algorithms) := do
  let vnf ← get s.globalVNFinfo vnfId
  let index := List.range vnf.flowNum.toNat
  let best ← [1, 2, 3, 4, 5].foldlM (fun best f => do
    let choices ← nchoosek index f
    choices.foldlM (considerChoice vnf f) best) ⟨[], 0x7fffffff⟩
  let s ← migrateTotal (planAll s vnfId best.result)
  return (best.maxCost, s)

/-- What `Math.random` yields, call by call. -/
structure Draws where
  value : Nat → ℚ
  inRange : ∀ n, 0 ≤ value n ∧ value n < 1

/-- Where a loop that picks flows stands: the loads of the old and of the new network function, the number
of picks and the flows that are planned. -/
structure Picking where
  oldLoad : ℚ
  newLoad : ℚ
  migCount : Nat
  planned : List Nat

/-- `OldUnsafe` -/
def Picking.oldUnsafe (st : Picking) : Prop := maxLoad * thSafe ≤ st.oldLoad

/-- `NewSafe` and `BufferSafe` -/
def Picking.safe (st : Picking) : Prop :=
  st.newLoad ≤ maxLoad * thSafe ∧
    (migtimeGamma + st.migCount * migtimeEta + 2 * laProcess) * st.newLoad ≤ bufferSize

instance (st : Picking) : Decidable st.oldUnsafe := inferInstanceAs (Decidable (_ ≤ _))

instance (st : Picking) : Decidable st.safe := inferInstanceAs (Decidable (_ ∧ _))

/-- A flow is picked, and planned if all stays safe. -/
def Picking.pick (st : Picking) (rate : ℚ) (index : Nat) : Picking :=
  let st := { st with
    oldLoad := st.oldLoad - rate
    newLoad := st.newLoad + rate
    migCount := st.migCount + 1 }
  if st.safe then { st with planned := st.planned ++ [index] } else st

/-- The loop of `ScaleOutRandom`, with the flows that have not been picked. -/
def pickRandom (flow : List Flowinfo) (random : Nat → ℚ) (flowidList : List Nat) (st : Picking) :
    Except Fault Picking :=
  let index := ⌊random st.migCount * flowidList.length⌋.toNat
  match _h : flowidList[index]? with
  | none => .error .indexOutOfBounds
  | some flowIndex => do
      let f ← get flow flowIndex
      let st := st.pick f.flowRate flowIndex
      if st.oldUnsafe ∧ st.safe then pickRandom flow random (flowidList.eraseIdx index) st
      else return st
termination_by flowidList.length
decreasing_by
  obtain ⟨hlt, -⟩ := List.getElem?_eq_some_iff.mp _h
  rw [List.length_eraseIdx_of_lt hlt]
  omega

/-- What the tuples of the plan cost: their flow numbers are looked up in one list. -/
def planCost (vnf : VNFinfo) (plan : List MigrateTuple) : Except Fault ℚ :=
  costOf vnf.flow (migtimeGamma + migtimeEta * plan.length) (plan.map MigrateTuple.flowid)

/-- The picks of `ScaleOutRandom`, from the load that the network function says it has. -/
def randomPicks (random : Nat → ℚ) (vnf : VNFinfo) : Except Fault Picking :=
  let st : Picking := ⟨vnf.loadPercentage * maxLoad, 0, 0, []⟩
  if st.oldUnsafe then pickRandom vnf.flow random (List.range vnf.flow.length) st else .ok st

def scaleOutRandom (random : Nat → ℚ) (s : Algorithms) (vnfId : Int) : Except Fault (ℚ × Algorithms) := do
  let vnf ← get s.globalVNFinfo vnfId
  let st ← randomPicks random vnf
  let s := planAll s vnfId st.planned
  let cost ← planCost vnf s.migrateInfo
  let s ← migrateTotal s
  return (cost, s)

/-- `0x80000000` as an `int` -/
def leastProduct : ℚ := -2147483648

/-- The body of the loop of `ScaleOut` that looks for the largest product, and among equals for the larger
rate. -/
def largerProduct (flow : List Flowinfo) (product : List ℚ) (best : ℚ × Nat) (i : Nat) :
    Except Fault (ℚ × Nat) := do
  let p ← get product i
  let f ← get flow i
  let g ← get flow best.2
  if best.1 < p ∨ p = best.1 ∧ g.flowRate < f.flowRate then return (p, i) else return best

/-- The loop of `ScaleOut`. -/
def pickGreedy (flow : List Flowinfo) : Nat → List ℚ → Picking → Except Fault Picking
  | 0, _, _ => .error .running
  | fuel + 1, product, st => do
      let best ← (List.range flow.length).foldlM (largerProduct flow product) (leastProduct, 0)
      let _ ← get product best.2
      let f ← get flow best.2
      let st := st.pick f.flowRate best.2
      if st.oldUnsafe ∧ st.safe then pickGreedy flow fuel (product.set best.2 leastProduct) st
      else return st

/-- The product of the rate and the time that is left. -/
def Flowinfo.product (flow : Flowinfo) : ℚ := flow.flowRate * (flow.sla - laProcess - sfmt)

/-- The picks of `ScaleOut`, from the load that the flows make. -/
def greedyPicks (fuel : Nat) (vnf : VNFinfo) : Except Fault Picking :=
  let st : Picking := ⟨(vnf.flow.map Flowinfo.flowRate).sum, 0, 0, []⟩
  if st.oldUnsafe then pickGreedy vnf.flow fuel (vnf.flow.map Flowinfo.product) st else .ok st

def scaleOut (fuel : Nat) (s : Algorithms) (vnfId : Int) : Except Fault (ℚ × Algorithms) := do
  let vnf ← get s.globalVNFinfo vnfId
  let st ← greedyPicks fuel vnf
  let s := planAll s vnfId st.planned
  let cost ← planCost vnf s.migrateInfo
  let s ← migrateTotal s
  return (cost, s)

/-- `ScaleOutCheck`. Its loop returns in the first round. -/
def scaleOutCheck (fuel : Nat) (draws : Draws) (mode : Int) (s : Algorithms) :
    Except Fault (ℚ × Algorithms) :=
  match s.globalVNFinfo with
  | [] => .ok (-1, s)
  | vnf :: _ =>
      if thHigh < vnf.loadPercentage then
        let s := newVNFInstance s
        if mode = scaleOutModeGreedy then scaleOut fuel s 0
        else if mode = scaleOutModeBest then scaleOutBest s 0
        else if mode = scaleOutModeRandom then scaleOutRandom draws.value s 0
        else .ok (-1, s)
      else .ok (-1, s)

/-! ## Calls -/

inductive Check
  | loadBalancing
  | scaleOut (mode : Int) (draws : Draws)

inductive Call
  /-- `Refresh(newflow)` of the network function at an index. -/
  | refresh (i : Nat) (newflow : List Flowinfo)
  | newVNFInstance
  | check (c : Check)
  | scaleInRandom

def Check.exec (fuel : Nat) (s : Algorithms) : Check → Except Fault Algorithms
  | .loadBalancing => Prod.snd <$> loadBalancingCheck s
  | .scaleOut mode draws => Prod.snd <$> scaleOutCheck fuel draws mode s

def Call.exec (fuel : Nat) (s : Algorithms) : Call → Except Fault Algorithms
  | .refresh i newflow => do
      let _ ← get s.globalVNFinfo i
      return { s with globalVNFinfo := s.globalVNFinfo.modify i (VNFinfo.refreshWith · newflow) }
  | .newVNFInstance => .ok (OFMAlgorithm.newVNFInstance s)
  | .check c => c.exec fuel s
  | .scaleInRandom => Prod.snd <$> OFMAlgorithm.scaleInRandom s

/-- A call that returns. -/
def step (fuel : Nat) (s : Algorithms) (call : Call) : Option Algorithms := (call.exec fuel s).toOption

end OFM.OFMAlgorithm
