import Mathlib.Algebra.BigOperators.Group.List.Basic
import Mathlib.Algebra.Field.Rat
import Mathlib.Data.List.Sort
import Mathlib.Data.Rat.Defs

/-!
# Flows, network functions and migrations

`Flowinfo.java`, `VNFinfo.java` and the constants of `AlgorithmConstants.java`, where a `double` is an exact
rational. `Algorithms.java`: the list of planned migrations and how it is carried out, and `LoadBalancingCheck`.
The list is a field, and no method clears it.
-/

namespace OFM.OFMAlgorithm

/-! ## Constants -/

def thLow : ℚ := 30 / 100
def thHigh : ℚ := 99 / 100
def thSafe : ℚ := 60 / 100
def penaltyAlpha : ℚ := 1
def migtimeGamma : ℚ := 39205 / 1000
def migtimeEta : ℚ := 29545 / 10000
def benefitVM : ℚ := 1000000
def maxLoad : ℚ := 103324
def bufferSize : ℚ := 100000000
def sfmt : ℚ := 42160 / 1000
def laProcess : ℚ := 50

def scaleOutModeRandom : Int := 0
def scaleOutModeGreedy : Int := 1
def scaleOutModeBest : Int := 3

/-! ## Lists -/

inductive Fault
  | indexOutOfBounds
  | stackOverflow
  /-- Not an exception: the call has not returned yet. -/
  | running
  deriving DecidableEq, Repr

/-- `List.get` with an `int` -/
def get {α : Type} (l : List α) (i : Int) : Except Fault α :=
  if 0 ≤ i then
    match l[i.toNat]? with
    | some a => .ok a
    | none => .error .indexOutOfBounds
  else .error .indexOutOfBounds

/-! ## Flows and network functions -/

structure Flowinfo where
  flowRate : ℚ
  sla : ℚ
  flowid : Int
  migrateFlag : Bool
  deriving DecidableEq

/-- What a flow is, whatever the number it has in its list and the flag. -/
def Flowinfo.key (flow : Flowinfo) : ℚ × ℚ := (flow.flowRate, flow.sla)

structure VNFinfo where
  vnfId : Int
  flow : List Flowinfo
  loadPercentage : ℚ
  flowNum : Int
  deriving DecidableEq

namespace VNFinfo

/-- The constructor sets neither number, so that they are 0. -/
def new : VNFinfo := ⟨0, [], 0, 0⟩

/-- The load of the flows. -/
def load (vnf : VNFinfo) : ℚ := (vnf.flow.map Flowinfo.flowRate).sum / maxLoad

/-- `Refresh()` -/
def refresh (vnf : VNFinfo) : VNFinfo :=
  { vnf with loadPercentage := vnf.load, flowNum := vnf.flow.length }

/-- `Refresh(newflow)`, which leaves `FlowNum` alone. -/
def refreshWith (vnf : VNFinfo) (newflow : List Flowinfo) : VNFinfo :=
  let vnf := { vnf with flow := newflow }
  { vnf with loadPercentage := vnf.load }

end VNFinfo

/-! ## Reading a list -/

variable {α : Type} {l : List α} {i : Int}

theorem get_eq {n : Nat} {a : α} (h : l[n]? = some a) : get l n = .ok a := by
  rw [get, if_pos (Int.natCast_nonneg n), Int.toNat_natCast, h]

theorem get_cases (l : List α) (i : Int) :
    (∃ (n : Nat) (a : α), i = n ∧ l[n]? = some a ∧ get l i = .ok a) ∨
      get l i = .error .indexOutOfBounds := by
  rw [get]
  split
  · rename_i h
    split
    · rename_i a ha
      exact Or.inl ⟨i.toNat, a, (Int.toNat_of_nonneg h).symm, ha, rfl⟩
    · exact Or.inr rfl
  · exact Or.inr rfl

theorem get_map {β : Type} (f : α → β) (l : List α) (i : Int) : get (l.map f) i = (get l i).map f := by
  rw [get, get, List.getElem?_map]
  split
  · cases l[i.toNat]? <;> rfl
  · rfl

/-! ## Migrations -/

/-- The destination is -1 as long as there is none. -/
structure MigrateTuple where
  srcVNFid : Int
  flowid : Nat
  dstVNFid : Int
  deriving DecidableEq

structure Algorithms where
  migrateInfo : List MigrateTuple
  globalVNFinfo : List VNFinfo
  vnfNum : Int

/-! ## Carrying out the plan -/

/-- The body of the loop of `MigrateTotal`. The flow is renumbered where it is, added to the destination
and removed from its source. -/
def migrateOne (vnfs : List VNFinfo) (tuple : MigrateTuple) : Except Fault (List VNFinfo) := do
  let src ← get vnfs tuple.srcVNFid
  let flow ← get src.flow tuple.flowid
  let dst ← get vnfs tuple.dstVNFid
  let moved := { flow with flowid := dst.flowNum }
  let vnfs := vnfs.modify tuple.srcVNFid.toNat fun vnf =>
    { vnf with flow := vnf.flow.set tuple.flowid moved }
  let vnfs := vnfs.modify tuple.dstVNFid.toNat fun vnf =>
    { vnf with flow := vnf.flow ++ [moved] }.refresh
  return vnfs.modify tuple.srcVNFid.toNat fun vnf =>
    { vnf with flow := vnf.flow.eraseIdx tuple.flowid }.refresh

/-- `MigrateTotal`: from the largest number of a flow to the smallest. -/
def migrateTotal (s : Algorithms) : Except Fault Algorithms := do
  let plan := s.migrateInfo.insertionSort fun t₁ t₂ => t₁.flowid ≤ t₂.flowid
  let vnfs ← plan.reverse.foldlM migrateOne s.globalVNFinfo
  return { s with migrateInfo := plan, globalVNFinfo := vnfs }

/-- `NewVNFInstance`, which sets no id. -/
def newVNFInstance (s : Algorithms) : Algorithms :=
  { s with globalVNFinfo := s.globalVNFinfo ++ [VNFinfo.new], vnfNum := s.vnfNum + 1 }

/-! ## Load balancing -/

def averageLoad (vnfs : List VNFinfo) : ℚ :=
  (vnfs.map VNFinfo.loadPercentage).sum / vnfs.length

/-- Step 2: the flow is marked when it can be migrated in time and buffered meanwhile. -/
def markFlow (flow : Flowinfo) : Flowinfo :=
  if sfmt ≤ flow.sla - laProcess ∧ (sfmt + 2 * laProcess) * flow.flowRate ≤ bufferSize then
    { flow with migrateFlag := true }
  else flow

/-- Step 3 for one flow: the load that is left, and the plan. -/
def planFlow (avgLoad : ℚ) (vnfId : Int) (st : ℚ × List MigrateTuple) (flow : Flowinfo × Nat) :
    ℚ × List MigrateTuple :=
  if ¬ flow.1.migrateFlag then st
  else if st.1 - flow.1.flowRate / maxLoad < avgLoad then st
  else (st.1 - flow.1.flowRate / maxLoad, st.2 ++ [⟨vnfId, flow.2, -1⟩])

/-- Steps 2 and 3 for one of the heavy ones: its flows are marked and sorted by their rate, and planned
from the largest to the smallest. -/
def planVNF (avgLoad : ℚ) (vnf : VNFinfo) : VNFinfo × List MigrateTuple :=
  let flow := (vnf.flow.map markFlow).insertionSort fun f₁ f₂ => f₁.flowRate ≤ f₂.flowRate
  let st := flow.zipIdx.reverse.foldl (planFlow avgLoad vnf.vnfId) (vnf.loadPercentage, [])
  ({ vnf with flow, loadPercentage := st.1 }, st.2)

/-- The light ones are left as they are. -/
def planned (avgLoad : ℚ) (vnf : VNFinfo) : VNFinfo × List MigrateTuple :=
  if avgLoad < vnf.loadPercentage then planVNF avgLoad vnf else (vnf, [])

/-- `LightVNFList`, sorted by the load: where its elements are in the list of all. -/
def lightVNFs (avgLoad : ℚ) (vnfs : List VNFinfo) : List Nat :=
  ((vnfs.zipIdx.filter fun vnf => ¬ avgLoad < vnf.1.loadPercentage).insertionSort
    fun v₁ v₂ => v₁.1.loadPercentage ≤ v₂.1.loadPercentage).map Prod.snd

/-- The flow a tuple refers to. -/
def flowOf (vnfs : List VNFinfo) (tuple : MigrateTuple) : Except Fault Flowinfo := do
  let src ← get vnfs tuple.srcVNFid
  get src.flow tuple.flowid

/-- `sort` with the comparator `TupleFlowRateComparator`, which looks up the flows of what it compares. A
list of one element or none is not compared. -/
def sortByFlowRate (vnfs : List VNFinfo) (plan : List MigrateTuple) :
    Except Fault (List MigrateTuple) := do
  if plan.length < 2 then return plan
  let rated ← plan.mapM fun tuple => do
    let flow ← flowOf vnfs tuple
    return (flow.flowRate, tuple)
  return (rated.insertionSort fun r₁ r₂ => r₁.1 ≤ r₂.1).map Prod.snd

/-- The tuples, the load of the destination and the variable `end`. -/
structure Assignment where
  plan : List MigrateTuple
  dstLoad : ℚ
  last : Nat

/-- The body of the inner loop of Step 4, for the destination at `d` of the light ones. -/
def assignTuple (vnfs : List VNFinfo) (avgLoad : ℚ) (d : Nat) (vnfId : Int) (st : Assignment)
    (f : Nat) : Except Fault Assignment := do
  let tuple ← get st.plan f
  if 0 ≤ tuple.dstVNFid then return st
  -- `d` is taken for an id here.
  let plan := if d = 0 then st.plan.modify f fun tuple => { tuple with dstVNFid := d } else st.plan
  let flow ← flowOf vnfs tuple
  if st.dstLoad + flow.flowRate / maxLoad < avgLoad ∨ f = st.last then
    return {
      plan := plan.modify f fun tuple => { tuple with dstVNFid := vnfId }
      dstLoad := st.dstLoad + flow.flowRate / maxLoad
      last := if f = st.last then st.last + 1 else st.last }
  else return { st with plan }

/-- The body of the outer loop of Step 4. The state has the variable `end` as its last component. -/
def assignVNF (avgLoad : ℚ) (st : List VNFinfo × List MigrateTuple × Nat) (light : Nat × Nat) :
    Except Fault (List VNFinfo × List MigrateTuple × Nat) := do
  let (vnfs, plan, last) := st
  let vnf ← get vnfs light.1
  let result ← (List.range plan.length).reverse.foldlM
    (assignTuple vnfs avgLoad light.2 vnf.vnfId) ⟨plan, vnf.loadPercentage, last⟩
  let vnfs := vnfs.modify light.1 fun vnf => { vnf with loadPercentage := result.dstLoad }
  return (vnfs, result.plan, result.last)

def variance (x : List ℚ) : ℚ :=
  (x.map fun a => a * a).sum / x.length - (x.sum / x.length) ^ 2

/-- A quotient that is a number. -/
def quotient (a b : ℚ) : Option ℚ := if b = 0 then none else some (a / b)

def loadBalancingCheck (s : Algorithms) : Except Fault (Option ℚ × Algorithms) := do
  let loadBefore := s.globalVNFinfo.map VNFinfo.loadPercentage
  let avgLoad := averageLoad s.globalVNFinfo
  let light := lightVNFs avgLoad s.globalVNFinfo
  let vnfs := s.globalVNFinfo.map fun vnf => (planned avgLoad vnf).1
  let plan := s.migrateInfo ++ s.globalVNFinfo.flatMap fun vnf => (planned avgLoad vnf).2
  let plan ← sortByFlowRate vnfs plan
  let (vnfs, plan, _) ← light.zipIdx.reverse.foldlM (assignVNF avgLoad) (vnfs, plan, 0)
  let loadAfter := vnfs.map VNFinfo.loadPercentage
  let s ← migrateTotal { s with migrateInfo := plan, globalVNFinfo := vnfs }
  return (quotient (variance loadBefore) (variance loadAfter), s)

end OFM.OFMAlgorithm
