import OFM.Algorithms.Migration
import OFM.Lib.FirstFit
import OFM.Lib.Greedy

/-!
# How load balancing distributes flows

What `LoadBalancingCheck` is to do, said of the network functions that it finds: which flows leave a heavy one, and
which of the light ones has room for them. Nothing here is a value of the check.
-/

namespace OFM.OFMAlgorithm
open OFM.Lib

/-! ## Flows that leave -/

/-- Both tests of step 2. -/
def MayMigrate (flow : Flowinfo) : Prop :=
  sfmt ≤ flow.sla - laProcess ∧ (sfmt + 2 * laProcess) * flow.flowRate ≤ bufferSize

instance (flow : Flowinfo) : Decidable (MayMigrate flow) := inferInstanceAs (Decidable (_ ∧ _))

theorem markFlow_eq (flow : Flowinfo) :
    markFlow flow = if MayMigrate flow then { flow with migrateFlag := true } else flow := rfl

/-- The flows of a network function, the slowest first. -/
def byRate (vnf : VNFinfo) : List Flowinfo := vnf.flow.insertionSort fun f₁ f₂ => f₁.flowRate ≤ f₂.flowRate

def flowAt (vnf : VNFinfo) (k : Nat) : Flowinfo := (byRate vnf)[k]?.getD ⟨0, 0, 0, false⟩

/-- The load that the flow at a position makes. -/
def shareAt (vnf : VNFinfo) (k : Nat) : ℚ := (flowAt vnf k).flowRate / maxLoad

/-- The flow may be migrated, or has a mark of before. -/
def mayLeave (flow : Flowinfo) : Bool := flow.migrateFlag ∨ MayMigrate flow

/-- From the fastest flow down, each leaves that may be migrated and without which the load is not below the
average. -/
def Leave (avgLoad : ℚ) (vnf : VNFinfo) (chosen : Nat → Bool) : Prop :=
  Greedy.Chosen (fun k => mayLeave (flowAt vnf k)) (shareAt vnf) avgLoad vnf.loadPercentage vnf.flow.length chosen

/-- The loads of the flows that leave. -/
def leaving (avgLoad : ℚ) (chosen : Nat → Bool) (vnf : VNFinfo) : List ℚ :=
  if avgLoad < vnf.loadPercentage then ((List.range vnf.flow.length).filter chosen).map (shareAt vnf) else []

/-! ## Where there is room -/

def loadBefore (s : Algorithms) (i : Nat) : ℚ := ((s.globalVNFinfo[i]?).map VNFinfo.loadPercentage).getD 0

/-- The light ones, the one with the highest load first. -/
def lightOnes (s : Algorithms) : List Nat :=
  (((List.range s.globalVNFinfo.length).filter fun i => loadBefore s i ≤ averageLoad s.globalVNFinfo).insertionSort
    fun i j => loadBefore s i ≤ loadBefore s j).reverse

/-- Loads that go to the light ones up to the average. -/
def room (s : Algorithms) (shares : List ℚ) : Packing ℚ where
  items := shares.length
  size f := shares.getD f 0
  load k := ((lightOnes s)[k]?.map (loadBefore s)).getD 0
  limit := averageLoad s.globalVNFinfo

/-- The flows that leave, by their loads, and the light ones that they go to: the fastest first, to the first of the
light ones that stays below the average, or where the flow is due. -/
structure Distribution (s : Algorithms) where
  chosen : Nat → Nat → Bool
  leave : ∀ (i : Nat) (vnf : VNFinfo), s.globalVNFinfo[i]? = some vnf →
    averageLoad s.globalVNFinfo < vnf.loadPercentage → Leave (averageLoad s.globalVNFinfo) vnf (chosen i)
  shares : List ℚ
  sorted : shares.Pairwise (· ≤ ·)
  perm : shares.Perm
    (s.globalVNFinfo.zipIdx.flatMap fun vnf => leaving (averageLoad s.globalVNFinfo) (chosen vnf.2) vnf.1)
  goes : Nat → Nat → Bool
  firstFit : (room s shares).FirstFit goes

namespace Distribution

variable {s : Algorithms}

/-- The loads of the flows that leave a network function. -/
def sent (d : Distribution s) (i : Nat) : List ℚ :=
  ((s.globalVNFinfo[i]?).map (leaving (averageLoad s.globalVNFinfo) (d.chosen i))).getD []

/-- One of the light ones takes the flow. -/
def Placed (d : Distribution s) (f : Nat) : Prop := ∃ k < (lightOnes s).length, d.goes k f

instance (d : Distribution s) (f : Nat) : Decidable (d.Placed f) :=
  inferInstanceAs (Decidable (∃ k < (lightOnes s).length, d.goes k f = true))

/-- The load that there is no room for. -/
def rest (d : Distribution s) : ℚ := ∑ f ∈ Finset.range d.shares.length with ¬ d.Placed f, d.shares.getD f 0

/-- What comes to the light one at a position. -/
def taken (d : Distribution s) (k : Nat) : ℚ :=
  ∑ f ∈ Finset.range d.shares.length with d.goes k f, d.shares.getD f 0

/-- The load of a network function when what leaves has left, and what there is room for has come. -/
def credited (d : Distribution s) (i : Nat) : ℚ :=
  loadBefore s i - (d.sent i).sum +
    ∑ k ∈ Finset.range (lightOnes s).length with (lightOnes s)[k]? = some i, d.taken k

/-- The same where the network function 0 gets the rest. -/
def after (d : Distribution s) (i : Nat) : ℚ := d.credited i + if i = 0 then d.rest else 0

/-- There is room for every flow that leaves. -/
def PlacesAll (d : Distribution s) : Prop := ∀ f < d.shares.length, d.Placed f

/-- The rest is no load, or the network function 0 can have it: with it all loads are the average, or its load is as
far above the average of the loads with it as it is below their average without it. -/
def Harmless (d : Distribution s) : Prop :=
  d.rest = 0 ∨ (∀ i < s.globalVNFinfo.length, d.after i = averageLoad s.globalVNFinfo) ∨
    2 * d.credited 0 + d.rest + d.rest / s.globalVNFinfo.length = 2 * averageLoad s.globalVNFinfo

end Distribution

end OFM.OFMAlgorithm
