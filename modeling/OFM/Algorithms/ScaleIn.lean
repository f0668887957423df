import OFM.Algorithms.Scaling
import OFM.Lib.LinearProgram

/-!
# Scaling in by a linear program

`Algorithms.java`: `ScaleInCheck`. lp_solve is a parameter, with the calls that are made of it and what is documented
of them. The variable `(s-1)*n+d` says whether the network function `s` is merged into `d`, both counted from 1; a row
of coefficients is a `double[]` that is written over for the next row.
-/

namespace OFM.OFMAlgorithm
open OFM.Lib

/-! ## lp_solve -/

/-- The calls with which a program is written, and the program that is written by them. -/
structure LpSolve where
  Problem : Type
  makeLp : (rows columns : Nat) → Problem
  setBinary : Problem → (column : Nat) → (mustBeBin : Bool) → Problem
  setBounds : Problem → (column : Nat) → (lower upper : ℚ) → Problem
  addConstraint : Problem → (row : List ℚ) → (constrType : Relation) → (rh : ℚ) → Problem
  program : Problem → Program

structure LpSolve.Documented (lib : LpSolve) : Prop where
  makeLp : ∀ columns, lib.program (lib.makeLp 0 columns) = Program.empty columns
  setBinary : ∀ problem column, 1 ≤ column → column ≤ (lib.program problem).columns →
    lib.program (lib.setBinary problem column true) = (lib.program problem).setBinary column
  setBounds : ∀ problem column lower upper, 1 ≤ column → column ≤ (lib.program problem).columns →
    lib.program (lib.setBounds problem column lower upper) = (lib.program problem).setBounds column lower upper
  addConstraint : ∀ problem row constrType rh, row.length = (lib.program problem).columns + 1 →
    lib.program (lib.addConstraint problem row constrType rh) =
      (lib.program problem).addConstraint ⟨row, constrType, rh⟩

/-- The calls with which a program gets an objective and is solved. -/
structure Solver extends LpSolve where
  setObjFn : Problem → (row : List ℚ) → Problem
  setMaxim : Problem → Problem
  solve : Problem → Problem
  getObjective : Problem → ℚ

structure Solver.Documented (lib : Solver) : Prop extends lib.toLpSolve.Documented where
  /-- Where the objective has a greatest value, it is the one that is found. -/
  getObjective : ∀ problem row best, row.length = (lib.program problem).columns + 1 →
    IsGreatest {value | ∃ v, (lib.program problem).Accepts v ∧ valueOf (lib.program problem).columns row v = value} best →
      lib.getObjective (lib.solve (lib.setMaxim (lib.setObjFn problem row))) = best

/-! ## Rows -/

/-- A store in a `double[]`. -/
def store (a : List ℚ) (i : Nat) (v : ℚ) : Except Fault (List ℚ) :=
  if i < a.length then .ok (a.set i v) else .error .indexOutOfBounds

/-- A row is written over the one before it, and added. -/
def addRow (lib : LpSolve) (rh : ℚ) (row : List ℚ → Except Fault (List ℚ)) (st : lib.Problem × List ℚ) :
    Except Fault (lib.Problem × List ℚ) := do
  let coeff ← row st.2
  return (lib.addConstraint st.1 coeff .le rh, coeff)

/-- `coeff3`, for the network function `i`. -/
def row3 (n i : Nat) (coeff3 : List ℚ) : Except Fault (List ℚ) := do
  let coeff3 ← (List.range (n * n + 1)).foldlM (fun coeff3 s => store coeff3 s 0) coeff3
  (List.range' 1 n).foldlM (fun coeff3 s => do
    let coeff3 ← store coeff3 ((i - 1) * n + s) 1
    store coeff3 (n * (s - 1) + i) 1) coeff3

/-- `coeff4`, for the destination `d` and the flows at `f`. -/
def row4 (vnfs : List VNFinfo) (n d f : Nat) (coeff4 : List ℚ) : Except Fault (List ℚ) := do
  let coeff4 ← (List.range coeff4.length).foldlM (fun coeff4 i => store coeff4 i 0) coeff4
  (List.range' 1 n).foldlM (fun coeff4 s => do
    let vnf ← get vnfs (s - 1 : Nat)
    if vnf.flow.length ≤ f then return coeff4
    else
      let flow ← get vnf.flow f
      let coeff4 ← store coeff4 ((s - 1) * n + d) flow.flowRate
      let rate ← get coeff4 ((s - 1) * n + d : Nat)
      store coeff4 ((s - 1) * n + d) (rate * r (sfmt + laProcess - flow.sla))) coeff4

/-- `coeff5`, for the destination `d`. The last element is not set to 0 again. -/
def row5 (vnfs : List VNFinfo) (n d : Nat) (coeff5 : List ℚ) : Except Fault (List ℚ) := do
  let coeff5 ← (List.range (n * n)).foldlM (fun coeff5 i => store coeff5 i 0) coeff5
  (List.range' 1 n).foldlM (fun coeff5 s => do
    let vnf ← get vnfs (s - 1 : Nat)
    store coeff5 ((s - 1) * n + d - 1) vnf.loadPercentage) coeff5

/-! ## `ScaleInCheck` -/

/-- `Collections.max(FlowNum)` of a list that is not empty. -/
def maxFlowNum (vnfs : List VNFinfo) : Nat := ((vnfs.map fun vnf => vnf.flow.length).max?).getD 0

/-- `new double [n*n+1]` -/
def newCoeff (n : Nat) : List ℚ := List.replicate (n * n + 1) 0

/-- `constr 1` and `constr 2` -/
def bounds (lib : LpSolve) (n : Nat) : lib.Problem :=
  let problem := (List.range' 1 (n * n)).foldl (fun problem i => lib.setBinary problem i true) (lib.makeLp 0 (n * n))
  (List.range' 1 n).foldl (fun problem i => lib.setBounds problem ((i - 1) * n + i) 0 0) problem

/-- `constr 3` -/
def constr3 (lib : LpSolve) (n : Nat) (problem : lib.Problem) : Except Fault lib.Problem := do
  let st ← (List.range' 1 n).foldlM (fun st i => addRow lib 1 (row3 n i) st) (problem, newCoeff n)
  return st.1

/-- `constr 4` -/
def constr4 (lib : LpSolve) (vnfs : List VNFinfo) (problem : lib.Problem) : Except Fault lib.Problem := do
  let n := vnfs.length
  let st ← (List.range' 1 n).foldlM (fun st d =>
    (List.range (maxFlowNum vnfs)).foldlM (fun st f => addRow lib (bufferSize / sfmt) (row4 vnfs n d f) st) st)
    (problem, newCoeff n)
  return st.1

/-- `constr 5` -/
def constr5 (lib : LpSolve) (vnfs : List VNFinfo) (problem : lib.Problem) : Except Fault lib.Problem := do
  let n := vnfs.length
  let st ← (List.range' 1 n).foldlM (fun (st : lib.Problem × List ℚ) d => do
    let coeff5 ← row5 vnfs n d st.2
    let vnf ← get vnfs (d - 1 : Nat)
    return (lib.addConstraint st.1 coeff5 .le (thSafe - vnf.loadPercentage), coeff5)) (problem, newCoeff n)
  return st.1

/-- What `ScaleInCheck` has written before it comes to the objective. -/
def scaleInProblem (lib : LpSolve) (vnfs : List VNFinfo) : Except Fault lib.Problem := do
  let problem ← constr3 lib vnfs.length (bounds lib vnfs.length)
  let problem ← constr4 lib vnfs problem
  constr5 lib vnfs problem

/-- `coeffobj`: a network function that is merged away saves its machine and costs what its flows wait. -/
def rowObj (vnfs : List VNFinfo) (n : Nat) (coeffobj : List ℚ) : Except Fault (List ℚ) :=
  (List.range' 1 n).foldlM (fun coeffobj s => do
    let vnf ← get vnfs (s - 1 : Nat)
    let cost ← costOf vnf.flow sfmt (List.range vnf.flowNum.toNat)
    (List.range' 1 n).foldlM (fun coeffobj d => store coeffobj ((s - 1) * n + d) (benefitVM - cost)) coeffobj) coeffobj

def scaleInCheck (lib : Solver) (vnfs : List VNFinfo) : Except Fault ℚ := do
  let problem ← scaleInProblem lib.toLpSolve vnfs
  let coeffobj ← rowObj vnfs vnfs.length (newCoeff vnfs.length)
  return lib.getObjective (lib.solve (lib.setMaxim (lib.setObjFn problem coeffobj)))

end OFM.OFMAlgorithm
