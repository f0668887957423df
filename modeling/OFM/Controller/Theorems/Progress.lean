import OFM.Controller.Lemmas.TransferComplete
import OFM.Controller.Theorems.Finish

/-!
# No stuck moves

When nothing of a move is on the way any more, it has finished, unless it holds chunks back and there
are none.
-/

namespace OFM.Controller
open OFM.Lib TransferOperation

variable [PacketUtil]

/-! ## Operations at rest -/

namespace Network

variable {σ : Type} [TransferOperation σ] {op : σ} {nf : Middlebox → Holder}
  {n : Network σ Holder} {as : List (Act ReprocessMessage)}

/-- The messages of all requested classes. -/
def Requested (op : σ) (nf : Middlebox → Holder) : List StateMessage :=
  (transfer op).classes.flatMap (nf (transfer op).src).held

theorem requested_contents (op : σ) (nf : Middlebox → Holder) :
    ((transfer op).classes : Multiset StateClass).bind (contentsOf (nf (transfer op).src).held) =
      ((Requested op nf).map StateMessage.content : List Content) := by
  rw [Requested, List.map_flatMap, ← Multiset.coe_bind]
  rfl

/-- The transfer is complete, and it has been noticed, unless nothing has been acked. -/
theorem complete_of_resting (hop : Fresh op) (hnf : ∀ mb, (nf mb).raises = false)
    (hne : (transfer op).ordered = true → (transfer op).src ≠ (transfer op).dst)
    (hk : Machine.Along step KeepsChunks (start op nf : Network σ Holder) as)
    (hin : Machine.Along step ArrivesInTime (start op nf : Network σ Holder) as)
    (hr : Machine.run step (start op nf) as = some n) (hrest : Resting n) :
    (transfer n.op).Complete := by
  obtain ⟨hsound, -⟩ := sound_run hop hnf hne hr
  obtain ⟨late, haccounts, hlate⟩ := accounts_run hop hnf hne hk hr
  rw [hlate hin] at haccounts
  exact hsound.complete (contentsOf_classed _) hrest haccounts

/-- Nothing has been acked when there was nothing to put. -/
theorem acked_eq_zero (hop : Fresh op) (hnf : ∀ mb, (nf mb).raises = false)
    (hord : (transfer op).ordered = false)
    (hk : Machine.Along step KeepsChunks (start op nf : Network σ Holder) as)
    (hr : Machine.run step (start op nf) as = some n) (hc : (transfer n.op).Complete) :
    n.flow.acked = 0 ↔ Requested op nf = [] := by
  have hne : (transfer op).ordered = true → (transfer op).src ≠ (transfer op).dst := by
    rw [hord]
    exact fun h => by cases h
  have hmoved := allMoved hop hnf hord hk hr hc
  have hargs := (sound_run hop hnf hne hr).2
  have hcard : n.flow.acked.card = (Requested op nf).length := by
    rw [show n.flow.acked = _ from hmoved.putAcked, Multiset.card_map, hmoved.put,
      Multiset.coe_card, hargs.classes, Requested, List.length_flatMap, List.length_flatMap]
    simp only [List.length_map]
  rw [← Multiset.card_eq_zero, hcard, List.length_eq_zero_iff]

end Network

/-! ## Moves -/

namespace MoveOperation

/-- A move that holds its chunks back. -/
def sampleHeld : MoveOperation := new 1 (sampleMove .perflow .noGuarantee .noOptimization)

/-- One chunk is got, put when the get has been acked, and acked. -/
def sampleHeldTransfer : List (Act ReprocessMessage) :=
  [.read sampleSrc, .deliver .inOrder 0, .deliver .inOrder 0, .read sampleDst, .deliver .inOrder 0]

theorem sampleHeld_resting (chunks : List (Int × UInt16)) (as : List (Act ReprocessMessage))
    {n : Network MoveOperation Holder}
    (hr : Machine.run Network.step (Network.start sampleHeld (perflowHolders chunks)) as = some n)
    (hsrc : n.wire n.op.src = []) (hdst : n.wire n.op.dst = []) (hin : n.inFlight = [])
    (hpool : n.op.threadPool = []) : Network.Resting n := by
  have hargs : (sampleMove .perflow .noGuarantee .noOptimization).Admitted := by decide
  have hne : (transfer sampleHeld).ordered = true →
      (transfer sampleHeld).src ≠ (transfer sampleHeld).dst := by decide
  have hsound := (Network.sound_run (fresh_new 1 hargs) (perflowHolders_raises chunks) hne hr).1
  have htasks : chunkTasks n.op.threadPool = [] := by rw [hpool]; rfl
  exact hsound.routed.resting hsrc hdst hin htasks

end MoveOperation

end OFM.Controller
