import OFM.Bro.Lemmas.FlowsActive
import OFM.Bro.Theorems.FoundAgain
import OFM.Prads.Lemmas.FlowsActive

/-!
# When `flows_active` counts flows

Bro announces a connection before it knows whether there will be one, and not at all when it takes the place
of another; a put is counted though it may replace a connection. In PRADS every deletion is counted once more
than it deletes.
-/

namespace OFM.Shared
open OFM.Lib

/-- Over every run of an instance, the count is that of the flows in the tables after each event if and only if
each event tells the library the truth: in Bro in the state in which it happens, in PRADS whatever the state. -/
theorem flowsActive_iff [Bro.TextArchive] [Prads.Macros] [Prads.PacketPath] [Prads.Serializer] :
    (∀ (hashBytes : List (BitVec 8) → BitVec 64) (heap : Bro.Pointer → Bro.Connection)
      (events : List Bro.FlowEvent) (s : Counted Bro.NetSessions),
      Machine.run (Bro.flowTables hashBytes).countedStep ⟨.start heap, 0⟩ events = some s →
      ((Bro.flowTables hashBytes).AlwaysRight ⟨.start heap, 0⟩ events ↔
        Machine.Along (Bro.flowTables hashBytes).countedStep
          (fun t event => Bro.CountsRight hashBytes t.tables event) ⟨.start heap, 0⟩ events)) ∧
    (∀ (u : Undefined) (inst : Prads.Instance) (events : List Prads.FlowEvent) (s : Counted Prads.Instance),
      inst.tables = Prads.emptyTables →
      Machine.run (Prads.flowTables u).countedStep ⟨inst, 0⟩ events = some s →
      ((Prads.flowTables u).AlwaysRight ⟨inst, 0⟩ events ↔ ∀ event ∈ events, event.CountsRight)) := by
  constructor
  · intro hashBytes heap events s hr
    have hstart : Bro.Settled (.start heap) := fun _ hc => absurd hc (Nat.not_lt_zero _)
    refine FlowTables.alwaysRight_iff hstart ?_ ⟨rfl, le_rfl⟩ ?_ hr
    · exact fun t event out hsettled hs => Bro.flowTables_step_settled hsettled hs
    · exact fun t event out hsettled hs => Bro.flowTables_step_iff hsettled hs
  · intro u inst events s hempty hr
    have hnone : inst.tables.connections = [] := by
      rw [hempty]
      exact List.flatMap_eq_nil_iff.mpr fun _ _ => rfl
    have hstart : (Prads.flowTables u).Right ⟨inst, 0⟩ := by
      refine ⟨?_, le_rfl⟩
      rw [Prads.flowTables]
      dsimp only
      rw [hnone]
      rfl
    have hstep : ∀ t event out, True → (Prads.flowTables u).step t event = some out →
        (((Prads.flowTables u).flows out.1 : Int) = (Prads.flowTables u).flows t + adjusted out.2 ↔
          event.CountsRight) := fun t event out _ hs => Prads.flowTables_step_iff hs
    rw [FlowTables.alwaysRight_iff trivial (fun _ _ _ _ _ => trivial) hstart hstep hr]
    exact Machine.along_action_iff hr

/-! ## Samples -/

/-- A packet for which `NewConn` gives a connection if there is one to set up. -/
def samplePacketEvent (setup : Option Bro.Connection) : letI := Bro.plainArchive; Bro.FlowEvent :=
  letI := Bro.plainArchive
  .event (.packet Bro.samplePacket ⟨setup, false, .consistent, false⟩)

/-- The count with the tables of an instance that has just been started. -/
def startedTables : Counted Bro.NetSessions := ⟨.start fun _ => Bro.ipv4Connection .tcp 0 0 0 0, 0⟩

theorem flowsActive_iff_samples : letI := Bro.plainArchive; letI := Prads.plainMacros
    letI := Prads.plainPath; letI := Prads.plainSerializer
    ((Bro.flowTables fun _ => 0).AlwaysRight startedTables
        [samplePacketEvent (some (Bro.ipv4Connection .tcp 0 0 0 0))] ↔
      Machine.Along (Bro.flowTables fun _ => 0).countedStep
        (fun t event => Bro.CountsRight (fun _ => 0) t.tables event) startedTables
        [samplePacketEvent (some (Bro.ipv4Connection .tcp 0 0 0 0))]) ∧
    ((Prads.flowTables ⟨.zero, fun _ => 0⟩).AlwaysRight ⟨Prads.startedInstance, 0⟩
        [.putPerflow Prads.anyKey (some [1]), .deletePerflow (some Prads.anyKey)] ↔
      ∀ event ∈ [Prads.FlowEvent.putPerflow Prads.anyKey (some [1]), .deletePerflow (some Prads.anyKey)],
        event.CountsRight) := by
  let _ := Bro.plainArchive
  let _ := Prads.plainMacros
  let _ := Prads.plainPath
  let _ := Prads.plainSerializer
  exact ⟨flowsActive_iff.1 (fun _ => 0) _ _ _ rfl, flowsActive_iff.2 ⟨.zero, fun _ => 0⟩ _ _ _ rfl rfl⟩

/-- In Bro, a packet for which there is no connection is counted; in PRADS, a deletion of nothing. -/
theorem not_flowsActive_samples : letI := Bro.plainArchive; letI := Prads.plainMacros
    letI := Prads.plainPath; letI := Prads.plainSerializer
    ¬ (Bro.flowTables fun _ => 0).AlwaysRight startedTables [samplePacketEvent none] ∧
    ¬ (Prads.flowTables ⟨.zero, fun _ => 0⟩).AlwaysRight ⟨Prads.startedInstance, 0⟩
      [.deletePerflow (some Prads.anyKey)] := by
  let _ := Bro.plainArchive
  let _ := Prads.plainMacros
  let _ := Prads.plainPath
  let _ := Prads.plainSerializer
  constructor
  · intro h
    have hright := h [samplePacketEvent none] [] _ rfl rfl
    exact absurd hright.1 (by decide)
  · intro h
    have hright := h [.deletePerflow (some Prads.anyKey)] [] _ rfl rfl
    exact absurd hright.2 (by decide)

end OFM.Shared
