import OFM.Lib.Machine
import OFM.Controller.Operation

/-!
# The controller and its network functions

An operation together with the network functions it talks to. The state channel of a network function
carries commands to it, in order; what network functions send to the controller is in flight until it is
handed to the operation, and so are the packets the controller sends them.
-/

namespace OFM.Controller
open OFM.Lib

/-- Network functions with the states `ν`, to which `ι` can happen on their data plane. -/
class NetworkFunction (ν : Type) (ι : outParam Type) where
  command : ν → Command → ν × List Message
  stimulus : ν → ι → Option (ν × List Message)
  /-- A packet that the controller has sent arrives. -/
  packet : ν → Packet → ν × List Message

/-- The commands that are sent to a middlebox. -/
def commandsTo (mb : Middlebox) (out : List Effect) : List Command :=
  out.filterMap fun
    | .send mb' cmd => if mb' = mb then some cmd else none
    | _ => none

/-- The packets that are sent back to the instances they came from. -/
def packetsOut (out : List Effect) : List (Middlebox × Packet) :=
  out.filterMap fun
    | .packetOut src _ packet => some (src, packet)
    | _ => none

structure Network (σ ν : Type) extends Session σ where
  nf : Middlebox → ν
  wire : Middlebox → List Command
  inFlight : List (Middlebox × Message)
  packets : List (Middlebox × Packet)

inductive Act (ι : Type)
  /-- A network function reads its next command. -/
  | read (mb : Middlebox)
  /-- A message is handed to the operation. -/
  | deliver (sched : Schedule) (i : Nat)
  | stimulus (mb : Middlebox) (x : ι)
  /-- A packet from the controller reaches its instance. -/
  | forward (i : Nat)
  | packetIn (packet : Packet) (inSwitch : Nat) (inPort : Int)
  | task (i : Nat)

/-- Put-acks and events come over the event channel, all else over the state channel. -/
def Message.onEventChannel : Message → Bool
  | .putAck .. | .reprocess _ => true
  | _ => false

namespace Network

variable {σ ν ι : Type} [Handlers σ] [NetworkFunction ν ι]

/-- The network when the operation has just been executed. -/
def start (op : σ) (nf : Middlebox → ν) : Network σ ν where
  toSession := .start op
  nf := nf
  wire mb := commandsTo mb (Handlers.execute op).out
  inFlight := []
  packets := packetsOut (Handlers.execute op).out

/-- Takes over what a handler returns. -/
def record (n : Network σ ν) (r : Emit Effect σ) : Network σ ν :=
  { n with
    toSession := n.toSession.record r
    wire := fun mb => n.wire mb ++ commandsTo mb r.out
    packets := n.packets ++ packetsOut r.out }

def note (n : Network σ ν) (source : Middlebox) (msg : Message) : Network σ ν :=
  { n with toSession := n.toSession.note source msg }

/-- A network function has answered. -/
def answer (n : Network σ ν) (mb : Middlebox) (r : ν × List Message) : Network σ ν :=
  { n with
    nf := Function.update n.nf mb r.1
    inFlight := n.inFlight ++ r.2.map fun msg => (mb, msg) }

variable [PacketUtil]

/-- One act. An exception that leaves a handler does not close the channel, as `exceptionCaught` does, so that there
are more runs than the program has. -/
def step (n : Network σ ν) : Act ι → Option (Network σ ν)
  | .read mb =>
      match n.wire mb with
      | [] => none
      | cmd :: rest => some (answer { n with wire := Function.update n.wire mb rest } mb
          (NetworkFunction.command (n.nf mb) cmd))
  | .deliver sched i =>
      match n.inFlight[i]? with
      | none => none
      | some (source, msg) =>
          let n := { n with inFlight := n.inFlight.eraseIdx i }
          if (Handlers.base n.op).isFailed then some n
          else some ((n.record (Handlers.receive sched source msg n.op)).note source msg)
  | .stimulus mb x => (NetworkFunction.stimulus (n.nf mb) x).map (n.answer mb)
  | .forward i =>
      match n.packets[i]? with
      | none => none
      | some (mb, packet) => some (answer { n with packets := n.packets.eraseIdx i } mb
          (NetworkFunction.packet (n.nf mb) packet))
  | .packetIn packet inSwitch inPort =>
      some (n.record (Handlers.receivePacket packet inSwitch inPort n.op))
  | .task i =>
      ((Handlers.base n.op).runTask i).map fun r =>
        n.record (.emit (Handlers.setBase n.op r.val) r.out)

/-- Each channel delivers in the order in which it was sent to. -/
def InSequence (n : Network σ ν) : Act ι → Prop
  | .deliver _ i => ∀ x y, n.inFlight[i]? = some y → x ∈ n.inFlight.take i →
      ¬ (x.1 = y.1 ∧ x.2.onEventChannel = y.2.onEventChannel)
  | _ => True

/-- No command, message or packet is on the way, and no task is waiting. -/
structure Quiet (n : Network σ ν) : Prop where
  wire : ∀ mb, n.wire mb = []
  inFlight : n.inFlight = []
  packets : n.packets = []
  tasks : (Handlers.base n.op).threadPool = []

/-! ## What a step is -/

variable {n n' : Network σ ν}

theorem step_read {mb : Middlebox} (h : n.step (.read mb) = some n') :
    ∃ cmd rest, n.wire mb = cmd :: rest ∧
      n' = answer { n with wire := Function.update n.wire mb rest } mb
        (NetworkFunction.command (n.nf mb) cmd) := by
  simp only [step] at h
  split at h
  · cases h
  · rename_i cmd rest hw
    exact ⟨cmd, rest, hw, (Option.some.inj h).symm⟩

theorem step_deliver {sched : Schedule} {i : Nat} (h : n.step (.deliver sched i) = some n') :
    ∃ source msg before behind, n.inFlight = before ++ (source, msg) :: behind ∧
      n.inFlight.take i = before ∧ n.inFlight[i]? = some (source, msg) ∧
      (((Handlers.base n.op).failed = true ∧ n' = { n with inFlight := before ++ behind }) ∨
      ((Handlers.base n.op).failed = false ∧
        n' = ((record { n with inFlight := before ++ behind }
          (Handlers.receive sched source msg n.op)).note source msg))) := by
  simp only [step] at h
  split at h
  · cases h
  · rename_i source msg hx
    obtain ⟨hi, hget⟩ := List.getElem?_eq_some_iff.mp hx
    refine ⟨source, msg, n.inFlight.take i, n.inFlight.drop (i + 1), ?_, rfl, hx, ?_⟩
    · rw [← hget, ← List.drop_eq_getElem_cons hi, List.take_append_drop]
    · rw [List.eraseIdx_eq_take_drop_succ] at h
      cases hf : (Handlers.base n.op).failed with
      | true =>
          rw [if_pos (by exact hf)] at h
          exact Or.inl ⟨rfl, (Option.some.inj h).symm⟩
      | false =>
          rw [if_neg (by simp [Operation.isFailed, hf])] at h
          exact Or.inr ⟨rfl, (Option.some.inj h).symm⟩

omit [Handlers σ] [PacketUtil] in
/-- What is left in flight was in flight. -/
theorem mem_inFlight_of_left {x : Middlebox × Message} {before behind : List (Middlebox × Message)}
    (hin : n.inFlight = before ++ x :: behind) : ∀ y ∈ before ++ behind, y ∈ n.inFlight := by
  intro y hy
  rw [hin]
  exact ((List.sublist_cons_self x behind).append_left before).subset hy

theorem step_stimulus {mb : Middlebox} {x : ι} (h : n.step (.stimulus mb x) = some n') :
    ∃ r, NetworkFunction.stimulus (n.nf mb) x = some r ∧ n' = n.answer mb r := by
  simp only [step, Option.map_eq_some_iff] at h
  obtain ⟨r, hr, rfl⟩ := h
  exact ⟨r, hr, rfl⟩

theorem step_forward {i : Nat} (h : n.step (.forward i) = some n') :
    ∃ mb packet before behind, n.packets = before ++ (mb, packet) :: behind ∧
      n' = answer { n with packets := before ++ behind } mb
        (NetworkFunction.packet (n.nf mb) packet) := by
  simp only [step] at h
  split at h
  · cases h
  · rename_i mb packet hx
    obtain ⟨hi, hget⟩ := List.getElem?_eq_some_iff.mp hx
    refine ⟨mb, packet, n.packets.take i, n.packets.drop (i + 1), ?_, ?_⟩
    · rw [← hget, ← List.drop_eq_getElem_cons hi, List.take_append_drop]
    · rw [List.eraseIdx_eq_take_drop_succ] at h
      exact (Option.some.inj h).symm

theorem packet_of_forward {i : Nat} (h : n.step (.forward i) = some n') :
    ∃ mb packet, n.packets[i]? = some (mb, packet) ∧
      n' = answer { n with packets := n.packets.eraseIdx i } mb (NetworkFunction.packet (n.nf mb) packet) := by
  simp only [step] at h
  split at h
  · cases h
  · rename_i mb packet hp
    exact ⟨mb, packet, hp, (Option.some.inj h).symm⟩

theorem step_packetIn {packet : Packet} {inSwitch : Nat} {inPort : Int}
    (h : n.step (.packetIn packet inSwitch inPort) = some n') :
    n' = n.record (Handlers.receivePacket packet inSwitch inPort n.op) :=
  (Option.some.inj h).symm

theorem step_task {i : Nat} (h : n.step (.task i) = some n') :
    ∃ task, (Handlers.base n.op).threadPool[i]? = some task ∧
      n' = n.record (.emit
        (Handlers.setBase n.op { Handlers.base n.op with
          threadPool := (Handlers.base n.op).threadPool.eraseIdx i })
        ((Handlers.base n.op).call task)) := by
  simp only [step, Operation.runTask, Option.map_map, Option.map_eq_some_iff] at h
  obtain ⟨task, ht, rfl⟩ := h
  exact ⟨task, ht, rfl⟩

/-- The operation of a network takes the steps it takes by itself. -/
theorem session_of_step {a : Act ι} (h : n.step a = some n') :
    n'.toSession = n.toSession ∨ ∃ input, n.toSession.step input = some n'.toSession := by
  cases a with
  | read mb =>
      obtain ⟨cmd, rest, -, rfl⟩ := step_read h
      exact Or.inl rfl
  | deliver sched i =>
      obtain ⟨source, msg, before, behind, -, -, -, ⟨hf, rfl⟩ | ⟨hf, rfl⟩⟩ := step_deliver h
      · exact Or.inl rfl
      · refine Or.inr ⟨.message sched source msg, ?_⟩
        simp only [Session.step, Operation.isFailed, hf, Bool.false_eq_true, ↓reduceIte]
        rfl
  | stimulus mb x =>
      obtain ⟨r, -, rfl⟩ := step_stimulus h
      exact Or.inl rfl
  | forward i =>
      obtain ⟨mb, packet, before, behind, -, rfl⟩ := step_forward h
      exact Or.inl rfl
  | packetIn packet inSwitch inPort =>
      cases step_packetIn h
      exact Or.inr ⟨.packet packet inSwitch inPort, rfl⟩
  | task i =>
      obtain ⟨task, ht, rfl⟩ := step_task h
      refine Or.inr ⟨.task i, ?_⟩
      simp only [Session.step, Operation.runTask, ht, Option.map_some]
      rfl

/-- What holds of an operation in every session of its own holds in every network. -/
theorem session_invariant {I : Session σ → Prop} {op : σ} {nf : Middlebox → ν} {as : List (Act ι)}
    (h₀ : I (.start op)) (hstep : ∀ s input s', I s → s.step input = some s' → I s')
    (hr : Machine.run step (start op nf) as = some n) : I n.toSession := by
  refine Machine.run_invariant' (I := fun n : Network σ ν => I n.toSession) h₀ ?_ hr
  intro t a t' ht hs
  rcases session_of_step hs with he | ⟨input, he⟩
  · rw [he]; exact ht
  · exact hstep _ input _ ht he

end Network

end OFM.Controller
