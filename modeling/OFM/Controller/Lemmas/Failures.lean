import OFM.Controller.SdmbnManager
import OFM.Controller.Lemmas.MoveEffects
import OFM.Controller.Lemmas.Share
import OFM.Controller.Lemmas.TransferCopy
import OFM.Controller.Lemmas.TransferMove

/-!
# When an operation fails

An operation fails by `fail` alone, which tells so; and its id stays.
-/

namespace OFM.Controller
open OFM.Lib

/-- What a handler may do to the base of an operation. -/
structure Steady {σ : Type} [Handlers σ] (op : σ) (r : Emit Effect σ) : Prop where
  id : (Handlers.base r.val).id = (Handlers.base op).id
  failed : (Handlers.base r.val).failed = (Handlers.base op).failed ∨ .operationFailed ∈ r.out

theorem Steady.of_failed_eq {σ : Type} [Handlers σ] {op : σ} {r : Emit Effect σ}
    (hid : (Handlers.base r.val).id = (Handlers.base op).id)
    (hfailed : (Handlers.base r.val).failed = (Handlers.base op).failed) : Steady op r :=
  ⟨hid, Or.inl hfailed⟩

variable [PacketUtil]

/-! ## Moves, copies, moves of configuration -/

namespace MoveOperation

theorem failed_checkIfStateMoved (op : MoveOperation) (sched : Schedule) :
    (op.checkIfStateMoved sched).val.failed = op.failed ∨
      .operationFailed ∈ (op.checkIfStateMoved sched).out := by
  rcases op.checkIfStateMoved_cases sched with
    ⟨-, h⟩ | ⟨-, -, -, h⟩ | ⟨-, -, _, _, _, -, -, h⟩ | ⟨-, -, _, -, h⟩ | ⟨-, -, _, -, h⟩
  · exact Or.inl (by rw [h])
  · exact Or.inl (by rw [h])
  · exact Or.inr (by rw [h]; simp)
  · exact Or.inl (by rw [h])
  · exact Or.inl (by rw [h])

theorem failed_receive (sched : Schedule) (source : Middlebox) (msg : Message) (op : MoveOperation) :
    (receive sched source msg op).val.failed = op.failed ∨
      .operationFailed ∈ (receive sched source msg op).out := by
  have hputAck : ∀ (k : Counters) hashkey,
      (receivePutAckOf { op with counters := k } sched hashkey).val.failed = op.failed ∨
        .operationFailed ∈ (receivePutAckOf { op with counters := k } sched hashkey).out := by
    intro k hashkey
    obtain ⟨_, _, rfl, rfl, ⟨-, op', hop', h⟩ | ⟨_, _, _, _, -, -, h⟩⟩ :=
      receivePutAckOf_cases { op with counters := k } sched hashkey
    · have hfailed : op'.failed = op.failed := by
        rw [hop']
        rfl
      rw [h, ← hfailed]
      exact (failed_checkIfStateMoved op' sched).imp_right (List.mem_append_right _)
    · exact Or.inl (by rw [h]; rfl)
  have hgetAck : ∀ cls other count,
      (op.receiveGetAckOf sched cls other count).val.failed = op.failed ∨
        .operationFailed ∈ (op.receiveGetAckOf sched cls other count).out := by
    intro cls other count
    unfold receiveGetAckOf
    dsimp only
    split
    · split <;> exact Or.inl rfl
    · exact failed_checkIfStateMoved _ sched
  have hkept : ∀ m : ReprocessMessage, (op.receiveSrcReprocess m).val.failed = op.failed := by
    intro m
    unfold receiveSrcReprocess
    dsimp only
    split
    · rfl
    · split
      · rfl
      · split
        · rfl
        · simp only [Emit.bind_val]
          split <;> rfl
  cases msg with
  | state msg =>
      refine Or.inl ?_
      cases msg <;> simp only [receive, receiveState, receiveStateMessage] <;> (try split) <;> rfl
  | getAck cls count => cases cls <;> first | exact hgetAck _ _ _ | exact Or.inl rfl
  | putAck cls hashkey => cases cls <;> first | exact hputAck _ _ | exact Or.inl rfl
  | eventsAck =>
      refine Or.inl ?_
      rcases op.receiveEventsAck_cases source with ⟨-, h⟩ | ⟨-, -, h⟩ | ⟨-, -, h⟩ <;>
      rw [show receive sched source .eventsAck op = _ from h]
  | reprocess m =>
      refine Or.inl ?_
      show (op.receiveReprocess m source).val.failed = op.failed
      unfold receiveReprocess
      split
      · rfl
      · split
        · exact hkept m
        · rw [receiveDstReprocess_val]

theorem steady_receive (sched : Schedule) (source : Middlebox) (msg : Message) (op : MoveOperation) :
    Steady op (Handlers.receive sched source msg op) where
  id := congrArg (fun u => u.2.1) (receive_untouched sched source msg op)
  failed := failed_receive sched source msg op

/-- A packet neither makes a move fail nor ends it. -/
theorem receivePacket_steady (op : MoveOperation) (packet : Packet) (inSwitch : Nat) (inPort : Int) :
    (op.receivePacket packet inSwitch inPort).val.id = op.id ∧
      (op.receivePacket packet inSwitch inPort).val.failed = op.failed ∧
      .operationFinished ∉ (op.receivePacket packet inSwitch inPort).out := by
  rcases op.receivePacket_cases packet inSwitch inPort with
    ⟨-, h⟩ | ⟨-, -, ⟨e, -, h⟩ | ⟨last, -, ⟨rules, hrules, h⟩ | ⟨e, -, -, h⟩⟩⟩
  · rw [h]
    exact ⟨rfl, rfl, List.not_mem_nil⟩
  · rw [h]
    exact ⟨rfl, rfl, by simp⟩
  · rw [h]
    refine ⟨rfl, rfl, fun hm => ?_⟩
    split at hrules
    · obtain rfl := Except.ok.inj hrules
      cases hm
    · obtain ⟨_, -, -, he⟩ := MoveArguments.mem_updateForwardingToDst hrules hm
      cases he
  · rw [h]
    exact ⟨rfl, rfl, by simp⟩

end MoveOperation

theorem CopyOperation.steady_receive (msg : Message) (op : CopyOperation) :
    Steady op (receive msg op) := by
  refine .of_failed_eq ?_ (ends_receive msg op).failed_eq
  have hcheck : ∀ op : CopyOperation, op.checkIfFinished.val.id = op.id := by
    intro op
    rcases op.checkIfFinished_cases with ⟨-, h⟩ | ⟨-, h⟩ <;> rw [h]
  cases msg with
  | state msg => cases msg <;> rfl
  | getAck cls count => cases cls <;> first | exact hcheck _ | rfl
  | putAck cls hashkey =>
      by_cases hcls : cls = .config
      · subst hcls
        rfl
      · obtain ⟨chunk, op', -, -, -, rfl, h | ⟨-, e, h⟩⟩ := op.receive_putAck_cases hashkey hcls
        · rw [h]
          exact hcheck _
        · rw [h]
          rfl
  | eventsAck => rfl
  | reprocess m => rfl

theorem MoveConfigOperation.steady_receive (msg : Message) (op : MoveConfigOperation) :
    Steady op (receive msg op) := by
  refine .of_failed_eq ?_ (ends_receive msg op).failed_eq
  have hcheck : ∀ op : MoveConfigOperation, op.checkIfFinished.val.id = op.id := by
    intro op
    rcases op.checkIfFinished_cases with ⟨-, h⟩ | ⟨-, h⟩ <;> rw [h]
  cases msg with
  | state msg => cases msg <;> rfl
  | getAck cls count => cases cls <;> first | exact hcheck _ | rfl
  | putAck cls hashkey =>
      cases cls with
      | config =>
          obtain ⟨chunk, op', -, -, -, rfl, h | ⟨-, e, h⟩⟩ := op.receive_putAck_cases hashkey
          · rw [h]
            exact hcheck _
          · rw [h]
            rfl
      | _ => rfl
  | eventsAck => rfl
  | reprocess m => rfl

/-! ## Shares -/

namespace ShareOperation

variable [Charset]

omit [PacketUtil] in
/-- A share fails when it cannot give back a packet. -/
theorem failed_dequeueEvent (op : ShareOperation) :
    op.dequeueEvent.val.id = op.id ∧
      (op.dequeueEvent.val.failed = op.failed ∨ .operationFailed ∈ op.dequeueEvent.out) := by
  rcases op.dequeueEvent_cases with ⟨-, h⟩ | ⟨_, _, _, -, ⟨-, h⟩ | ⟨_, -, h⟩⟩
  · rw [h]
    exact ⟨rfl, Or.inl rfl⟩
  · rw [h]
    exact ⟨rfl, Or.inr (List.mem_singleton.mpr rfl)⟩
  · rw [h]
    exact ⟨rfl, Or.inl rfl⟩

omit [PacketUtil] in
theorem failed_syncAllInstances (op : ShareOperation) :
    op.syncAllInstances.val.id = op.id ∧
      (op.syncAllInstances.val.failed = op.failed ∨ .operationFailed ∈ op.syncAllInstances.out) := by
  rcases op.syncAllInstances_cases with ⟨-, h⟩ | ⟨_, -, h⟩ | ⟨-, h⟩
  · rw [h]
    exact failed_dequeueEvent _
  · rw [h]
    exact ⟨rfl, Or.inl rfl⟩
  · rw [h]
    exact ⟨rfl, Or.inl rfl⟩

omit [PacketUtil] in
theorem failed_checkIfInstFinished (op : ShareOperation) :
    op.checkIfInstFinished.val.id = op.id ∧ (op.checkIfInstFinished.val.failed = op.failed ∨
      .operationFailed ∈ op.checkIfInstFinished.out) := by
  rcases op.checkIfInstFinished_cases with ⟨-, h⟩ | ⟨-, h⟩
  · rw [h]
    exact ⟨rfl, Or.inl rfl⟩
  · rw [h]
    exact failed_syncAllInstances _

theorem failed_receivePutAckOf (op : ShareOperation) (cls : StateClass) (hashkey : Int) :
    (op.receivePutAckOf cls hashkey).val.id = op.id ∧
      ((op.receivePutAckOf cls hashkey).val.failed = op.failed ∨
        .operationFailed ∈ (op.receivePutAckOf cls hashkey).out) := by
  unfold receivePutAckOf
  dsimp only
  split
  · simp only [Emit.bind_val, Emit.bind_out]
    split
    · exact ⟨rfl, Or.inl rfl⟩
    · obtain ⟨hid, hfailed⟩ := failed_checkIfInstFinished
        { op.countPutAck cls hashkey with
          toOperation := (op.countPutAck cls hashkey).setChunk (op.obtainStateChunk hashkey)
            ((op.countPutAck cls hashkey).stateChunks
              (op.obtainStateChunk hashkey)).receivedPutAck.val.1 }
      exact ⟨hid, hfailed.imp_right (List.mem_append_right _)⟩
  · exact ⟨rfl, Or.inl rfl⟩

theorem failed_receiveReprocess (op : ShareOperation) (msg : ReprocessMessage) (source : Middlebox) :
    (op.receiveReprocess msg source).val.id = op.id ∧
      ((op.receiveReprocess msg source).val.failed = op.failed ∨
        .operationFailed ∈ (op.receiveReprocess msg source).out) := by
  rcases op.receiveReprocess_cases msg source with ⟨e, -, h⟩ | ⟨pkt, -, ⟨-, h⟩ | ⟨-, -, op', rfl, h⟩ |
    ⟨-, -, op', rfl, h⟩⟩
  · rw [h]
    exact ⟨rfl, Or.inl rfl⟩
  · rw [h]
    exact ⟨rfl, Or.inl rfl⟩
  · rcases h with ⟨e, -, h⟩ | ⟨fields, -, h⟩
    · rw [h]
      exact ⟨rfl, Or.inl rfl⟩
    · rw [h]
      exact ⟨rfl, Or.inl rfl⟩
  · rcases h with ⟨-, h⟩ | ⟨-, h⟩
    · rw [h]
      exact ⟨rfl, Or.inl rfl⟩
    · rw [h]
      exact failed_dequeueEvent _

theorem steady_receive (source : Middlebox) (msg : Message) (op : ShareOperation) :
    Steady op (receive source msg op) := by
  suffices h : (receive source msg op).val.id = op.id ∧
      ((receive source msg op).val.failed = op.failed ∨
        .operationFailed ∈ (receive source msg op).out) from ⟨h.1, h.2⟩
  cases msg with
  | state msg =>
      show (op.receiveState msg).val.id = op.id ∧ ((op.receiveState msg).val.failed = op.failed ∨ _)
      unfold receiveState
      split
      · exact ⟨rfl, Or.inl rfl⟩
      · split <;> exact ⟨rfl, Or.inl rfl⟩
  | getAck cls count =>
      by_cases hcls : cls = .config
      · subst hcls
        exact ⟨rfl, Or.inl rfl⟩
      · rw [show receive source (.getAck cls count) op = _ from op.receiveGetAck_eq count hcls]
        exact failed_checkIfInstFinished _
  | putAck cls hashkey =>
      by_cases hcls : cls = .config
      · subst hcls
        exact ⟨rfl, Or.inl rfl⟩
      · rw [show receive source (.putAck cls hashkey) op = _ from op.receivePutAck_eq hashkey hcls]
        exact failed_receivePutAckOf op cls hashkey
  | eventsAck =>
      rw [show receive source .eventsAck op = op.receiveEventsAck from rfl, receiveEventsAck]
      dsimp only
      split
      · exact failed_syncAllInstances _
      · exact ⟨rfl, Or.inl rfl⟩
  | reprocess m => exact failed_receiveReprocess op m source

end ShareOperation

/-! ## Any operation -/

namespace AnyOperation

variable [Charset]

theorem steady_receive (sched : Schedule) (source : Middlebox) (msg : Message) (op : AnyOperation) :
    Steady op (Handlers.receive sched source msg op) := by
  cases op with
  | move op => exact ⟨(op.steady_receive sched source msg).id, (op.steady_receive sched source msg).failed⟩
  | copy op => exact ⟨(op.steady_receive msg).id, (op.steady_receive msg).failed⟩
  | moveConfig op => exact ⟨(op.steady_receive msg).id, (op.steady_receive msg).failed⟩
  | share op => exact ⟨(op.steady_receive source msg).id, (op.steady_receive source msg).failed⟩

theorem receivePacket_steady (op : AnyOperation) (packet : Packet) (inSwitch : Nat) (inPort : Int) :
    (op.receivePacket packet inSwitch inPort).val.base.id = op.base.id ∧
      (op.receivePacket packet inSwitch inPort).val.base.failed = op.base.failed ∧
      .operationFinished ∉ (op.receivePacket packet inSwitch inPort).out := by
  cases op with
  | move op => exact op.receivePacket_steady packet inSwitch inPort
  | _ => exact ⟨rfl, rfl, List.not_mem_nil⟩

end AnyOperation

end OFM.Controller
