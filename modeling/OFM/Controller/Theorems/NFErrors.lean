import OFM.Controller.ReprocessEvent
import OFM.Controller.Lemmas.Failures

/-!
# Errors of network functions

An error that a network function sends for an operation is logged by the state channel and is an
unexpected message for the event channel: no operation fails by it.
-/

namespace OFM.Controller
open OFM.Lib OFM.Shared

/-! ## What a channel makes of an error -/

/-- Handlers are only called for an operation that has been found and has not failed. -/
theorem lookedUp_handler {lookupOperation : Int → Option Bool} {id : Int} {process : Bool → Outcome}
    {msg : Message} (hnone : process false ≠ .handler msg)
    (h : lookedUp lookupOperation id process = .handler msg) : lookupOperation id = some false := by
  unfold lookedUp at h
  split at h
  · split at h
    · cases h
    · cases h
    · assumption
  · exact absurd h hnone

theorem parsed_handler {line : Option JsonObject} {process : AllFieldsMessage → CastMessage → Outcome}
    {msg : Message} (h : parsed line process = .handler msg) :
    ∃ fields cast, process fields cast = .handler msg := by
  unfold parsed at h
  split at h
  · cases h
  · split at h
    · cases h
    · exact ⟨_, _, h⟩

theorem ChannelKind.processMessage_handler {lookupOperation : Int → Option Bool}
    {line : Option JsonObject} {channel : ChannelKind} {msg : Message}
    (h : channel.processMessage lookupOperation line = .handler msg) :
    ∃ id, lookupOperation id = some false := by
  cases channel with
  | state =>
      have h : StateChannel.processMessage lookupOperation line = .handler msg := h
      rw [StateChannel.processMessage] at h
      obtain ⟨fields, cast, h⟩ := parsed_handler h
      refine ⟨fields.id, lookedUp_handler ?_ h⟩
      cases cast <;> simp [StateChannel.dispatch, callHandler]
  | event =>
      have h : EventChannel.processMessage lookupOperation line = .handler msg := h
      rw [EventChannel.processMessage] at h
      obtain ⟨fields, cast, h⟩ := parsed_handler h
      refine ⟨fields.id, lookedUp_handler ?_ h⟩
      cases cast <;> simp [EventChannel.dispatch, callHandler]

theorem Operation.of_lookup {op : Operation} {id : Int} {failed : Bool}
    (h : op.lookup id = some failed) : op.failed = failed := by
  unfold lookup at h
  split at h
  · exact Option.some.inj h
  · cases h

/-- No handler is called for an error, on whichever connection it comes. -/
theorem ChannelKind.processMessage_error (op : Operation) (channel : ChannelKind) (hid : 0 < op.id)
    (hashkey : Int) (reason : JavaString) (msg : Message) :
    channel.processMessage op.lookup (some (jsonComposeError op.id hashkey reason)) ≠ .handler msg := by
  intro h
  obtain ⟨id, hlookup⟩ := processMessage_handler h
  have hfound := op.lookup_self.trans (congrArg some (Operation.of_lookup hlookup))
  cases channel with
  | state =>
      have hlogged := StateChannel.processMessage_eq (jsonComposeError op.id hashkey reason) rfl hid hfound
      rw [show ChannelKind.processMessage _ _ .state = _ from hlogged] at h
      cases h
  | event =>
      have hthrown := EventChannel.processMessage_eq (jsonComposeError op.id hashkey reason) rfl hid hfound
      rw [show ChannelKind.processMessage _ _ .event = _ from hthrown] at h
      cases h

/-! ## Sessions -/

section

variable [PacketUtil] [Charset] {s s' : Session AnyOperation}

theorem Session.stepLine_line {sched : Schedule} {channel : ChannelKind} {source : Middlebox}
    {line : Option JsonObject} (h : s.stepLine (.line sched channel source line) = some s') :
    s' = s ∨ ((Handlers.base s.op).failed = false ∧
      ∃ msg, s' = (s.record (Handlers.receive sched source msg s.op)).note source msg) := by
  simp only [stepLine] at h
  split at h
  · rename_i msg hmsg
    obtain ⟨id, hlookup⟩ := ChannelKind.processMessage_handler hmsg
    exact Or.inr ⟨Operation.of_lookup hlookup, msg, (Option.some.inj h).symm⟩
  · exact Or.inl (Option.some.inj h).symm

/-- The id stays, and whoever listens has been told of a failure. -/
structure Told (id : Int) (s : Session AnyOperation) : Prop where
  id : (Handlers.base s.op).id = id
  told : (Handlers.base s.op).failed = true → .operationFailed ∈ s.log

theorem told_step {id : Int} {input : LineInput} (h : Told id s) (hs : s.stepLine input = some s') :
    Told id s' := by
  cases input with
  | line sched channel source line =>
      rcases Session.stepLine_line hs with rfl | ⟨hf, msg, rfl⟩
      · exact h
      · have hsteady := s.op.steady_receive sched source msg
        refine ⟨hsteady.id.trans h.id, fun hfailed => ?_⟩
        rcases hsteady.failed with he | he
        · rw [show (Handlers.base (Handlers.receive sched source msg s.op).val).failed = true from hfailed,
            hf] at he
          cases he
        · exact List.mem_append_right _ he
  | packet packet inSwitch inPort =>
      cases Session.step_packet hs
      obtain ⟨hid, hfailed, -⟩ := s.op.receivePacket_steady packet inSwitch inPort
      exact ⟨hid.trans h.id, fun he => List.mem_append_left _ (h.told (hfailed.symm.trans he))⟩
  | task i =>
      obtain ⟨task, -, rfl⟩ := Session.step_task hs
      have hbase : Handlers.base (Handlers.setBase s.op { Handlers.base s.op with
          threadPool := (Handlers.base s.op).threadPool.eraseIdx i }) = _ :=
        Handlers.base_setBase _ _
      refine ⟨(congrArg Operation.id hbase).trans h.id, fun he => ?_⟩
      exact List.mem_append_left _ (h.told ((congrArg Operation.failed hbase).symm.trans he))

/-- An operation that has failed stays so, and does not report that it has finished. -/
theorem failed_step {input : LineInput} (hf : (Handlers.base s.op).failed = true)
    (hs : s.stepLine input = some s') : (Handlers.base s'.op).failed = true ∧
      ∃ out, s'.log = s.log ++ out ∧ .operationFinished ∉ out := by
  cases input with
  | line sched channel source line =>
      rcases Session.stepLine_line hs with rfl | ⟨hnot, -⟩
      · exact ⟨hf, [], (List.append_nil _).symm, List.not_mem_nil⟩
      · rw [hf] at hnot
        cases hnot
  | packet packet inSwitch inPort =>
      cases Session.step_packet hs
      obtain ⟨-, hfailed, hout⟩ := s.op.receivePacket_steady packet inSwitch inPort
      exact ⟨hfailed.trans hf, _, rfl, hout⟩
  | task i =>
      obtain ⟨task, -, rfl⟩ := Session.step_task hs
      have hbase : Handlers.base (Handlers.setBase s.op { Handlers.base s.op with
          threadPool := (Handlers.base s.op).threadPool.eraseIdx i }) = _ :=
        Handlers.base_setBase _ _
      refine ⟨(congrArg Operation.failed hbase).trans hf, _, rfl, fun hm => ?_⟩
      rcases Operation.mem_call hm with ⟨_, _, he⟩ | ⟨_, _, _, he⟩ <;> cases he

theorem failed_run {inputs : List LineInput} (hf : (Handlers.base s.op).failed = true)
    (hr : Machine.run Session.stepLine s inputs = some s') :
    ∃ out, s'.log = s.log ++ out ∧ .operationFinished ∉ out := by
  suffices h : (Handlers.base s'.op).failed = true ∧
      ∃ out, s'.log = s.log ++ out ∧ .operationFinished ∉ out from h.2
  refine Machine.run_invariant' (I := fun t => (Handlers.base t.op).failed = true ∧
    ∃ out, t.log = s.log ++ out ∧ .operationFinished ∉ out)
    ⟨hf, [], (List.append_nil _).symm, List.not_mem_nil⟩ ?_ hr
  rintro t input t' ⟨ht, out, hlog, hout⟩ hs
  obtain ⟨ht', out', hlog', hout'⟩ := failed_step ht hs
  refine ⟨ht', out ++ out', ?_, ?_⟩
  · rw [hlog', hlog, List.append_assoc]
  · rw [List.mem_append, not_or]
    exact ⟨hout, hout'⟩

/-! ## Errors -/

namespace AnyOperation

/-- The operation has failed, and said so, and never says again that it has finished. -/
structure FailedForGood (s : Session AnyOperation) : Prop where
  failed : (Handlers.base s.op).failed = true
  told : .operationFailed ∈ s.log
  never : ∀ inputs s', Machine.run Session.stepLine s inputs = some s' →
    ∃ out, s'.log = s.log ++ out ∧ .operationFinished ∉ out

/-- Whatever has happened before, an error leaves an operation as failed as it was. -/
theorem failedForGood_iff {id : Int} (hid : 0 < id) {op : AnyOperation} (hop : Created id op)
    {inputs : List LineInput} (hr : Machine.run Session.stepLine (.start op) inputs = some s)
    (sched : Schedule) (channel : ChannelKind) (source : Middlebox) (hashkey : Int)
    (reason : JavaString) :
    ∃ s', s.stepLine (.line sched channel source (some (jsonComposeError id hashkey reason))) =
      some s' ∧ (FailedForGood s' ↔ (Handlers.base s.op).failed = true) := by
  have htold : Told id s := by
    refine Machine.run_invariant' ?_ (fun t input t' h hs => told_step h hs) hr
    cases hop <;> exact ⟨rfl, fun h => by cases h⟩
  have hstep : s.stepLine (.line sched channel source (some (jsonComposeError id hashkey reason))) =
      some s := by
    have hnone := ChannelKind.processMessage_error (Handlers.base s.op) channel (htold.id ▸ hid)
      hashkey reason
    rw [htold.id] at hnone
    unfold Session.stepLine
    dsimp only
    split
    · rename_i msg hmsg
      exact absurd hmsg (hnone msg)
    · rfl
  exact ⟨s, hstep, fun h => h.failed, fun h => ⟨h, htold.told h, fun inputs s' => failed_run h⟩⟩

end AnyOperation

end

namespace AnyOperation
open MoveOperation (sampleSrc sampleDst)

/-- A copy that has just been started. -/
def sampleCopy : AnyOperation := .copy (CopyOperation.new 1 sampleSrc sampleDst PerflowKey.new .perflow)

/-- Its source cannot give per-flow state: `unsupported`. -/
def sampleError : JsonObject :=
  jsonComposeError 1 (-1) [117, 110, 115, 117, 112, 112, 111, 114, 116, 101, 100]

theorem failedForGood_iff_sample :
    letI := plainFrames
    letI := latin1
    ∃ s', (Session.start sampleCopy).stepLine (.line .inOrder .state sampleSrc (some sampleError)) =
      some s' ∧ (FailedForGood s' ↔ (Handlers.base (Session.start sampleCopy).op).failed = true) := by
  let _ := plainFrames
  let _ := latin1
  exact failedForGood_iff (by decide) (.copy _ _ _ _) (rfl : Machine.run _ _ [] = _)
    .inOrder .state sampleSrc _ _

/-- On neither connection does the error make the copy fail. -/
theorem error_without_failure :
    letI := plainFrames
    letI := latin1
    (∃ s', (Session.start sampleCopy).stepLine (.line .inOrder .state sampleSrc (some sampleError)) =
      some s' ∧ ¬ FailedForGood s') ∧
    ∃ s', (Session.start sampleCopy).stepLine (.line .inOrder .event sampleSrc (some sampleError)) =
      some s' ∧ ¬ FailedForGood s' := by
  let _ := plainFrames
  let _ := latin1
  constructor
  · exact ⟨_, rfl, fun h => by cases h.failed⟩
  · exact ⟨_, rfl, fun h => by cases h.failed⟩

end AnyOperation

end OFM.Controller
