import OFM.Controller.ShareOperation
import OFM.Controller.Lemmas.Events

/-!
# What the handlers of a share do
-/

namespace OFM.Controller.ShareOperation
open OFM.Lib

/-! ## Rounds -/

variable [Charset]

/-- The first packet that is waiting is given back, unless its switch is unknown. -/
theorem dequeueEvent_cases (op : ShareOperation) :
    (op.originalEvents = [] ∧ op.dequeueEvent = ⟨{ op with callFromReprocess := true }, []⟩) ∨
    ∃ packet src rest, op.originalEvents = (packet, src) :: rest ∧
      ((src.sw = none ∧ op.dequeueEvent =
        ⟨{ op with
            lastPacket := some (Charset.getBytes packet)
            toOperation := { op.toOperation with failed := true } }, [.operationFailed]⟩) ∨
      ∃ sw, src.sw = some sw ∧ op.dequeueEvent =
        ⟨{ op with lastPacket := some (Charset.getBytes packet) }.setSource src,
          [.packetOut src sw (Charset.getBytes packet)]⟩) := by
  cases h : op.originalEvents with
  | nil => exact Or.inl ⟨rfl, by rw [dequeueEvent, h]; rfl⟩
  | cons entry rest =>
      obtain ⟨packet, src⟩ := entry
      refine Or.inr ⟨packet, src, rest, rfl, ?_⟩
      cases hsw : src.sw with
      | none => exact Or.inl ⟨rfl, by simp only [dequeueEvent, h, hsw]; rfl⟩
      | some sw => exact Or.inr ⟨sw, rfl, by simp only [dequeueEvent, h, hsw]; rfl⟩

/-- The next instance is asked for its state, until all have been. -/
theorem syncAllInstances_cases (op : ShareOperation) :
    (op.nextInstIndex = op.instances.length ∧
      op.syncAllInstances = { op with isSyncFinished := true }.dequeueEvent) ∨
    (∃ inst, op.instances[op.nextInstIndex]? = some inst ∧ op.syncAllInstances =
      ⟨{ { op with counters := roundCounters }.setSource inst with
          nextInstIndex := op.nextInstIndex + 1 }, op.gets inst⟩) ∨
    (op.instances.length < op.nextInstIndex ∧
      op.syncAllInstances = ⟨op, [.thrown .indexOutOfBounds]⟩) := by
  by_cases hlast : op.nextInstIndex = op.instances.length
  · exact Or.inl ⟨hlast, by rw [syncAllInstances, if_pos hlast]⟩
  · refine Or.inr ?_
    cases hi : op.instances[op.nextInstIndex]? with
    | none =>
        have hle := List.getElem?_eq_none_iff.mp hi
        refine Or.inr ⟨by omega, ?_⟩
        rw [syncAllInstances, if_neg hlast, hi]
        rfl
    | some inst =>
        refine Or.inl ⟨inst, rfl, ?_⟩
        rw [syncAllInstances, if_neg hlast, hi]
        apply Emit.ext <;> simp [syncFromInstance, setSource]

/-- The operation a finished round leaves behind. -/
def flushed (op : ShareOperation) : ShareOperation :=
  { op.clearAcked with toOperation := op.flushStateChunks }

theorem checkIfInstFinished_cases (op : ShareOperation) :
    (op.instFinished = false ∧ op.checkIfInstFinished = ⟨op, []⟩) ∨
    (op.instFinished = true ∧ op.checkIfInstFinished = op.flushed.syncAllInstances) := by
  cases h : op.instFinished with
  | false => exact Or.inl ⟨rfl, by rw [checkIfInstFinished, h]; rfl⟩
  | true => exact Or.inr ⟨rfl, by rw [checkIfInstFinished, h]; rfl⟩

/-! ## Handlers -/

theorem receiveGetAck_eq (op : ShareOperation) {cls : StateClass} (count : Int) (h : cls ≠ .config) :
    op.receiveGetAck cls count =
      { op with counters := op.counters.recordGetAck cls count }.checkIfInstFinished := by
  cases cls with
  | config => exact absurd rfl h
  | _ => rfl

variable [PacketUtil]

theorem receivePutAck_eq (op : ShareOperation) {cls : StateClass} (hashkey : Int)
    (h : cls ≠ .config) : op.receivePutAck cls hashkey = op.receivePutAckOf cls hashkey := by
  cases cls with
  | config => exact absurd rfl h
  | _ => rfl

/-- No event waits for a chunk: the handlers of a share keep none. -/
def Bare (op : ShareOperation) : Prop := ∀ ref, (op.stateChunks ref).eventsList = []

/-- What a put-ack that is the last one for its chunk leaves behind. -/
def ackChunk (op : ShareOperation) (hashkey : Int) : ShareOperation :=
  let chunk := op.obtainStateChunk hashkey
  { op with toOperation := op.setChunk chunk { op.stateChunks chunk with ack := true } }

/-- A put-ack is only counted, until all other instances have acked its chunk. -/
theorem receivePutAckOf_cases {op : ShareOperation} (hbare : op.Bare) (cls : StateClass)
    (hashkey : Int) :
    ((op.stateChunks (op.obtainStateChunk hashkey)).numAckedInstances + 2 ≠ op.instances.length ∧
      op.receivePutAckOf cls hashkey = ⟨op.countPutAck cls hashkey, []⟩) ∨
    ((op.stateChunks (op.obtainStateChunk hashkey)).numAckedInstances + 2 = op.instances.length ∧
      op.receivePutAckOf cls hashkey =
        ((op.countPutAck cls hashkey).ackChunk hashkey).checkIfInstFinished) := by
  have hchunk : (op.countPutAck cls hashkey).stateChunks (op.obtainStateChunk hashkey) =
      (op.stateChunks (op.obtainStateChunk hashkey)).incrementAcked := by
    simp [countPutAck, Operation.setChunk]
  have hevents : ((op.countPutAck cls hashkey).stateChunks (op.obtainStateChunk hashkey)).eventsList =
      [] := by
    rw [hchunk]
    exact hbare _
  have href : (op.countPutAck cls hashkey).obtainStateChunk hashkey = op.obtainStateChunk hashkey := rfl
  have hcount : ((op.countPutAck cls hashkey).stateChunks (op.obtainStateChunk hashkey)).numAckedInst +
      1 = (op.stateChunks (op.obtainStateChunk hashkey)).numAckedInstances + 2 := by
    rw [hchunk]
    rfl
  have heq : op.receivePutAckOf cls hashkey =
      if (op.stateChunks (op.obtainStateChunk hashkey)).numAckedInstances + 2 = op.instances.length then
        ((op.countPutAck cls hashkey).ackChunk hashkey).checkIfInstFinished
      else pure (op.countPutAck cls hashkey) := by
    have hacked : ((op.countPutAck cls hashkey).stateChunks
        (op.obtainStateChunk hashkey)).receivedPutAck =
        ⟨({ (op.countPutAck cls hashkey).stateChunks (op.obtainStateChunk hashkey) with
          ack := true }, none), []⟩ := by
      rw [StateChunk.receivedPutAck, hevents]
      apply Emit.ext <;> simp [StateChunk.processAll, ← hevents]
    rw [← hcount]
    refine if_congr Iff.rfl ?_ rfl
    rw [href, hacked]
    rfl
  rw [heq]
  by_cases hlast : (op.stateChunks (op.obtainStateChunk hashkey)).numAckedInstances + 2 =
      op.instances.length
  · exact Or.inr ⟨hlast, if_pos hlast⟩
  · exact Or.inl ⟨hlast, if_neg hlast⟩

/-- An event is queued, starts a round, or ends in an exception. -/
theorem receiveReprocess_cases (op : ShareOperation) (msg : ReprocessMessage) (source : Middlebox) :
    (∃ e, flagged msg = .error e ∧ op.receiveReprocess msg source = ⟨op, [.thrown e]⟩) ∨
    ∃ pkt, flagged msg = .ok pkt ∧
      ((op.isSyncFinished = false ∧ op.receiveReprocess msg source =
        ⟨{ op with originalEvents := op.originalEvents.put (Charset.newString pkt) source }, []⟩) ∨
      (op.isSyncFinished = true ∧ op.lastPacket = some pkt ∧ ∃ op' : ShareOperation,
        op' = { op with originalEvents := op.originalEvents.remove (Charset.newString pkt) } ∧
        ((∃ e, OFMatch.loadFromPacket pkt 1 = .error e ∧
          op.receiveReprocess msg source = ⟨op', [.thrown e]⟩) ∨
        ∃ fields, OFMatch.loadFromPacket pkt 1 = .ok fields ∧ op.receiveReprocess msg source =
          { op' with key := .fromOFMatch fields }.syncFromInstance source)) ∨
      (op.isSyncFinished = true ∧ op.lastPacket ≠ some pkt ∧ ∃ op' : ShareOperation,
        op' = { op with originalEvents := op.originalEvents.put (Charset.newString pkt) source } ∧
        ((op.callFromReprocess = false ∧ op.receiveReprocess msg source = ⟨op', []⟩) ∨
        (op.callFromReprocess = true ∧ op.receiveReprocess msg source =
          { op' with callFromReprocess := false }.dequeueEvent)))) := by
  cases hf : flagged msg with
  | error e => exact Or.inl ⟨e, rfl, by rw [receiveReprocess, hf]; rfl⟩
  | ok pkt =>
      refine Or.inr ⟨pkt, rfl, ?_⟩
      cases hsync : op.isSyncFinished with
      | false => exact Or.inl ⟨rfl, by simp only [receiveReprocess, hf, hsync, ↓reduceIte]; rfl⟩
      | true =>
          refine Or.inr ?_
          by_cases hlast : op.lastPacket = some pkt
          · refine Or.inl ⟨rfl, hlast, _, rfl, ?_⟩
            cases hload : OFMatch.loadFromPacket pkt 1 with
            | error e =>
                exact Or.inl ⟨e, rfl, by
                  simp only [receiveReprocess, hf, hsync, hlast, hload, ↓reduceIte]; rfl⟩
            | ok fields =>
                exact Or.inr ⟨fields, rfl, by
                  simp only [receiveReprocess, hf, hsync, hlast, hload, ↓reduceIte]; rfl⟩
          · refine Or.inr ⟨rfl, hlast, _, rfl, ?_⟩
            cases hcall : op.callFromReprocess with
            | false =>
                exact Or.inl ⟨rfl, by
                  simp only [receiveReprocess, hf, hsync, hlast, hcall, ↓reduceIte]; rfl⟩
            | true =>
                exact Or.inr ⟨rfl, by
                  simp only [receiveReprocess, hf, hsync, hlast, hcall, ↓reduceIte]; rfl⟩

end OFM.Controller.ShareOperation
