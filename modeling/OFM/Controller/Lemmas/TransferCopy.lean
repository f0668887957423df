import OFM.Controller.CopyOperation
import OFM.Controller.Lemmas.TransferBasic

/-!
# Copies and moves of configuration are transfers
-/

namespace OFM.Controller
open OFM.Lib

/-- Whether or not an event throws, a put-ack changes neither the message of its chunk nor its
destinations, and of its events leaves only some. -/
theorem StateChunk.receivedPutAck_cases [PacketUtil] (chunk : StateChunk) :
    (chunk.receivedPutAck).val.1.msg = chunk.msg ∧ (chunk.receivedPutAck).val.1.dsts = chunk.dsts ∧
      (∀ event ∈ (chunk.receivedPutAck).val.1.eventsList, event ∈ chunk.eventsList) ∧
      (chunk.receivedPutAck).out = (StateChunk.processAll chunk.eventsList).out ∧
      ((∀ event ∈ chunk.eventsList, event.Releases) → (chunk.receivedPutAck).val.2 = none) := by
  refine ⟨rfl, rfl, fun event h => StateChunk.mem_processAll h, ?_, fun hr => ?_⟩
  · simp [StateChunk.receivedPutAck]
  · rcases StateChunk.processAll_cases chunk.eventsList with ⟨he, -⟩ | ⟨pre, e, rest, x, hl, hn, -⟩
    · simp [StateChunk.receivedPutAck, he]
    · exact absurd (hr e (hl ▸ List.mem_append_right _ List.mem_cons_self)) hn

/-- Processing events sends nothing and finishes nothing. -/
theorem StateChunk.event_of_mem_processAll [PacketUtil] {events : List ReprocessEvent} {e : Effect}
    (h : e ∈ (StateChunk.processAll events).out) :
    ∃ event sw packet, e = .eventOut event sw packet := by
  rcases StateChunk.processAll_cases events with ⟨he, -⟩ | ⟨pre, e', rest, x, -, -, he⟩ <;>
  · rw [he] at h
    obtain ⟨event, -, sw, packet, rfl⟩ := eventOut_of_mem_flatMap_sent h
    exact ⟨event, sw, packet, rfl⟩

/-! ## Operations that only finish by a check -/

/-- What a handler of such an operation emits, and whether the operation has then finished. -/
inductive Ends [PacketUtil] {σ : Type} (base : σ → Operation) (completed : σ → Bool) (op : σ)
    (checks : Prop) (msg : Message) (r : Emit Effect σ) : Prop
  | goesOn
      (hout : ∀ e ∈ r.out, (∃ event sw packet, e = .eventOut event sw packet) ∨
        (∃ x, e = .thrown x) ∨ (∃ mb putMsg, e = .send mb (.put putMsg)) ∧ ∃ m, msg = .state m)
      (hfin : (base r.val).finished = (base op).finished)
      (hf : (base r.val).failed = (base op).failed)
      (hc : (base op).Smooth → checks → completed r.val = false)
  | ends {pre} (hout : r.out = pre ++ [.operationFinished])
      (hpre : ∀ e ∈ pre, ∃ event sw packet, e = .eventOut event sw packet)
      (hfin : (base r.val).finished = true) (hf : (base r.val).failed = (base op).failed)
      (hmsg : msg.isAck = true) (hc : completed r.val = true)

namespace Ends

variable [PacketUtil] {σ : Type} {base : σ → Operation} {completed : σ → Bool} {op : σ}
  {checks : Prop} {msg : Message} {r : Emit Effect σ}

theorem put_of_send (h : Ends base completed op checks msg r) {mb : Middlebox} {cmd : Command}
    (hm : .send mb cmd ∈ r.out) : cmd.putContent ≠ none ∧ ∃ m, msg = .state m := by
  cases h with
  | goesOn hout =>
      rcases hout _ hm with ⟨_, _, _, he⟩ | ⟨_, he⟩ | ⟨⟨mb', putMsg, he⟩, hs⟩
      · cases he
      · cases he
      · obtain ⟨-, rfl⟩ := Effect.send.inj he
        exact ⟨nofun, hs⟩
  | ends hout hpre =>
      rw [hout] at hm
      rcases List.mem_append.mp hm with hm | hm
      · obtain ⟨_, _, _, he⟩ := hpre _ hm
        cases he
      · cases List.mem_singleton.mp hm

theorem finish_count (h : Ends base completed op checks msg r) :
    r.out.count .operationFinished ≤ 1 := by
  cases h with
  | goesOn hout =>
      rw [List.count_eq_zero.mpr]
      · exact Nat.zero_le 1
      · intro hm
        rcases hout _ hm with ⟨_, _, _, he⟩ | ⟨_, he⟩ | ⟨⟨_, _, he⟩, -⟩ <;> cases he
  | @ends pre hout hpre =>
      have hzero : pre.count .operationFinished = 0 := by
        refine List.count_eq_zero.mpr fun hm => ?_
        obtain ⟨_, _, _, he⟩ := hpre _ hm
        cases he
      rw [hout, List.count_append, hzero]
      simp

theorem completed_of_finish (h : Ends base completed op checks msg r)
    (hm : .operationFinished ∈ r.out) : completed r.val = true ∧ msg.isAck = true := by
  cases h with
  | goesOn hout =>
      rcases hout _ hm with ⟨_, _, _, he⟩ | ⟨_, he⟩ | ⟨⟨_, _, he⟩, -⟩ <;> cases he
  | ends hout hpre hfin hf hmsg hc => exact ⟨hc, hmsg⟩

theorem finish_of_finished (h : Ends base completed op checks msg r)
    (hn : (base r.val).finished = true) :
    (base op).finished = true ∨ .operationFinished ∈ r.out := by
  cases h with
  | goesOn hout hfin => exact Or.inl (hfin.symm.trans hn)
  | ends hout =>
      refine Or.inr ?_
      rw [hout]
      exact List.mem_append_right _ (List.mem_singleton.mpr rfl)

theorem finished_of_finished (h : Ends base completed op checks msg r)
    (hn : (base op).finished = true) : (base r.val).finished = true := by
  cases h with
  | goesOn hout hfin => exact hfin.trans hn
  | ends hout hpre hfin => exact hfin

theorem finished_of_completed (h : Ends base completed op checks msg r) (hs : (base op).Smooth)
    (hchecks : checks) (hcomp : completed r.val = true) : (base r.val).finished = true := by
  cases h with
  | goesOn hout hfin hf hc =>
      rw [hc hs hchecks] at hcomp
      cases hcomp
  | ends hout hpre hfin => exact hfin

theorem failed_eq (h : Ends base completed op checks msg r) :
    (base r.val).failed = (base op).failed := by
  cases h <;> assumption

end Ends

namespace CopyOperation

/-- The transfer in a copy. -/
def transfer (op : CopyOperation) : Transfer where
  src := op.src
  dst := op.dst
  classes := op.scope.classes
  holds := false
  ordered := false
  asksFirst := false
  queues := false
  throws := false
  counters := op.counters
  store ref := puts (op.stateChunks ref).call.out
  pool := chunkTasks op.threadPool
  list := []

theorem completed_iff (op : CopyOperation) : op.completed = true ↔ op.transfer.Complete := by
  unfold completed Transfer.Complete transfer Counters.Done
  cases op.scope <;>
  · simp only [Scope.classes, Bool.and_eq_true, Counters.acksMatch_iff, List.mem_cons,
      List.not_mem_nil, or_false, forall_eq_or_imp, forall_eq]
    try tauto

theorem class_cases {scope : Scope} {cls : StateClass} (h : cls ∈ scope.classes) :
    cls = .perflow ∨ cls = .multiflow ∨ cls = .allflows := by
  cases cls with
  | config => cases scope <;> simp [Scope.classes] at h
  | _ => simp

theorem checkIfFinished_cases (op : CopyOperation) :
    (op.completed = false ∧ op.checkIfFinished = ⟨op, []⟩) ∨
    (op.completed = true ∧ op.checkIfFinished =
      ⟨{ op with toOperation := { op.toOperation with finished := true } }, [.operationFinished]⟩) := by
  unfold checkIfFinished
  cases hc : op.completed with
  | false => exact Or.inl ⟨rfl, rfl⟩
  | true => exact Or.inr ⟨rfl, rfl⟩

theorem transfer_checkIfFinished (op : CopyOperation) :
    op.checkIfFinished.val.transfer = op.transfer := by
  rcases op.checkIfFinished_cases with ⟨-, h⟩ | ⟨-, h⟩ <;>
  exact congrArg (fun r => transfer (Emit.val r)) h

theorem takes_receiveState {op : CopyOperation} {msg : StateMessage} (hne : msg.cls ≠ .config) :
    op.transfer.Takes msg.content (op.receiveState msg).val.transfer
      (puts (op.receiveState msg).out) := by
  have hreceive : op.receiveState msg = ⟨op.submitState msg, []⟩ := by
    cases msg with
    | config => exact absurd rfl hne
    | _ => rfl
  have hstore : _ = Function.update op.transfer.store (op.obtainStateChunk msg.hashkey)
      {(op.dst, msg.content)} := puts_setChunk_stored hne
  have htake : op.transfer.Takes msg.content _ 0 :=
    .submit (rfl : (op.obtainStateChunk msg.hashkey).hashkey = msg.hashkey) rfl
  rw [hreceive, puts_nil]
  convert htake using 1
  simp only [transfer, submitState, Operation.submit, chunkTasks_append_chunk]
  rw [hstore]
  rfl

variable [PacketUtil]

theorem receive_getAck_eq (op : CopyOperation) {cls : StateClass} (count : Int)
    (h : cls ≠ .config) : receive (.getAck cls count) op =
      checkIfFinished { op with counters := op.counters.recordGetAck cls count } := by
  cases cls with
  | config => exact absurd rfl h
  | _ => rfl

/-- A put-ack is counted, and the check made unless an event throws. -/
theorem receive_putAck_cases (op : CopyOperation) {cls : StateClass} (hashkey : Int)
    (h : cls ≠ .config) : ∃ chunk : StateChunk, ∃ op' : CopyOperation,
      chunk.msg = (op.stateChunks (op.obtainStateChunk hashkey)).msg ∧
      chunk.dsts = (op.stateChunks (op.obtainStateChunk hashkey)).dsts ∧
      (∀ event ∈ chunk.eventsList,
        event ∈ (op.stateChunks (op.obtainStateChunk hashkey)).eventsList) ∧
      op' = { op with
        counters := op.counters.recordPutAck cls
        toOperation := op.setChunk (op.obtainStateChunk hashkey) chunk } ∧
      (receive (.putAck cls hashkey) op = ⟨op'.checkIfFinished.val,
        (StateChunk.processAll (op.stateChunks (op.obtainStateChunk hashkey)).eventsList).out ++
          op'.checkIfFinished.out⟩ ∨
      (¬ op.toOperation.Smooth ∧ ∃ e, receive (.putAck cls hashkey) op = ⟨op',
        (StateChunk.processAll (op.stateChunks (op.obtainStateChunk hashkey)).eventsList).out ++
          [.thrown e]⟩)) := by
  obtain ⟨hmsg, hdsts, hevents, hout, hnone⟩ :=
    (op.stateChunks (op.obtainStateChunk hashkey)).receivedPutAck_cases
  refine ⟨_, _, hmsg, hdsts, hevents, rfl, ?_⟩
  have hreceive : receive (.putAck cls hashkey) op = op.receivePutAck cls hashkey := rfl
  rw [hreceive]
  cases hx : ((op.stateChunks (op.obtainStateChunk hashkey)).receivedPutAck).val.2 with
  | none =>
      left
      cases cls with
      | config => exact absurd rfl h
      | _ => apply Emit.ext <;> simp [receivePutAck, hx, hout]
  | some e =>
      refine Or.inr ⟨fun hs => ?_, e, ?_⟩
      · rw [hnone fun event he => hs _ event he] at hx
        cases hx
      · cases cls with
        | config => exact absurd rfl h
        | _ => apply Emit.ext <;> simp [receivePutAck, hx, hout]

omit [PacketUtil] in
theorem transfer_setChunk {op : CopyOperation} {ref : ChunkRef} {chunk : StateChunk} {k : Counters}
    (hmsg : chunk.msg = (op.stateChunks ref).msg) (hdsts : chunk.dsts = (op.stateChunks ref).dsts) :
    transfer { op with counters := k, toOperation := op.setChunk ref chunk } =
      { op.transfer with counters := k } := by
  have hstore : (fun ref' => puts ((op.setChunk ref chunk).stateChunks ref').call.out) =
      fun ref' => puts (op.stateChunks ref').call.out :=
    funext fun ref' => puts_setChunk hmsg hdsts ref'
  simp only [transfer]
  rw [hstore]
  rfl

theorem ends_check {op : CopyOperation} (op' : CopyOperation) {msg : Message}
    {r : Emit Effect CopyOperation} (pre : List Effect)
    (hr : r = ⟨op'.checkIfFinished.val, pre ++ op'.checkIfFinished.out⟩)
    (hpre : ∀ e ∈ pre, ∃ event sw packet, e = .eventOut event sw packet)
    (hfin : op'.finished = op.finished) (hf : op'.failed = op.failed) (hmsg : msg.isAck = true) :
    Ends toOperation completed op (op.transfer.Checks msg) msg r := by
  subst hr
  rcases op'.checkIfFinished_cases with ⟨hc, h⟩ | ⟨hc, h⟩
  · refine .goesOn ?_ ?_ ?_ fun _ _ => ?_
    · intro e he
      rw [h, List.append_nil] at he
      exact Or.inl (hpre e he)
    · rw [h]; exact hfin
    · rw [h]; exact hf
    · rw [h]; exact hc
  · refine .ends (by rw [h]) hpre ?_ ?_ hmsg ?_
    · rw [h]
    · rw [h]; exact hf
    · rw [h]; exact hc

theorem ends_receive (msg : Message) (op : CopyOperation) : 
    Ends toOperation completed op (op.transfer.Checks msg) msg (receive msg op) := by
  have hstill : ∀ msg, ¬ op.transfer.Checks msg →
      Ends toOperation completed op (op.transfer.Checks msg) msg ⟨op, []⟩ := fun msg h =>
    .goesOn (fun e he => absurd he List.not_mem_nil) rfl rfl fun _ hc => absurd hc h
  cases msg with
  | state msg =>
      have hreceive : ∃ op' : CopyOperation, receive (.state msg) op = ⟨op', []⟩ ∧
          op'.finished = op.finished ∧ op'.failed = op.failed := by
        cases msg with
        | config => exact ⟨op, rfl, rfl, rfl⟩
        | _ => exact ⟨op.submitState _, rfl, rfl, rfl⟩
      obtain ⟨op', h, hfin, hf⟩ := hreceive
      rw [h]
      exact .goesOn (fun e he => absurd he List.not_mem_nil) hfin hf fun _ hc => absurd hc id
  | getAck cls count =>
      by_cases hcls : cls = .config
      · subst hcls
        refine hstill _ fun h => ?_
        rcases class_cases h.1 with h | h | h <;> cases h
      · refine ends_check { op with counters := op.counters.recordGetAck cls count } [] ?_
          (fun e he => absurd he List.not_mem_nil) rfl rfl rfl
        rw [receive_getAck_eq op count hcls, List.nil_append]
  | putAck cls hashkey =>
      by_cases hcls : cls = .config
      · subst hcls
        refine hstill _ fun h => ?_
        rcases class_cases h with h | h | h <;> cases h
      · obtain ⟨chunk, op', -, -, -, hop', h | ⟨hs, e, h⟩⟩ := op.receive_putAck_cases hashkey hcls
        · exact ends_check op' _ h (fun e he => StateChunk.event_of_mem_processAll he) (by rw [hop']; rfl)
            (by rw [hop']; rfl) rfl
        · refine .goesOn ?_ ?_ ?_ fun hsm _ => absurd hsm hs
          · intro e' he
            rw [h] at he
            rcases List.mem_append.mp he with he | he
            · exact Or.inl (StateChunk.event_of_mem_processAll he)
            · exact Or.inr (Or.inl ⟨e, List.mem_singleton.mp he⟩)
          · rw [h, hop']; rfl
          · rw [h, hop']; rfl
  | eventsAck => exact hstill _ id
  | reprocess m => exact hstill _ id

omit [PacketUtil] in
theorem count_execute (op : CopyOperation) (cls : StateClass) :
    (commandsTo op.src op.execute.out).countP (fun cmd => cmd.getClass = some cls) =
      if cls ∈ op.scope.classes then 1 else 0 := by
  cases h : op.scope <;> cases cls <;>
    simp [execute, h, commandsTo, Command.getClass, Scope.classes]

omit [PacketUtil] in
theorem get_of_mem_execute {op : CopyOperation} {e : Effect} (h : e ∈ op.execute.out) :
    ∃ cmd cls, e = .send op.src cmd ∧ cmd.getClass = some cls := by
  simp only [execute, Emit.emit_out, List.mem_append] at h
  rcases h with (h | h) | h <;> split at h <;> cases h <;> first
    | contradiction
    | exact ⟨_, _, rfl, rfl⟩

instance : TransferOperation CopyOperation where
  transfer := transfer
  Valid _ := True
  noticed op := op.finished
  handledClasses _ := [.perflow, .multiflow, .allflows]
  pool_eq _ := rfl
  store_eq _ _ := rfl
  setPool _ _ := rfl
  setPool_valid _ _ h := h
  setPool_noticed _ _ := rfl
  classes_nodup op := op.scope.classes_nodup
  classes_ne_nil op _ := by
    show op.scope.classes ≠ []
    cases op.scope <;> decide
  classes_handled op _ cls hcls := by
    rcases class_cases hcls with rfl | rfl | rfl <;> decide
  valid_receive _ _ _ _ h := h
  execute_send op mb cmd h := by
    obtain ⟨cmd', cls, hs, hget⟩ := get_of_mem_execute h
    obtain ⟨rfl, rfl⟩ := Effect.send.inj hs
    refine ⟨rfl, ?_, fun ht => ?_⟩
    · cases cmd <;> first | rfl | cases hget
    · cases cmd <;> first | (cases ht; done) | cases hget
  execute_toggles op := by
    show (commandsTo op.src op.execute.out).countP Command.isToggle = 0
    refine List.countP_eq_zero.mpr fun cmd hm ht => ?_
    obtain ⟨cmd', cls, hs, hget⟩ := get_of_mem_execute (mem_commandsTo.mp hm)
    obtain ⟨-, rfl⟩ := Effect.send.inj hs
    cases cmd <;> first | (cases ht; done) | cases hget
  execute_gets op cls _ := by
    show (commandsTo op.src op.execute.out).countP _ = _
    rw [count_execute]
    simp [transfer]
  execute_finish op h := by
    obtain ⟨cmd, cls, hs, -⟩ := get_of_mem_execute h
    cases hs
  packet_transfer _ _ _ _ := rfl
  packet_base _ _ _ _ := rfl
  packet_valid _ _ _ _ h := h
  packet_noticed _ _ _ _ := rfl
  packet_out _ _ _ _ := ⟨fun _ _ => List.not_mem_nil, List.not_mem_nil⟩
  receive_state sched source msg op _ hcls := takes_receiveState fun he => by
    rw [he] at hcls
    exact absurd hcls (by decide)
  receive_getAck sched source cls count op _ hcls := by
    rcases class_cases hcls with rfl | rfl | rfl <;> exact transfer_checkIfFinished _
  puts_getAck sched source cls count op _ hcls := by
    have hrel : ∀ op : CopyOperation, ¬ op.transfer.Released := fun op h => by cases h.1
    rw [if_neg (hrel _)]
    refine puts_eq_zero fun mb cmd hm => ?_
    obtain ⟨-, m, hmsg⟩ := (ends_receive (.getAck cls count) op).put_of_send hm
    cases hmsg
  receive_putAck sched source cls hashkey op _ hcls := by
    have hne : cls ≠ .config := by
      rintro rfl
      exact absurd hcls (by decide)
    obtain ⟨chunk, op', hmsg, hdsts, -, hop', h | ⟨-, e, h⟩⟩ := op.receive_putAck_cases hashkey hne
    · show (receive (.putAck cls hashkey) op).val.transfer = _
      rw [h, transfer_checkIfFinished, hop']
      exact transfer_setChunk hmsg hdsts
    · show (receive (.putAck cls hashkey) op).val.transfer = _
      rw [h, hop']
      exact transfer_setChunk hmsg hdsts
  receive_other sched source msg op h := by
    rcases h with rfl | ⟨m, rfl⟩ <;> rfl
  receive_send sched source msg op mb cmd h := by
    obtain ⟨hput, hmsg⟩ := (ends_receive msg op).put_of_send h
    exact Or.inl ⟨hput, Or.inl hmsg⟩
  receive_gets _ _ _ _ h := by cases h
  finish_count sched source msg op := (ends_receive msg op).finish_count
  finish_mem sched source msg op _ _ hm := by
    obtain ⟨hc, hmsg⟩ := (ends_receive msg op).completed_of_finish hm
    exact Or.inl ⟨(completed_iff _).mp hc, hmsg, nofun, rfl⟩
  noticed_finish sched source msg op _ _ hn := (ends_receive msg op).finish_of_finished hn
  noticed_receive sched source msg op hn := (ends_receive msg op).finished_of_finished hn
  noticed_check sched source msg op _ hs hchecks _ hcomp :=
    Or.inl ((ends_receive msg op).finished_of_completed hs hchecks ((completed_iff _).mpr hcomp))
  failed_receive sched source msg op _ hf hf' := by
    have hsame : (receive msg op).val.failed = op.failed := (ends_receive msg op).failed_eq
    exact absurd (hf.symm.trans (hsame.symm.trans hf')) (by decide)
  smooth_receive sched source msg op h _ := by
    have hcheck : ∀ op : CopyOperation, op.toOperation.Smooth →
        op.checkIfFinished.val.toOperation.Smooth := by
      intro op h
      rcases op.checkIfFinished_cases with ⟨-, he⟩ | ⟨-, he⟩ <;> rw [he] <;> exact h
    cases msg with
    | state msg =>
        cases msg with
        | config => exact h
        | _ => exact h.setChunk (h _)
    | getAck cls count =>
        by_cases hcls : cls = .config
        · subst hcls; exact h
        · show (receive (.getAck cls count) op).val.toOperation.Smooth
          rw [receive_getAck_eq op count hcls]
          exact hcheck _ h
    | putAck cls hashkey =>
        by_cases hcls : cls = .config
        · subst hcls; exact h
        · obtain ⟨chunk, op', -, -, hevents, hop', he | ⟨-, e, he⟩⟩ :=
            op.receive_putAck_cases hashkey hcls
          · show (receive (.putAck cls hashkey) op).val.toOperation.Smooth
            rw [he, hop']
            exact hcheck _ (h.setChunk fun event hm => h _ event (hevents event hm))
          · show (receive (.putAck cls hashkey) op).val.toOperation.Smooth
            rw [he, hop']
            exact h.setChunk fun event hm => h _ event (hevents event hm)
    | eventsAck => exact h
    | reprocess m => exact h

theorem fresh_new (id : Int) (src dst : Middlebox) (key : PerflowKey) (scope : Scope) :
    Fresh (new id src dst key scope) :=
  ⟨trivial, rfl, rfl, rfl, rfl, rfl, fun _ _ he => absurd he List.not_mem_nil⟩

end CopyOperation

namespace MoveConfigOperation

/-- The transfer in a move of configuration. Its chunks are put as they come. -/
def transfer (op : MoveConfigOperation) : Transfer where
  src := op.src
  dst := op.dst
  classes := [.config]
  holds := false
  ordered := false
  asksFirst := false
  queues := false
  throws := false
  counters := op.counters
  store ref := puts (op.stateChunks ref).call.out
  pool := chunkTasks op.threadPool
  list := []

/-- What `checkIfFinished` tests. -/
def completed (op : MoveConfigOperation) : Bool :=
  op.counters.getAcked .config && op.counters.acksMatch .config

theorem completed_iff (op : MoveConfigOperation) : op.completed = true ↔ op.transfer.Complete := by
  simp [completed, Transfer.Complete, transfer, Counters.Done]

theorem checkIfFinished_cases (op : MoveConfigOperation) :
    (op.completed = false ∧ op.checkIfFinished = ⟨op, []⟩) ∨
    (op.completed = true ∧ op.checkIfFinished =
      ⟨{ op with toOperation := { op.toOperation with finished := true } }, [.operationFinished]⟩) := by
  have hc : op.checkIfFinished =
      if op.completed then .emit { op with toOperation := op.finish.val } op.finish.out
      else pure op := rfl
  cases h : op.completed with
  | false => exact Or.inl ⟨rfl, by rw [hc, h]; rfl⟩
  | true => exact Or.inr ⟨rfl, by rw [hc, h]; rfl⟩

theorem transfer_checkIfFinished (op : MoveConfigOperation) :
    op.checkIfFinished.val.transfer = op.transfer := by
  rcases op.checkIfFinished_cases with ⟨-, h⟩ | ⟨-, h⟩ <;>
  exact congrArg (fun r => transfer (Emit.val r)) h

variable [PacketUtil]

theorem receive_putAck_cases (op : MoveConfigOperation) (hashkey : Int) :
    ∃ chunk : StateChunk, ∃ op' : MoveConfigOperation,
      chunk.msg = (op.stateChunks (op.obtainStateChunk hashkey)).msg ∧
      chunk.dsts = (op.stateChunks (op.obtainStateChunk hashkey)).dsts ∧
      (∀ event ∈ chunk.eventsList,
        event ∈ (op.stateChunks (op.obtainStateChunk hashkey)).eventsList) ∧
      op' = { op with
        counters := op.counters.recordPutAck .config
        toOperation := op.setChunk (op.obtainStateChunk hashkey) chunk } ∧
      (receive (.putAck .config hashkey) op = ⟨op'.checkIfFinished.val,
        (StateChunk.processAll (op.stateChunks (op.obtainStateChunk hashkey)).eventsList).out ++
          op'.checkIfFinished.out⟩ ∨
      (¬ op.toOperation.Smooth ∧ ∃ e, receive (.putAck .config hashkey) op = ⟨op',
        (StateChunk.processAll (op.stateChunks (op.obtainStateChunk hashkey)).eventsList).out ++
          [.thrown e]⟩)) := by
  obtain ⟨hmsg, hdsts, hevents, hout, hnone⟩ :=
    (op.stateChunks (op.obtainStateChunk hashkey)).receivedPutAck_cases
  refine ⟨_, _, hmsg, hdsts, hevents, rfl, ?_⟩
  have hreceive : receive (.putAck .config hashkey) op = op.receivePutConfigAck hashkey := rfl
  rw [hreceive]
  cases hx : ((op.stateChunks (op.obtainStateChunk hashkey)).receivedPutAck).val.2 with
  | none =>
      left
      apply Emit.ext <;> simp [receivePutConfigAck, hx, hout]
  | some e =>
      refine Or.inr ⟨fun hs => ?_, e, ?_⟩
      · rw [hnone fun event he => hs _ event he] at hx
        cases hx
      · apply Emit.ext <;> simp [receivePutConfigAck, hx, hout]

omit [PacketUtil] in
theorem transfer_setChunk {op : MoveConfigOperation} {ref : ChunkRef} {chunk : StateChunk}
    {k : Counters} (hmsg : chunk.msg = (op.stateChunks ref).msg)
    (hdsts : chunk.dsts = (op.stateChunks ref).dsts) :
    transfer { op with counters := k, toOperation := op.setChunk ref chunk } =
      { op.transfer with counters := k } := by
  have hstore : (fun ref' => puts ((op.setChunk ref chunk).stateChunks ref').call.out) =
      fun ref' => puts (op.stateChunks ref').call.out :=
    funext fun ref' => puts_setChunk hmsg hdsts ref'
  simp only [transfer]
  rw [hstore]
  rfl

theorem ends_check {op : MoveConfigOperation} (op' : MoveConfigOperation) {msg : Message}
    {r : Emit Effect MoveConfigOperation} (pre : List Effect)
    (hr : r = ⟨op'.checkIfFinished.val, pre ++ op'.checkIfFinished.out⟩)
    (hpre : ∀ e ∈ pre, ∃ event sw packet, e = .eventOut event sw packet)
    (hfin : op'.finished = op.finished) (hf : op'.failed = op.failed) (hmsg : msg.isAck = true) :
    Ends toOperation completed op (op.transfer.Checks msg) msg r := by
  subst hr
  rcases op'.checkIfFinished_cases with ⟨hc, h⟩ | ⟨hc, h⟩
  · refine .goesOn ?_ ?_ ?_ fun _ _ => ?_
    · intro e he
      rw [h, List.append_nil] at he
      exact Or.inl (hpre e he)
    · rw [h]; exact hfin
    · rw [h]; exact hf
    · rw [h]; exact hc
  · refine .ends (by rw [h]) hpre ?_ ?_ hmsg ?_
    · rw [h]
    · rw [h]; exact hf
    · rw [h]; exact hc

theorem ends_receive (msg : Message) (op : MoveConfigOperation) :
    Ends toOperation completed op (op.transfer.Checks msg) msg (receive msg op) := by
  have hstill : ∀ msg, ¬ op.transfer.Checks msg →
      Ends toOperation completed op (op.transfer.Checks msg) msg ⟨op, []⟩ := fun msg h =>
    .goesOn (fun e he => absurd he List.not_mem_nil) rfl rfl fun _ hc => absurd hc h
  cases msg with
  | state msg =>
      cases msg with
      | config id seq key hashkey state =>
          refine .goesOn (fun e he => ?_) rfl rfl fun _ hc => hc.elim
          have hput : e = .send op.dst (.put (.config id seq key hashkey state)) :=
            List.mem_singleton.mp he
          exact Or.inr (Or.inr ⟨⟨_, _, hput⟩, _, rfl⟩)
      | _ => exact hstill _ id
  | getAck cls count =>
      cases cls with
      | config =>
          exact ends_check { op with counters := op.counters.recordGetAck .config count } []
            (by rw [List.nil_append]; rfl)
            (fun e he => absurd he List.not_mem_nil) rfl rfl rfl
      | _ => exact hstill _ fun h => by cases List.mem_singleton.mp h.1
  | putAck cls hashkey =>
      cases cls with
      | config =>
          obtain ⟨chunk, op', -, -, -, hop', h | ⟨hs, e, h⟩⟩ := op.receive_putAck_cases hashkey
          · exact ends_check op' _ h (fun e he => StateChunk.event_of_mem_processAll he)
              (by rw [hop']; rfl) (by rw [hop']; rfl) rfl
          · refine .goesOn ?_ ?_ ?_ fun hsm _ => absurd hsm hs
            · intro e' he
              rw [h] at he
              rcases List.mem_append.mp he with he | he
              · exact Or.inl (StateChunk.event_of_mem_processAll he)
              · exact Or.inr (Or.inl ⟨e, List.mem_singleton.mp he⟩)
            · rw [h, hop']; rfl
            · rw [h, hop']; rfl
      | _ => exact hstill _ fun h => by cases List.mem_singleton.mp h
  | eventsAck => exact hstill _ id
  | reprocess m => exact hstill _ id

instance : TransferOperation MoveConfigOperation where
  transfer := transfer
  Valid _ := True
  noticed op := op.finished
  handledClasses _ := [.config]
  pool_eq _ := rfl
  store_eq _ _ := rfl
  setPool _ _ := rfl
  setPool_valid _ _ h := h
  setPool_noticed _ _ := rfl
  classes_nodup _ := List.nodup_singleton _
  classes_ne_nil _ _ := List.cons_ne_nil _ _
  classes_handled _ _ _ hcls := hcls
  valid_receive _ _ _ _ h := h
  execute_send op mb cmd h := by
    obtain ⟨rfl, rfl⟩ := Effect.send.inj (List.mem_singleton.mp h)
    exact ⟨rfl, rfl, nofun⟩
  execute_toggles op := by
    show (commandsTo op.src op.execute.out).countP Command.isToggle = 0
    simp [execute, commandsTo, Command.isToggle]
  execute_gets op cls _ := by
    show (commandsTo op.src op.execute.out).countP _ = _
    cases cls <;> simp [execute, commandsTo, Command.getClass, transfer]
  execute_finish op h := by cases List.mem_singleton.mp h
  packet_transfer _ _ _ _ := rfl
  packet_base _ _ _ _ := rfl
  packet_valid _ _ _ _ h := h
  packet_noticed _ _ _ _ := rfl
  packet_out _ _ _ _ := ⟨fun _ _ => List.not_mem_nil, List.not_mem_nil⟩
  receive_state sched source msg op _ hcls := by
    cases msg with
    | config => exact .put rfl
    | _ => cases List.mem_singleton.mp hcls
  receive_getAck sched source cls count op _ hcls := by
    obtain rfl := List.mem_singleton.mp hcls
    exact transfer_checkIfFinished _
  puts_getAck sched source cls count op _ hcls := by
    have hrel : ∀ op : MoveConfigOperation, ¬ op.transfer.Released := fun op h => by cases h.1
    rw [if_neg (hrel _)]
    refine puts_eq_zero fun mb cmd hm => ?_
    obtain ⟨-, m, hmsg⟩ := (ends_receive (.getAck cls count) op).put_of_send hm
    cases hmsg
  receive_putAck sched source cls hashkey op _ hcls := by
    obtain rfl := List.mem_singleton.mp hcls
    show (receive (.putAck .config hashkey) op).val.transfer = _
    obtain ⟨chunk, op', hmsg, hdsts, -, hop', h | ⟨-, e, h⟩⟩ := op.receive_putAck_cases hashkey
    · rw [h, transfer_checkIfFinished, hop']
      exact transfer_setChunk hmsg hdsts
    · rw [h, hop']
      exact transfer_setChunk hmsg hdsts
  receive_other sched source msg op h := by
    rcases h with rfl | ⟨m, rfl⟩ <;> rfl
  receive_send sched source msg op mb cmd h := by
    obtain ⟨hput, hmsg⟩ := (ends_receive msg op).put_of_send h
    exact Or.inl ⟨hput, Or.inl hmsg⟩
  receive_gets _ _ _ _ h := by cases h
  finish_count sched source msg op := (ends_receive msg op).finish_count
  finish_mem sched source msg op _ _ hm := by
    obtain ⟨hc, hmsg⟩ := (ends_receive msg op).completed_of_finish hm
    exact Or.inl ⟨(completed_iff _).mp hc, hmsg, nofun, rfl⟩
  noticed_finish sched source msg op _ _ hn := (ends_receive msg op).finish_of_finished hn
  noticed_receive sched source msg op hn := (ends_receive msg op).finished_of_finished hn
  noticed_check sched source msg op _ hs hchecks _ hcomp :=
    Or.inl ((ends_receive msg op).finished_of_completed hs hchecks ((completed_iff _).mpr hcomp))
  failed_receive sched source msg op _ hf hf' := by
    have hsame : (receive msg op).val.failed = op.failed := (ends_receive msg op).failed_eq
    exact absurd (hf.symm.trans (hsame.symm.trans hf')) (by decide)
  smooth_receive sched source msg op h _ := by
    have hcheck : ∀ op : MoveConfigOperation, op.toOperation.Smooth →
        op.checkIfFinished.val.toOperation.Smooth := by
      intro op h
      rcases op.checkIfFinished_cases with ⟨-, he⟩ | ⟨-, he⟩ <;> rw [he] <;> exact h
    cases msg with
    | state msg => cases msg <;> exact h
    | getAck cls count =>
        cases cls with
        | config => exact hcheck { op with counters := _ } h
        | _ => exact h
    | putAck cls hashkey =>
        cases cls with
        | config =>
            show (receive (.putAck .config hashkey) op).val.toOperation.Smooth
            obtain ⟨chunk, op', -, -, hevents, hop', he | ⟨-, e, he⟩⟩ :=
              op.receive_putAck_cases hashkey
            · rw [he, hop']
              exact hcheck _ (h.setChunk fun event hm => h _ event (hevents event hm))
            · rw [he, hop']
              exact h.setChunk fun event hm => h _ event (hevents event hm)
        | _ => exact h
    | eventsAck => exact h
    | reprocess m => exact h

theorem fresh_new (id : Int) (src dst : Middlebox) (key : PerflowKey) :
    Fresh (new id src dst key) :=
  ⟨trivial, rfl, rfl, rfl, rfl, rfl, fun _ _ he => absurd he List.not_mem_nil⟩

end MoveConfigOperation

end OFM.Controller
