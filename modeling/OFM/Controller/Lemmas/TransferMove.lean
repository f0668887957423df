import OFM.Controller.Lemmas.MoveRun
import OFM.Controller.Lemmas.TransferBasic

/-!
# Moves are transfers
-/

namespace OFM.Controller.MoveOperation
open OFM.Lib MoveArguments

/-- The transfer in a move. -/
def transfer (op : MoveOperation) : Transfer where
  src := op.src
  dst := op.dst
  classes := op.scope.classes
  holds := op.buffersStates
  ordered := op.guarantee = .orderPreserving
  asksFirst := op.guarantee ≠ .noGuarantee ∧
    (op.optimization = .noOptimization ∨ op.optimization = .pz)
  queues := op.optimization = .pzLlEr
  throws := op.guarantee ≠ .orderPreserving ∧ op.RouteThrows
  counters := op.counters
  store ref := puts (op.stateChunks ref).call.out
  pool := chunkTasks op.threadPool
  list := op.statesList

/-- The classes of an admitted move. -/
theorem class_cases {args : MoveArguments} (h : args.Admitted) {cls : StateClass}
    (hcls : cls ∈ args.scope.classes) : cls = .perflow ∨ cls = .multiflow := by
  rcases admitted_scope h with hs | hs | hs <;> rw [hs] at hcls
  · exact Or.inl (List.mem_singleton.mp hcls)
  · exact Or.inr (List.mem_singleton.mp hcls)
  · simpa [Scope.classes] using hcls

theorem transfer_withChunk {op : MoveOperation} {ref : ChunkRef} {chunk : StateChunk}
    (hmsg : chunk.msg = (op.stateChunks ref).msg)
    (hdsts : chunk.dsts = (op.stateChunks ref).dsts) :
    (op.withChunk ref chunk).transfer = op.transfer := by
  have hstore : (fun ref' => puts ((op.setChunk ref chunk).stateChunks ref').call.out) =
      fun ref' => puts (op.stateChunks ref').call.out :=
    funext fun ref' => puts_setChunk hmsg hdsts ref'
  simp only [transfer, withChunk]
  rw [hstore]
  rfl

theorem transfer_stored {op : MoveOperation} {msg : StateMessage} {ref : ChunkRef}
    (h : msg.cls ≠ .config) :
    (op.withChunk ref ((op.stateChunks ref).storeStateMessage msg [op.dst])).transfer =
      { op.transfer with
        store := Function.update op.transfer.store ref {(op.dst, msg.content)} } := by
  simp only [transfer, withChunk]
  rw [puts_setChunk_stored h]
  rfl

theorem takes_receiveState {op : MoveOperation} {msg : StateMessage}
    (hcls : msg.cls = .perflow ∨ msg.cls = .multiflow) :
    op.transfer.Takes msg.content (op.receiveState msg).val.transfer
      (puts (op.receiveState msg).out) := by
  have hne : msg.cls ≠ .config := by
    rcases hcls with h | h <;> rw [h] <;> decide
  have hreceive : op.receiveState msg = op.receiveStateMessage msg := by
    cases msg with
    | perflow => rfl
    | multiflow => rfl
    | allflows => rcases hcls with h | h <;> cases h
    | config => exact absurd rfl hne
  have hstored := @transfer_stored op msg (op.obtainStateChunk msg.hashkey) hne
  rw [hreceive]
  unfold receiveStateMessage
  by_cases hb : op.buffersStates
  · have hout : ∀ chunk, (op.withChunk (op.obtainStateChunk msg.hashkey) chunk).buffersStates :=
      fun _ => hb
    simp only [if_pos (hout _), Emit.pure_val, Emit.pure_out, puts_nil]
    have htake : op.transfer.Takes msg.content _ 0 :=
      .hold (rfl : (op.obtainStateChunk msg.hashkey).hashkey = msg.hashkey) (by simp [transfer, hb])
    convert htake using 1
    exact congrArg (fun t : Transfer =>
      { t with list := t.list ++ [op.obtainStateChunk msg.hashkey] }) hstored
  · have hout : ∀ chunk, ¬ (op.withChunk (op.obtainStateChunk msg.hashkey) chunk).buffersStates :=
      fun _ => hb
    simp only [if_neg (hout _), Emit.pure_val, Emit.pure_out, puts_nil]
    have htake : op.transfer.Takes msg.content _ 0 :=
      .submit (rfl : (op.obtainStateChunk msg.hashkey).hashkey = msg.hashkey)
        (by simp [transfer, hb])
    convert htake using 1
    have htask : ∀ op' : MoveOperation,
        (op'.withTask (.chunk (op.obtainStateChunk msg.hashkey))).transfer =
          { op'.transfer with
            pool := op'.transfer.pool ++ [op.obtainStateChunk msg.hashkey] } :=
      fun op' => congrArg (fun pool => ({ op'.transfer with pool := pool } : Transfer))
        (chunkTasks_append_chunk op'.threadPool _)
    rw [htask, hstored]
    rfl

theorem transfer_receiveEventsAck (op : MoveOperation) (source : Middlebox) :
    (op.receiveEventsAck source).val.transfer = op.transfer := by
  rcases op.receiveEventsAck_cases source with ⟨-, h⟩ | ⟨-, -, h⟩ | ⟨-, -, h⟩ <;>
  exact congrArg (fun r => transfer (Emit.val r)) h

theorem smooth_receiveState [PacketUtil] {op : MoveOperation} (h : op.Smooth) (msg : StateMessage) :
    (op.receiveState msg).val.toOperation.Smooth := by
  have hreceive : ∀ msg : StateMessage, (op.receiveStateMessage msg).val.toOperation.Smooth := by
    intro msg
    have hset : Operation.Smooth (op.setChunk (op.obtainStateChunk msg.hashkey)
        ((op.stateChunks (op.obtainStateChunk msg.hashkey)).storeStateMessage msg [op.dst])) :=
      h.setChunk (h _)
    unfold receiveStateMessage
    dsimp only
    split
    · exact hset
    · exact hset
  cases msg with
  | perflow => exact hreceive _
  | multiflow => exact hreceive _
  | allflows => exact h
  | config => exact h

variable [PacketUtil]
variable {op : MoveOperation} {sched : Schedule}

theorem transfer_checkIfStateMoved (op : MoveOperation) (sched : Schedule) :
    (op.checkIfStateMoved sched).val.transfer = op.transfer := by
  rcases op.checkIfStateMoved_cases sched with
    ⟨-, h⟩ | ⟨-, -, -, h⟩ | ⟨-, -, _, _, _, -, -, h⟩ | ⟨-, -, _, -, h⟩ | ⟨-, -, _, -, h⟩ <;>
  exact congrArg (fun r => transfer (Emit.val r)) h

theorem transfer_receivePutAckOf (op : MoveOperation) (sched : Schedule) (hashkey : Int) :
    (op.receivePutAckOf sched hashkey).val.transfer = op.transfer := by
  obtain ⟨_, _, rfl, rfl, ⟨-, _, rfl, h⟩ | ⟨_, _, _, _, -, -, h⟩⟩ :=
    op.receivePutAckOf_cases sched hashkey
  · rw [h, transfer_checkIfStateMoved]
    exact transfer_withChunk rfl rfl
  · rw [h]
    exact transfer_withChunk rfl rfl

theorem transfer_receiveGetAckOf (op : MoveOperation) (sched : Schedule) (cls other : StateClass)
    (count : Int) :
    (op.receiveGetAckOf sched cls other count).val.transfer =
      { op.transfer with counters := op.counters.recordGetAck cls count } := by
  unfold receiveGetAckOf
  dsimp only
  split
  · split <;> rfl
  · exact transfer_checkIfStateMoved _ _

theorem transfer_receiveReprocess (op : MoveOperation) (msg : ReprocessMessage)
    (source : Middlebox) : (op.receiveReprocess msg source).val.transfer = op.transfer := by
  have htask : ∀ (op : MoveOperation) (event : ReprocessEvent),
      (op.withTask (.event event)).transfer = op.transfer :=
    fun op event => congrArg (fun pool => ({ op.transfer with pool := pool } : Transfer))
      (chunkTasks_append_event op.threadPool event)
  unfold receiveReprocess
  split
  · rfl
  · split
    · unfold receiveSrcReprocess
      dsimp only
      split
      · exact htask _ _
      · split
        · rfl
        · split
          · exact htask _ _
          · rename_i hack
            simp only [StateChunk.receivedReprocess, hack, Bool.false_eq_true, ↓reduceIte,
              Emit.bind_val, Emit.pure_val]
            exact transfer_withChunk rfl rfl
    · rw [receiveDstReprocess_val]

/-! ## Sends -/

/-- A check puts nothing. -/
theorem putContent_of_mem_check {op : MoveOperation} {mb : Middlebox} {cmd : Command}
    (h : .send mb cmd ∈ (op.checkIfStateMoved sched).out) : cmd.putContent = none := by
  have he : Emits op op.src (.putAck .perflow 0) _ _ :=
    emits_of_mem_check rfl (fun _ => ⟨_, _, rfl⟩) h
  cases he with
  | put hm => cases hm
  | get hm => cases hm
  | buffer => rfl
  | disable => rfl

omit [PacketUtil] in
/-- The class of a get-ack, and the other class if there is one, decide about the release. -/
theorem released_recordGetAck {op : MoveOperation} {cls other : StateClass} {count : Int}
    (hb : op.buffersStates) (hne : other ≠ cls)
    (hall : ∀ c ∈ op.scope.classes, c = cls ∨ c = other)
    (hother : op.scope = .pfMf ↔ other ∈ op.scope.classes) :
    ({ op.transfer with counters := op.counters.recordGetAck cls count } : Transfer).Released ↔
      ¬ (op.scope = .pfMf ∧ (op.counters.recordGetAck cls count).getAcked other = false) := by
  simp only [Transfer.Released, Transfer.AllAcked, transfer, hb, decide_true, true_and,
    Counters.recordGetAck_getAcked, Function.update_of_ne hne, hother, not_and,
    Bool.not_eq_false]
  constructor
  · intro h hm
    simpa [Function.update_of_ne hne] using h other hm
  · intro h c hc
    rcases hall c hc with rfl | rfl
    · simp
    · simpa [Function.update_of_ne hne] using h hc

theorem puts_receiveGetAckOf (op : MoveOperation) (sched : Schedule) {cls other : StateClass}
    {count : Int} (hne : other ≠ cls) (hall : ∀ c ∈ op.scope.classes, c = cls ∨ c = other)
    (hother : op.scope = .pfMf ↔ other ∈ op.scope.classes) :
    puts (op.receiveGetAckOf sched cls other count).out =
      if (op.receiveGetAckOf sched cls other count).val.transfer.Released then
        ((op.transfer.list.map op.transfer.store).sum : Multiset (Middlebox × Content)) else 0 := by
  rw [transfer_receiveGetAckOf]
  unfold receiveGetAckOf
  dsimp only
  by_cases hb : op.buffersStates
  · rw [if_pos (show MoveArguments.buffersStates _ from hb)]
    have hrel := @released_recordGetAck op cls other count hb hne hall hother
    by_cases hw : op.scope = .pfMf ∧ (op.counters.recordGetAck cls count).getAcked other = false
    · rw [if_pos hw, if_neg (fun h => hrel.mp h hw)]
      rfl
    · rw [if_neg hw, if_pos (hrel.mpr hw)]
      simp only [releaseBufferedStates, Emit.emit_out, puts_flatMap]
      exact ((sched.chunks_perm op.statesList).map _).sum_eq
  · rw [if_neg (show ¬ MoveArguments.buffersStates _ from hb)]
    have hrel : ¬ ({ op.transfer with counters := op.counters.recordGetAck cls count } :
        Transfer).Released := by
      rintro ⟨h, -⟩
      exact hb (by simpa [transfer] using h)
    rw [if_neg hrel]
    refine puts_eq_zero fun mb cmd hm => ?_
    exact putContent_of_mem_check hm

theorem smooth_checkIfStateMoved {op : MoveOperation} (h : op.Smooth) (sched : Schedule) :
    (op.checkIfStateMoved sched).val.toOperation.Smooth := by
  rcases op.checkIfStateMoved_cases sched with
    ⟨-, he⟩ | ⟨-, -, -, he⟩ | ⟨-, -, _, _, _, -, -, he⟩ | ⟨-, -, _, -, he⟩ | ⟨-, -, _, -, he⟩ <;>
  rw [he] <;> exact h

theorem smooth_receivePutAckOf {op : MoveOperation} (h : op.Smooth) (sched : Schedule)
    (hashkey : Int) : (op.receivePutAckOf sched hashkey).val.toOperation.Smooth := by
  obtain ⟨_, _, rfl, rfl, ⟨-, _, rfl, he⟩ | ⟨pre, event, rest, e, hl, -, he⟩⟩ :=
    op.receivePutAckOf_cases sched hashkey
  · rw [he]
    exact smooth_checkIfStateMoved (h.setChunk fun event hm => absurd hm List.not_mem_nil) sched
  · rw [he]
    refine h.setChunk fun event' hm => h (op.obtainStateChunk hashkey) event' ?_
    rw [hl]
    exact List.mem_append_right _ (List.mem_cons_of_mem _ hm)

theorem smooth_receiveReprocess {op : MoveOperation} (h : op.Smooth) {msg : ReprocessMessage}
    {source : Middlebox} (hmsg : op.optimization = .pzLlEr → source = op.src →
      msg.Deliverable op.dst) :
    (op.receiveReprocess msg source).val.toOperation.Smooth := by
  unfold receiveReprocess
  split
  · exact h
  · split
    · rename_i hs
      unfold receiveSrcReprocess
      dsimp only
      split
      · exact h
      · split
        · exact h
        · rename_i hopt
          split
          · exact h
          · rename_i hack
            simp only [StateChunk.receivedReprocess, hack, Bool.false_eq_true, ↓reduceIte,
              Emit.bind_val, Emit.pure_val]
            refine h.setChunk fun event he => ?_
            rcases List.mem_append.mp he with he | he
            · exact h _ event he
            · rw [List.mem_singleton.mp he]
              obtain ⟨hsw, hp⟩ := hmsg (not_not.mp hopt) hs
              exact (ReprocessEvent.releases_iff rfl).mpr ⟨hp, hsw⟩
    · rw [receiveDstReprocess_val]; exact h

/-! ## The end of a move -/

theorem not_mem_flatMap_sent (events : List ReprocessEvent) :
    .operationFinished ∉ events.flatMap ReprocessEvent.sent := by
  intro h
  obtain ⟨event, -, sw, packet, he⟩ := eventOut_of_mem_flatMap_sent h
  cases he

theorem count_checkIfStateMoved (op : MoveOperation) (sched : Schedule) :
    (op.checkIfStateMoved sched).out.count .operationFinished ≤ 1 := by
  have hsent := fun events => List.count_eq_zero.mpr (not_mem_flatMap_sent events)
  rcases op.checkIfStateMoved_cases sched with
    ⟨-, h⟩ | ⟨-, -, -, h⟩ | ⟨-, -, _, _, _, -, -, h⟩ | ⟨-, -, rules, hrules, h⟩ | ⟨-, -, _, -, h⟩
  · rw [h]; exact Nat.zero_le 1
  · rw [h]; simp [hsent]
  · rw [h]; simp [List.count_append, hsent]
  · rw [h]
    have hroute : rules.count .operationFinished = 0 := by
      refine List.count_eq_zero.mpr fun hm => ?_
      obtain ⟨_, -, -, he⟩ := mem_updateForwardingToDst hrules hm
      cases he
    simp [List.count_append, hsent, hroute]
  · rw [h]; simp

theorem count_receive (sched : Schedule) (source : Middlebox) (msg : Message) (op : MoveOperation) :
    (receive sched source msg op).out.count .operationFinished ≤ 1 := by
  have hsent := fun events => List.count_eq_zero.mpr (not_mem_flatMap_sent events)
  have hputAck : ∀ (op : MoveOperation) (hashkey : Int),
      (op.receivePutAckOf sched hashkey).out.count .operationFinished ≤ 1 := by
    intro op hashkey
    obtain ⟨_, _, -, -, ⟨-, op', -, h⟩ | ⟨_, _, _, _, -, -, h⟩⟩ :=
      op.receivePutAckOf_cases sched hashkey
    · rw [h]
      simpa [List.count_append, hsent] using count_checkIfStateMoved op' sched
    · rw [h]
      simp [List.count_append, hsent]
  have hgetAck : ∀ cls other count,
      (op.receiveGetAckOf sched cls other count).out.count .operationFinished ≤ 1 := by
    intro cls other count
    unfold receiveGetAckOf
    dsimp only
    split
    · split
      · exact Nat.zero_le 1
      · rw [List.count_eq_zero.mpr]
        · exact Nat.zero_le 1
        · intro h
          obtain ⟨ref, -, hm⟩ := List.mem_flatMap.mp h
          obtain ⟨mb, putMsg, he⟩ := StateChunk.put_of_mem_call hm
          cases he
    · exact count_checkIfStateMoved _ sched
  cases msg with
  | state msg =>
      have hout : (receive sched source (.state msg) op).out = [] := by
        cases msg <;> simp only [receive, receiveState, receiveStateMessage] <;> (try split) <;> rfl
      rw [hout]
      exact Nat.zero_le 1
  | getAck cls count => cases cls <;> first | exact hgetAck _ _ _ | exact Nat.zero_le 1
  | putAck cls hashkey => cases cls <;> first | exact hputAck _ _ | exact Nat.zero_le 1
  | eventsAck =>
      rcases op.receiveEventsAck_cases source with ⟨-, h⟩ | ⟨-, -, h⟩ | ⟨-, -, h⟩
      · rw [show receive sched source .eventsAck op = _ from h, List.count_eq_zero.mpr]
        · exact Nat.zero_le 1
        · intro hm
          obtain ⟨cmd, cls, he, -⟩ := get_of_mem_issueGet hm
          cases he
      · rw [show receive sched source .eventsAck op = _ from h]; simp
      · rw [show receive sched source .eventsAck op = _ from h]; simp
  | reprocess m =>
      rw [List.count_eq_zero.mpr]
      · exact Nat.zero_le 1
      · intro hm
        have he : Emits op source (.reprocess m) _ _ := emits_of_mem_receive hm
        cases he with
        | finishRouted hm => cases hm
        | finishAcked hm => cases hm

/-- What a handler does to the flag that the transfer has been found complete. -/
inductive Notices (op : MoveOperation) (msg : Message) (r : Emit Effect MoveOperation) : Prop
  | same (h : r.val.immediateRelease = op.immediateRelease) (hf : r.val.failed = op.failed)
      (hc : (op.toOperation.Smooth → msg.isAck = true →
        (∃ cls count, msg = .getAck cls count ∧ op.buffersStates) ∨ r.val.completed = false ∨
        (∃ cls, (cls = .allflows ∨ cls = .config) ∧
          ((∃ count, msg = .getAck cls count) ∨ ∃ hashkey, msg = .putAck cls hashkey)) ∨
        op.guarantee ≠ .orderPreserving ∧ op.RouteThrows)) :
      Notices op msg r
  | noticed (h : r.val.immediateRelease = true) (hf : r.val.failed = op.failed)
      (hc : r.val.completed = true)
      (hout : op.guarantee ≠ .orderPreserving → .operationFinished ∈ r.out) : Notices op msg r
  | failed (h : r.val.immediateRelease = op.immediateRelease) (hf : r.val.failed = true)
      (hg : op.guarantee = .orderPreserving) (hc : r.val.completed = true) : Notices op msg r

theorem notices_check {op op₀ : MoveOperation} {msg : Message} {r : Emit Effect MoveOperation}
    {sched : Schedule} (pre : List Effect) (hr : r = ⟨(op.checkIfStateMoved sched).val,
      pre ++ (op.checkIfStateMoved sched).out⟩) (himm : op.immediateRelease = op₀.immediateRelease)
    (hfail : op.failed = op₀.failed) (hargs : op.toMoveArguments = op₀.toMoveArguments) :
    Notices op₀ msg r := by
  subst hr
  have hcomp := checkIfStateMoved_completed op sched
  have hg : op.guarantee = op₀.guarantee := congrArg MoveArguments.guarantee hargs
  rcases op.checkIfStateMoved_cases sched with
    ⟨hc, h⟩ | ⟨hc, hg', -, h⟩ | ⟨hc, hg', _, _, _, -, -, h⟩ | ⟨hc, hg', _, -, h⟩ | ⟨hc, hg', e, herror, h⟩
  · refine .same ?_ ?_ fun _ _ => Or.inr (Or.inl (hcomp.trans hc))
    · rw [h]; exact himm
    · rw [h]; exact hfail
  · refine .noticed (by rw [h]) ?_ (hcomp.trans hc) fun hne => absurd (hg.symm.trans hg') hne
    rw [h]; exact hfail
  · refine .failed ?_ (by rw [h]) (hg.symm.trans hg') (hcomp.trans hc)
    rw [h]; exact himm
  · refine .noticed (by rw [h]) ?_ (hcomp.trans hc) fun _ => ?_
    · rw [h]; exact hfail
    · rw [h]; simp
  · refine .same ?_ ?_ fun _ _ => Or.inr (Or.inr (Or.inr ⟨hg ▸ hg', hargs ▸ routeThrows_of_error herror⟩))
    · rw [h]; exact himm
    · rw [h]; exact hfail

theorem notices_receive (sched : Schedule) (source : Middlebox) (msg : Message)
    (op : MoveOperation) : Notices op msg (receive sched source msg op) := by
  have hputAck : ∀ cls hashkey k, Notices op (.putAck cls hashkey)
      (receivePutAckOf { op with counters := k } sched hashkey) := by
    intro cls hashkey k
    obtain ⟨_, _, rfl, rfl, ⟨-, op', hop', h⟩ | ⟨pre, event, rest, e, hl, hn, h⟩⟩ :=
      receivePutAckOf_cases { op with counters := k } sched hashkey
    · exact notices_check _ h (by rw [hop']; rfl) (by rw [hop']; rfl) (by rw [hop']; rfl)
    · refine .same (by rw [h]; rfl) (by rw [h]; rfl) fun hs _ => ?_
      refine absurd (hs (op.obtainStateChunk hashkey) event ?_) hn
      exact hl ▸ List.mem_append_right _ List.mem_cons_self
  have hgetAck : ∀ cls other count, Notices op (.getAck cls count)
      (op.receiveGetAckOf sched cls other count) := by
    intro cls other count
    unfold receiveGetAckOf
    dsimp only
    by_cases hb : op.buffersStates
    · rw [if_pos (show MoveArguments.buffersStates _ from hb)]
      split
      · exact .same rfl rfl fun _ _ => Or.inl ⟨cls, count, rfl, hb⟩
      · exact .same rfl rfl fun _ _ => Or.inl ⟨cls, count, rfl, hb⟩
    · rw [if_neg (show ¬ MoveArguments.buffersStates _ from hb)]
      exact notices_check [] rfl rfl rfl rfl
  cases msg with
  | state msg =>
      refine .same ?_ ?_ fun _ hack => absurd hack Bool.false_ne_true
      · cases msg <;> simp only [receive, receiveState, receiveStateMessage] <;> (try split) <;> rfl
      · cases msg <;> simp only [receive, receiveState, receiveStateMessage] <;> (try split) <;> rfl
  | getAck cls count =>
      cases cls with
      | perflow => exact hgetAck .perflow .multiflow count
      | multiflow => exact hgetAck .multiflow .perflow count
      | allflows =>
          exact .same rfl rfl fun _ _ => Or.inr (Or.inr (Or.inl ⟨_, Or.inl rfl, Or.inl ⟨count, rfl⟩⟩))
      | config =>
          exact .same rfl rfl fun _ _ => Or.inr (Or.inr (Or.inl ⟨_, Or.inr rfl, Or.inl ⟨count, rfl⟩⟩))
  | putAck cls hashkey =>
      cases cls with
      | perflow => exact hputAck .perflow hashkey _
      | multiflow => exact hputAck .multiflow hashkey _
      | allflows =>
          exact .same rfl rfl fun _ _ => Or.inr (Or.inr (Or.inl ⟨_, Or.inl rfl, Or.inr ⟨hashkey, rfl⟩⟩))
      | config =>
          exact .same rfl rfl fun _ _ => Or.inr (Or.inr (Or.inl ⟨_, Or.inr rfl, Or.inr ⟨hashkey, rfl⟩⟩))
  | eventsAck =>
      rcases op.receiveEventsAck_cases source with ⟨-, h⟩ | ⟨-, -, h⟩ | ⟨-, -, h⟩ <;>
      rw [show receive sched source .eventsAck op = _ from h] <;>
      exact .same rfl rfl fun _ hack => absurd hack Bool.false_ne_true
  | reprocess m =>
      refine .same ?_ ?_ fun _ hack => absurd hack Bool.false_ne_true
      all_goals
        simp only [receive, receiveReprocess]
        split
        · rfl
        · split
          · unfold receiveSrcReprocess
            dsimp only
            split
            · rfl
            · split
              · rfl
              · split
                · rfl
                · rename_i hack
                  simp only [StateChunk.receivedReprocess, hack, Bool.false_eq_true, ↓reduceIte]
                  rfl
          · rw [receiveDstReprocess_val]

/-! ## The instance -/

omit [PacketUtil] in
theorem execute_cases (op : MoveOperation) :
    (op.transfer.asksFirst = true ∧
      op.execute.out = [.send op.src (.enableEvents op.id op.key .drop)]) ∨
    (op.transfer.asksFirst = false ∧ op.execute.out = op.issueGet.out) := by
  unfold execute
  split
  · rename_i h; exact Or.inl ⟨by simpa [transfer] using h, rfl⟩
  · rename_i h; exact Or.inr ⟨by simpa only [transfer, decide_eq_false_iff_not] using h, rfl⟩

omit [PacketUtil] in
theorem count_issueGet {op : MoveOperation} (hargs : op.toMoveArguments.Admitted) (cls : StateClass) :
    (commandsTo op.src op.issueGet.out).countP (fun cmd => cmd.getClass = some cls) =
      if cls ∈ op.scope.classes then 1 else 0 := by
  rcases admitted_scope hargs with h | h | h <;> cases cls <;>
    simp [issueGet, h, commandsTo, Command.getClass, Scope.classes]

omit [PacketUtil] in
theorem send_of_mem_execute' {op : MoveOperation} {mb : Middlebox} {cmd : Command}
    (h : .send mb cmd ∈ op.execute.out) : mb = op.src ∧ cmd.putContent = none ∧
      (cmd.isToggle = true → op.transfer.asksFirst = true) := by
  rcases op.execute_cases with ⟨ha, he⟩ | ⟨-, he⟩
  · rw [he, List.mem_singleton, Effect.send.injEq] at h
    obtain ⟨rfl, rfl⟩ := h
    exact ⟨rfl, rfl, fun _ => ha⟩
  · rw [he] at h
    obtain ⟨cmd', cls, hs, hget⟩ := get_of_mem_issueGet h
    obtain ⟨rfl, rfl⟩ := Effect.send.inj hs
    refine ⟨rfl, ?_, fun ht => ?_⟩
    · cases cmd <;> first | rfl | cases hget
    · cases cmd <;> first | (cases ht; done) | cases hget

omit [PacketUtil] in
theorem count_toggles_execute (op : MoveOperation) :
    (commandsTo op.src op.execute.out).countP Command.isToggle =
      if op.transfer.asksFirst then 1 else 0 := by
  rcases op.execute_cases with ⟨ha, he⟩ | ⟨ha, he⟩
  · rw [he, ha]; simp [commandsTo, Command.isToggle]
  · rw [he, ha, List.countP_eq_zero.mpr]
    · rfl
    · intro cmd hm ht
      obtain ⟨cmd', cls, hs, hget⟩ := get_of_mem_issueGet (mem_commandsTo.mp hm)
      obtain ⟨-, rfl⟩ := Effect.send.inj hs
      cases cmd <;> first | (cases ht; done) | cases hget

omit [PacketUtil] in
theorem count_gets_execute {op : MoveOperation} (hargs : op.toMoveArguments.Admitted)
    (cls : StateClass) :
    (commandsTo op.src op.execute.out).countP (fun cmd => cmd.getClass = some cls) =
      if op.transfer.asksFirst = false ∧ cls ∈ op.scope.classes then 1 else 0 := by
  rcases op.execute_cases with ⟨ha, he⟩ | ⟨ha, he⟩
  · rw [he, ha]; simp [commandsTo, Command.getClass]
  · rw [he, ha, count_issueGet hargs]; simp

instance : TransferOperation MoveOperation where
  transfer := transfer
  Valid op := op.toMoveArguments.Admitted
  noticed op := op.immediateRelease
  handledClasses _ := [.perflow, .multiflow]
  pool_eq _ := rfl
  store_eq _ _ := rfl
  setPool _ _ := rfl
  setPool_valid _ _ h := h
  setPool_noticed _ _ := rfl
  classes_nodup op := op.scope.classes_nodup
  classes_ne_nil op _ := by
    show op.scope.classes ≠ []
    cases op.scope <;> decide
  classes_handled op h cls hcls := by
    rcases class_cases h hcls with rfl | rfl <;> decide
  valid_receive sched source msg op h := by
    show (receive sched source msg op).val.toMoveArguments.Admitted
    rw [receive_args]; exact h
  execute_send op mb cmd h := send_of_mem_execute' h
  execute_toggles op := count_toggles_execute op
  execute_gets op cls h := count_gets_execute h cls
  execute_finish op h := by
    rcases send_of_mem_execute h with he | ⟨cmd, cls, he, -⟩ <;> cases he
  packet_transfer packet inSwitch inPort op := by
    rcases op.receivePacket_cases packet inSwitch inPort with
      ⟨-, h⟩ | ⟨-, -, ⟨_, -, h⟩ | ⟨_, -, ⟨_, -, h⟩ | ⟨_, -, -, h⟩⟩⟩ <;>
    exact congrArg (fun r => transfer (Emit.val r)) h
  packet_base packet inSwitch inPort op := by
    rcases op.receivePacket_cases packet inSwitch inPort with
      ⟨-, h⟩ | ⟨-, -, ⟨_, -, h⟩ | ⟨_, -, ⟨_, -, h⟩ | ⟨_, -, -, h⟩⟩⟩ <;>
    exact congrArg (fun r => toOperation (Emit.val r)) h
  packet_valid packet inSwitch inPort op h := by
    have hargs : (op.receivePacket packet inSwitch inPort).val.toMoveArguments =
        op.toMoveArguments := by
      rcases op.receivePacket_cases packet inSwitch inPort with
        ⟨-, h⟩ | ⟨-, -, ⟨_, -, h⟩ | ⟨_, -, ⟨_, -, h⟩ | ⟨_, -, -, h⟩⟩⟩ <;>
      exact congrArg (fun r => toMoveArguments (Emit.val r)) h
    exact hargs.symm ▸ h
  packet_noticed packet inSwitch inPort op := by
    rcases op.receivePacket_cases packet inSwitch inPort with
      ⟨-, h⟩ | ⟨-, -, ⟨_, -, h⟩ | ⟨_, -, ⟨_, -, h⟩ | ⟨_, -, -, h⟩⟩⟩ <;>
    exact congrArg (fun r => immediateRelease (Emit.val r)) h
  packet_out packet inSwitch inPort op := by
    have hrule : ∀ e ∈ (op.receivePacket packet inSwitch inPort).out,
        (∃ x, e = .thrown x) ∨ ∃ sw p ports k, e = .installRule sw p ports k := by
      intro e he
      rcases op.receivePacket_cases packet inSwitch inPort with
        ⟨-, h⟩ | ⟨-, -, ⟨_, -, h⟩ | ⟨_, -, ⟨rules, hrules, h⟩ | ⟨_, -, -, h⟩⟩⟩
      · rw [h] at he; cases he
      · rw [h] at he; exact Or.inl ⟨_, List.mem_singleton.mp he⟩
      · rw [h] at he
        split at hrules
        · obtain rfl := Except.ok.inj hrules
          cases he
        · obtain ⟨_, -, -, heq⟩ := mem_updateForwardingToDst hrules he
          exact Or.inr ⟨_, _, _, _, heq⟩
      · rw [h] at he; exact Or.inl ⟨_, List.mem_singleton.mp he⟩
    constructor
    · intro mb cmd h
      rcases hrule _ h with ⟨_, he⟩ | ⟨_, _, _, _, he⟩ <;> cases he
    · intro h
      rcases hrule _ h with ⟨_, he⟩ | ⟨_, _, _, _, he⟩ <;> cases he
  receive_state sched source msg op h hcls := takes_receiveState (by simpa using hcls)
  receive_getAck sched source cls count op h hcls := by
    rcases class_cases h hcls with rfl | rfl <;> exact transfer_receiveGetAckOf _ _ _ _ _
  puts_getAck sched source cls count op h hcls := by
    have hother : ∀ cls other, (cls = .perflow ∧ other = .multiflow ∨
        cls = .multiflow ∧ other = .perflow) → cls ∈ op.scope.classes →
        (∀ c ∈ op.scope.classes, c = cls ∨ c = other) ∧
          (op.scope = .pfMf ↔ other ∈ op.scope.classes) := by
      rintro cls other (⟨rfl, rfl⟩ | ⟨rfl, rfl⟩) <;>
      rcases admitted_scope h with hs | hs | hs <;> rw [hs] <;> decide
    rcases class_cases h hcls with rfl | rfl
    · obtain ⟨h₁, h₂⟩ := hother .perflow .multiflow (Or.inl ⟨rfl, rfl⟩) hcls
      exact puts_receiveGetAckOf op sched (by decide) h₁ h₂
    · obtain ⟨h₁, h₂⟩ := hother .multiflow .perflow (Or.inr ⟨rfl, rfl⟩) hcls
      exact puts_receiveGetAckOf op sched (by decide) h₁ h₂
  receive_putAck sched source cls hashkey op h hcls := by
    have hcases : cls = .perflow ∨ cls = .multiflow := by simpa using hcls
    rcases hcases with rfl | rfl <;> exact transfer_receivePutAckOf _ _ _
  receive_other sched source msg op h := by
    rcases h with rfl | ⟨m, rfl⟩
    · exact transfer_receiveEventsAck op source
    · exact transfer_receiveReprocess op m source
  receive_send sched source msg op mb cmd h := by
    cases emits_of_mem_receive h with
    | put hm => exact Or.inl ⟨nofun, Or.inr ⟨_, _, hm⟩⟩
    | get hm hs hget =>
        refine Or.inr (Or.inl ⟨?_, rfl, hm, hs⟩)
        rw [hget]; nofun
    | buffer hg hc => exact Or.inr (Or.inr ⟨rfl, rfl, Or.inl (by simp [transfer, hg])⟩)
    | disable hm hs => exact Or.inr (Or.inr ⟨rfl, rfl, Or.inr ⟨⟨_, hm⟩, hs⟩⟩)
  receive_gets sched op cls h _ := by
    rcases op.receiveEventsAck_cases op.src with ⟨-, he⟩ | ⟨hs, -⟩ | ⟨hs, -⟩
    · show (commandsTo op.src (op.receiveEventsAck op.src).out).countP _ = _
      rw [he]
      exact count_issueGet h cls
    · exact absurd rfl hs
    · exact absurd rfl hs
  finish_count := count_receive
  finish_mem sched source msg op h hord hm := by
    have hg : op.guarantee ≠ .orderPreserving := by simpa [transfer] using hord
    cases emits_of_mem_receive hm with
    | finishRouted hmsg hb hg' hc hroute =>
        have hadm : (receive sched source msg op).val.toMoveArguments.Admitted := by
          rw [receive_args]; exact h
        refine Or.inl ⟨(completed_iff hadm).mp hc, hmsg, fun hh => ?_, by simp [transfer, hroute]⟩
        obtain ⟨_, _, rfl⟩ := hb (of_decide_eq_true hh)
        exact nofun
    | finishAcked hmsg hs hb => exact Or.inr ⟨hmsg, hs⟩
  noticed_finish sched source msg op h hord hn := by
    have hg : op.guarantee ≠ .orderPreserving := by simpa [transfer] using hord
    cases notices_receive sched source msg op with
    | same hi => exact Or.inl (hi.symm.trans hn)
    | noticed hi hf hc hout => exact Or.inr (hout hg)
    | failed hi hf hg' => exact absurd hg' hg
  noticed_receive sched source msg op hn := by
    cases notices_receive sched source msg op with
    | same hi => exact hi.trans hn
    | noticed hi => exact hi
    | failed hi => exact hi.trans hn
  noticed_check sched source msg op h hsmooth hchecks hthrows hcomp := by
    have hadm : (receive sched source msg op).val.toMoveArguments.Admitted := by
      rw [receive_args]; exact h
    cases notices_receive sched source msg op with
    | same hi hf hc =>
        have hack : msg.isAck = true := by
          cases msg <;> first | rfl | exact absurd hchecks id
        rcases hc hsmooth hack with ⟨cls, count, rfl, hb⟩ | hc |
          ⟨cls, hcls, ⟨count, rfl⟩ | ⟨hashkey, rfl⟩⟩ | hroute
        · exact absurd hchecks.2 (by simp [transfer, hb])
        · rw [(completed_iff hadm).mpr hcomp] at hc; cases hc
        · rcases class_cases h hchecks.1 with rfl | rfl <;> simp at hcls
        · rcases class_cases h hchecks with rfl | rfl <;> simp at hcls
        · exact absurd (hthrows.symm.trans (decide_eq_true hroute)) Bool.false_ne_true
    | noticed hi => exact Or.inl hi
    | failed hi hf => exact Or.inr hf
  failed_receive sched source msg op h hf hf' := by
    have hadm : (receive sched source msg op).val.toMoveArguments.Admitted := by
      rw [receive_args]; exact h
    cases notices_receive sched source msg op with
    | same hi hsame => exact absurd (hf.symm.trans (hsame.symm.trans hf')) (by decide)
    | noticed hi hsame => exact absurd (hf.symm.trans (hsame.symm.trans hf')) (by decide)
    | failed hi hfail hg hc => exact ⟨by simp [transfer, hg], (completed_iff hadm).mp hc⟩
  smooth_receive sched source msg op h hmsg := by
    cases msg with
    | state msg => exact smooth_receiveState h msg
    | getAck cls count =>
        have hget : ∀ cls other count,
            (op.receiveGetAckOf sched cls other count).val.toOperation.Smooth := by
          intro cls other count
          unfold receiveGetAckOf
          dsimp only
          split
          · split <;> exact h
          · refine smooth_checkIfStateMoved ?_ sched
            exact h
        cases cls <;> first | exact hget _ _ _ | exact h
    | putAck cls hashkey =>
        have hput : ∀ k, (receivePutAckOf { op with counters := k } sched
            hashkey).val.toOperation.Smooth := by
          intro k
          refine smooth_receivePutAckOf ?_ sched hashkey
          exact h
        cases cls <;> first | exact hput _ | exact h
    | eventsAck =>
        rcases op.receiveEventsAck_cases source with ⟨-, he⟩ | ⟨-, -, he⟩ | ⟨-, -, he⟩ <;>
        exact (congrArg (fun r => Operation.Smooth (Emit.val r).toOperation) he).mpr h
    | reprocess m => exact smooth_receiveReprocess h fun ho => hmsg (decide_eq_true ho) m rfl

theorem fresh_new (id : Int) {args : MoveArguments} (h : args.Admitted) : Fresh (new id args) :=
  ⟨h, rfl, rfl, rfl, rfl, rfl, fun _ _ he => absurd he List.not_mem_nil⟩

end OFM.Controller.MoveOperation
