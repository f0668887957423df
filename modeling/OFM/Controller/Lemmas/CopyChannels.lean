import OFM.Controller.Channelled
import OFM.Controller.Lemmas.TransferComplete
import OFM.Controller.Lemmas.TransferCopy

/-!
# Copies behind their channels

What a source holds, and the runs of a copy in which every message goes through its channel: without
all-flows chunks they are those of the copy itself, and with one the copy never finishes.
-/

namespace OFM.Controller
open OFM.Lib TransferOperation

/-! ## The source of a copy -/

/-- What `sdmbn_send_perflow` and `sdmbn_send_multiflow` are given. -/
structure Chunk where
  key : PerflowKey
  hashkey : Int
  seq : Int
  state : JavaString
  deriving DecidableEq

/-- The chunks an instance has of each class; one of all flows is no more than its state. -/
structure Stock where
  perflow : List Chunk
  multiflow : List Chunk
  allflows : List JavaString

namespace Stock

def held (stock : Stock) (id : Int) : StateClass → List StateMessage
  | .perflow => stock.perflow.map fun c => .perflow id c.seq (some c.key) c.hashkey c.state
  | .multiflow => stock.multiflow.map fun c => .multiflow id c.seq (some c.key) c.hashkey c.state
  | .allflows => stock.allflows.map fun state => .allflows id 0 state
  | .config => []

theorem held_cls (stock : Stock) (id : Int) (cls : StateClass) :
    ∀ msg ∈ stock.held id cls, msg.cls = cls := by
  intro msg hm
  cases cls with
  | config => cases hm
  | _ =>
      obtain ⟨c, -, rfl⟩ := List.mem_map.mp hm
      rfl

/-- The instance with the chunks, when it is asked for those of the operation with the id. -/
def holder (stock : Stock) (id : Int) : Holder := ⟨stock.held id, stock.held_cls id, false⟩

/-- All but all-flows chunks come out of their line as they went in. -/
theorem preserved {stock : Stock} {id : Int} {cls : StateClass} {msg : StateMessage}
    (hm : msg ∈ stock.held id cls) (hcls : cls ≠ .allflows) : (Message.state msg).Preserved id := by
  cases cls with
  | allflows => exact absurd rfl hcls
  | config => cases hm
  | _ =>
      obtain ⟨c, -, rfl⟩ := List.mem_map.mp hm
      exact ⟨rfl, Option.some_ne_none _⟩

end Stock

/-- The same network, its messages handed over without lines. -/
def Network.direct {σ ν : Type} (n : Network (Channelled σ) ν) : Network σ ν := n

theorem Network.step_deliver_eq [PacketUtil] {σ ν ι : Type} [Handlers σ] [NetworkFunction ν ι]
    {n : Network σ ν} (sched : Schedule) {i : Nat} {source : Middlebox} {msg : Message}
    (hi : n.inFlight[i]? = some (source, msg)) : n.step (.deliver sched i : Act ι) =
      if (Handlers.base n.op).isFailed then some { n with inFlight := n.inFlight.eraseIdx i }
      else some ((record { n with inFlight := n.inFlight.eraseIdx i }
        (Handlers.receive sched source msg n.op)).note source msg) := by
  simp only [step, hi]

/-- What a chunk puts is the message it holds. -/
theorem StateChunk.content_of_mem_call {chunk : StateChunk} {mb : Middlebox} {cmd : Command} {c : Content}
    (hm : .send mb cmd ∈ chunk.call.out) (hput : cmd.putContent = some c) :
    ∃ msg, chunk.msg = some msg ∧ c = msg.content := by
  unfold StateChunk.call at hm
  split at hm
  · rename_i msg dsts hmsg hdsts
    split at hm
    · rename_i putMsg hp
      obtain ⟨dst, -, he⟩ := List.mem_map.mp hm
      obtain ⟨-, rfl⟩ := Effect.send.inj he
      exact ⟨msg, hmsg, (Option.some.inj hput).symm.trans (StateMessage.toPut_content hp)⟩
    · cases hm
  · cases hm

namespace CopyOperation

variable [PacketUtil]

/-! ## What the handlers of a copy leave alone -/

theorem receive_same (msg : Message) (op : CopyOperation) :
    ((receive msg op).val.id, (receive msg op).val.failed, (receive msg op).val.src,
      (receive msg op).val.scope) = (op.id, op.failed, op.src, op.scope) := by
  have hcheck : ∀ op : CopyOperation, (op.checkIfFinished.val.id, op.checkIfFinished.val.failed,
      op.checkIfFinished.val.src, op.checkIfFinished.val.scope) = (op.id, op.failed, op.src, op.scope) := by
    intro op
    rcases op.checkIfFinished_cases with ⟨-, h⟩ | ⟨-, h⟩ <;> rw [h]
  cases msg with
  | state msg => cases msg <;> rfl
  | getAck cls count => cases cls <;> first | exact hcheck _ | rfl
  | putAck cls hashkey =>
      by_cases hcls : cls = .config
      · subst hcls
        rfl
      · obtain ⟨chunk, op', -, -, -, rfl, h | ⟨-, e, h⟩⟩ := op.receive_putAck_cases hashkey hcls
        · rw [h]
          exact hcheck _
        · rw [h]
          rfl
  | eventsAck => rfl
  | reprocess m => rfl

/-- A copy sends nothing but by its tasks. -/
theorem send_not_mem_receive (msg : Message) (op : CopyOperation) (mb : Middlebox) (cmd : Command) :
    .send mb cmd ∉ (receive msg op).out := by
  intro hm
  obtain ⟨-, m, rfl⟩ := (ends_receive msg op).put_of_send hm
  cases m <;> exact List.not_mem_nil hm

/-! ## Where chunks and get-acks come from -/

variable {id : Int} {src dst : Middlebox} {key : PerflowKey} {scope : Scope} {stock : Stock}
  {nf : Middlebox → Holder} {n n' : Network (Channelled CopyOperation) Holder}

/-- The arguments of the copy, and that only its source is asked, for the classes of the scope. -/
structure Copying (id : Int) (src : Middlebox) (scope : Scope) (stock : Stock)
    (n : Network (Channelled CopyOperation) Holder) : Prop where
  same : (n.direct.op.id, n.direct.op.failed, n.direct.op.src, n.direct.op.scope) = (id, false, src, scope)
  held : (n.nf src).held = stock.held id
  get_at : ∀ mb, ∀ cmd ∈ n.wire mb, ∀ cls, cmd.getClass = some cls → mb = src ∧ cls ∈ scope.classes
  state_from : ∀ mb msg, (mb, .state msg) ∈ n.inFlight →
    msg.cls ∈ scope.classes ∧ msg ∈ stock.held id msg.cls
  getAck_from : ∀ mb cls (count : Int), (mb, .getAck cls count) ∈ n.inFlight →
    count = (stock.held id cls).length

omit [PacketUtil] in
theorem Copying.outcome_cases (h : Copying id src scope stock n) (hid : 0 < id) {mb : Middlebox}
    {msg : Message} (hm : (mb, msg) ∈ n.inFlight) :
    (outcomeOf n.direct.op.toOperation msg = .handler msg ∧
      (∀ m, msg = .state m → m.cls ≠ .allflows)) ∨
    ((∃ m, msg = .state m ∧ m.cls = .allflows) ∧ .allflows ∈ scope.classes ∧ stock.allflows ≠ [] ∧
      outcomeOf n.direct.op.toOperation msg = .messageException (.unexpectedType .stateAllflows)) := by
  obtain ⟨hid', hf, -⟩ := by
    have hsame := h.same
    simp only [Prod.mk.injEq] at hsame
    exact hsame
  have hpos : 0 < n.direct.op.toOperation.id := by rwa [hid']
  by_cases hall : ∃ m, msg = .state m ∧ m.cls = .allflows
  · obtain ⟨m, rfl, hcls⟩ := hall
    obtain ⟨hmem, hheld⟩ := h.state_from mb m hm
    rw [hcls] at hmem hheld
    obtain ⟨state, hstate, rfl⟩ := List.mem_map.mp hheld
    exact Or.inr ⟨⟨_, rfl, rfl⟩, hmem, List.ne_nil_of_mem hstate, outcomeOf_allflows hpos hf _ _ _⟩
  · have hne : ∀ m, msg = .state m → m.cls ≠ .allflows := fun m he hcls => hall ⟨m, he, hcls⟩
    refine Or.inl ⟨outcomeOf_eq hpos hf msg ?_, hne⟩
    cases msg with
    | state m =>
        rw [hid']
        exact Stock.preserved (h.state_from mb m hm).2 (hne m rfl)
    | _ => trivial

/-- What a copy does with a line. -/
def handled (op : CopyOperation) : Outcome → Emit Effect CopyOperation
  | .handler msg => receive msg op
  | _ => .emit op []

theorem receive_channelled (sched : Schedule) (source : Middlebox) (msg : Message)
    (op : Channelled CopyOperation) : Handlers.receive sched source msg op =
      handled op (outcomeOf (Handlers.base op) msg) := by
  show (match outcomeOf (Handlers.base op) msg with
    | .handler msg => receive msg op
    | _ => .emit op []) = _
  cases outcomeOf (Handlers.base op) msg <;> rfl

theorem handled_same (op : CopyOperation) (outcome : Outcome) :
    ((handled op outcome).val.id, (handled op outcome).val.failed, (handled op outcome).val.src,
      (handled op outcome).val.scope) = (op.id, op.failed, op.src, op.scope) := by
  cases outcome with
  | handler msg => exact receive_same msg op
  | _ => rfl

theorem send_not_mem_handled (op : CopyOperation) (outcome : Outcome) (mb : Middlebox) (cmd : Command) :
    .send mb cmd ∉ (handled op outcome).out := by
  cases outcome with
  | handler msg => exact send_not_mem_receive msg op mb cmd
  | _ => exact List.not_mem_nil

theorem Copying.step (h : Copying id src scope stock n) {a : Act ReprocessMessage}
    (hs : n.step a = some n') : Copying id src scope stock n' := by
  cases a with
  | read mb =>
      obtain ⟨cmd, rest, hw, rfl⟩ := Network.step_read hs
      have hmem : cmd ∈ n.wire mb := by
        rw [hw]
        exact List.mem_cons_self
      have hget : ∀ mb', ∀ cmd' ∈ Function.update n.wire mb rest mb', ∀ cls,
          cmd'.getClass = some cls → mb' = src ∧ cls ∈ scope.classes := by
        intro mb' cmd' hm
        refine h.get_at mb' cmd' ?_
        by_cases hmb : mb' = mb
        · subst hmb
          rw [Function.update_self] at hm
          rw [hw]
          exact List.mem_cons_of_mem cmd hm
        · rwa [Function.update_of_ne hmb] at hm
      have hheld : (Function.update n.nf mb ((n.nf mb).command cmd).1 src).held = stock.held id := by
        by_cases hmb : src = mb
        · rw [← hmb, Function.update_self, ← h.held]
          rcases (n.nf src).command_cases cmd with ⟨_, -, he, -⟩ | ⟨_, -, he⟩ | ⟨-, he, -⟩
          · exact he
          · rw [he]
          · exact he
        · rw [Function.update_of_ne hmb]
          exact h.held
      have hanswer : (∀ msg, .state msg ∈ ((n.nf mb).command cmd).2 →
            msg.cls ∈ scope.classes ∧ msg ∈ stock.held id msg.cls) ∧
          ∀ cls (count : Int), .getAck cls count ∈ ((n.nf mb).command cmd).2 →
            count = (stock.held id cls).length := by
        rcases (n.nf mb).command_cases cmd with ⟨cls, hcls, -, he⟩ | ⟨c, -, he⟩ | ⟨-, -, he⟩
        · obtain ⟨rfl, hmem⟩ := h.get_at mb cmd hmem cls hcls
          rw [he, Holder.answerGet, h.held]
          refine ⟨fun msg hm => ?_, fun cls' count hm => ?_⟩
          · rcases List.mem_append.mp hm with hm | hm
            · obtain ⟨m, hheld, he⟩ := List.mem_map.mp hm
              obtain rfl := Message.state.inj he
              rw [stock.held_cls id cls m hheld]
              exact ⟨hmem, hheld⟩
            · cases List.mem_singleton.mp hm
          · rcases List.mem_append.mp hm with hm | hm
            · obtain ⟨m, -, he⟩ := List.mem_map.mp hm
              cases he
            · cases List.mem_singleton.mp hm
              rfl
        · rw [he]
          exact ⟨fun msg hm => (by cases List.mem_singleton.mp hm),
            fun cls count hm => by cases List.mem_singleton.mp hm⟩
        · rw [he]
          exact ⟨fun msg hm => (by cases List.mem_singleton.mp hm),
            fun cls count hm => by cases List.mem_singleton.mp hm⟩
      refine ⟨h.same, hheld, hget, fun mb' msg hm => ?_, fun mb' cls count hm => ?_⟩
      · rcases List.mem_append.mp hm with hm | hm
        · exact h.state_from mb' msg hm
        · obtain ⟨m, hm, he⟩ := List.mem_map.mp hm
          exact hanswer.1 msg ((Prod.mk.inj he).2 ▸ hm)
      · rcases List.mem_append.mp hm with hm | hm
        · exact h.getAck_from mb' cls count hm
        · obtain ⟨m, hm, he⟩ := List.mem_map.mp hm
          exact hanswer.2 cls count ((Prod.mk.inj he).2 ▸ hm)
  | deliver sched i =>
      obtain ⟨source, msg, before, behind, hin, -, -, ⟨-, rfl⟩ | ⟨-, rfl⟩⟩ := Network.step_deliver hs
      all_goals have hsub := Network.mem_inFlight_of_left hin
      · exact ⟨h.same, h.held, h.get_at, fun mb msg hm => h.state_from mb msg (hsub _ hm),
          fun mb cls count hm => h.getAck_from mb cls count (hsub _ hm)⟩
      · refine ⟨?_, h.held, fun mb cmd hm => ?_, fun mb msg hm => h.state_from mb msg (hsub _ hm),
          fun mb cls count hm => h.getAck_from mb cls count (hsub _ hm)⟩
        · rw [← h.same]
          show ((Handlers.receive sched source msg n.op : Emit Effect (Channelled CopyOperation)).val.id,
            _, _, _) = _
          rw [receive_channelled]
          exact handled_same n.op _
        · rcases List.mem_append.mp hm with hm | hm
          · exact h.get_at mb cmd hm
          · rw [receive_channelled] at hm
            exact absurd (mem_commandsTo.mp hm) (send_not_mem_handled n.op _ mb cmd)
  | stimulus mb m =>
      obtain ⟨r, hr, rfl⟩ := Network.step_stimulus hs
      obtain ⟨-, rfl⟩ := Holder.stimulus_cases hr
      refine ⟨h.same, ?_, h.get_at, fun mb' msg hm => ?_, fun mb' cls count hm => ?_⟩
      · show (Function.update n.nf mb (n.nf mb) src).held = _
        rw [Function.update_eq_self]
        exact h.held
      · rcases List.mem_append.mp hm with hm | hm
        · exact h.state_from mb' msg hm
        · cases List.mem_singleton.mp hm
      · rcases List.mem_append.mp hm with hm | hm
        · exact h.getAck_from mb' cls count hm
        · cases List.mem_singleton.mp hm
  | forward i =>
      obtain ⟨mb, packet, before, behind, -, rfl⟩ := Network.step_forward hs
      refine ⟨h.same, ?_, h.get_at, fun mb' msg hm => ?_, fun mb' cls count hm => ?_⟩
      · show (Function.update n.nf mb (n.nf mb) src).held = _
        rw [Function.update_eq_self]
        exact h.held
      · exact h.state_from mb' msg (List.append_nil n.inFlight ▸ hm)
      · exact h.getAck_from mb' cls count (List.append_nil n.inFlight ▸ hm)
  | packetIn packet inSwitch inPort =>
      cases Network.step_packetIn hs
      refine ⟨h.same, h.held, fun mb cmd hm => ?_, h.state_from, h.getAck_from⟩
      exact h.get_at mb cmd (List.append_nil (n.wire mb) ▸ hm)
  | task i =>
      obtain ⟨task, -, rfl⟩ := Network.step_task hs
      refine ⟨h.same, h.held, fun mb cmd hm cls hcls => ?_, h.state_from, h.getAck_from⟩
      rcases List.mem_append.mp hm with hm | hm
      · exact h.get_at mb cmd hm cls hcls
      · rcases Operation.mem_call (mem_commandsTo.mp hm) with ⟨_, _, he⟩ | ⟨_, _, _, he⟩
        · obtain ⟨-, rfl⟩ := Effect.send.inj he
          cases hcls
        · cases he

variable {as : List (Act ReprocessMessage)}

theorem copying_run (hsrc : nf src = stock.holder id)
    (hr : Machine.run Network.step (Network.start (new id src dst key scope) nf :
      Network (Channelled CopyOperation) Holder) as = some n) : Copying id src scope stock n := by
  refine Machine.run_invariant' ?_ (fun _ _ _ h hs => h.step hs) hr
  refine ⟨rfl, congrArg Holder.held hsrc, fun mb cmd hm cls hcls => ?_,
    fun mb msg hm => absurd hm List.not_mem_nil, fun mb cls count hm => absurd hm List.not_mem_nil⟩
  have hsend : .send mb cmd ∈ (new id src dst key scope).execute.out := mem_commandsTo.mp hm
  have hcount : 0 < (commandsTo mb (new id src dst key scope).execute.out).countP
      fun cmd => cmd.getClass = some cls :=
    List.countP_pos_iff.mpr ⟨cmd, hm, decide_eq_true hcls⟩
  obtain ⟨cmd', cls', he, -⟩ := get_of_mem_execute hsend
  obtain ⟨rfl, rfl⟩ := Effect.send.inj he
  refine ⟨rfl, ?_⟩
  by_contra hnot
  have hzero := (count_execute (new id mb dst key scope) cls).trans (if_neg hnot)
  exact absurd hzero (Nat.pos_iff_ne_zero.mp hcount)

/-! ## Without all-flows chunks -/

/-- The runs of a copy that is asked for no all-flows chunk are those of the copy itself. -/
theorem direct_run (hid : 0 < id) (hsrc : nf src = stock.holder id)
    (hnone : ¬ (.allflows ∈ scope.classes ∧ stock.allflows ≠ []))
    (hr : Machine.run Network.step (Network.start (new id src dst key scope) nf :
      Network (Channelled CopyOperation) Holder) as = some n) :
    Machine.run Network.step (Network.start (new id src dst key scope) nf) as = some n.direct := by
  induction as using List.reverseRecOn generalizing n with
  | nil =>
      cases hr
      rfl
  | append_singleton as a ih =>
      obtain ⟨t, ht, hs⟩ := Machine.run_snoc_eq_some.mp hr
      refine Machine.run_snoc_eq_some.mpr ⟨t.direct, ih ht, ?_⟩
      have hcopying := copying_run hsrc ht
      cases a with
      | deliver sched i =>
          obtain ⟨source, msg, -, -, hin, -, hi, -⟩ := Network.step_deliver hs
          have hm : (source, msg) ∈ t.inFlight := List.mem_of_getElem? hi
          rcases hcopying.outcome_cases hid hm with ⟨hout, -⟩ | ⟨-, hall, hsome, -⟩
          · have hreceive : (Handlers.receive sched source msg t.op :
                Emit Effect (Channelled CopyOperation)) = receive msg t.op := by
              rw [receive_channelled]
              exact congrArg (handled t.op) hout
            rw [Network.step_deliver_eq sched hi, hreceive] at hs
            exact (Network.step_deliver_eq (n := t.direct) sched hi).trans hs
          · exact absurd ⟨hall, hsome⟩ hnone
      | _ => exact hs

/-! ## With an all-flows chunk -/

/-- No all-flows chunk is stored or acked, though the get-ack counts it. -/
structure Waits (stock : Stock) (op : CopyOperation) : Prop where
  chunk : ∀ ref msg, (op.stateChunks ref).msg = some msg → msg.cls ≠ .allflows
  acks : op.counters.putAcks .allflows = 0
  counted : op.counters.getAcked .allflows = true →
    op.counters.getCount .allflows = stock.allflows.length
  finished : op.finished = false

omit [PacketUtil] in
theorem Waits.not_completed {op : CopyOperation} (h : Waits stock op)
    (hall : .allflows ∈ op.scope.classes) (hsome : stock.allflows ≠ []) : op.completed = false := by
  refine Bool.eq_false_of_not_eq_true fun hc => ?_
  obtain ⟨hget, hcount⟩ := (completed_iff op).mp hc .allflows hall
  have hcount : (op.counters.putAcks .allflows : Int) = op.counters.getCount .allflows := hcount
  rw [h.acks, h.counted hget] at hcount
  exact hsome (List.length_eq_zero_iff.mp (by omega))

omit [PacketUtil] in
theorem Waits.check {op : CopyOperation} (h : Waits stock op) (hall : .allflows ∈ op.scope.classes)
    (hsome : stock.allflows ≠ []) : Waits stock op.checkIfFinished.val := by
  rcases op.checkIfFinished_cases with ⟨-, he⟩ | ⟨hc, -⟩
  · rw [he]
    exact h
  · rw [h.not_completed hall hsome] at hc
    cases hc

omit [PacketUtil] in
theorem chunk_setChunk {op : CopyOperation} {ref : ChunkRef} {chunk : StateChunk}
    (h : ∀ ref msg, (op.stateChunks ref).msg = some msg → msg.cls ≠ .allflows)
    (hchunk : ∀ msg, chunk.msg = some msg → msg.cls ≠ .allflows) (ref' : ChunkRef) (msg : StateMessage)
    (hm : ((op.setChunk ref chunk).stateChunks ref').msg = some msg) : msg.cls ≠ .allflows := by
  have hm : (Function.update op.stateChunks ref chunk ref').msg = some msg := hm
  by_cases hr : ref' = ref
  · rw [hr, Function.update_self] at hm
    exact hchunk msg hm
  · rw [Function.update_of_ne hr] at hm
    exact h ref' msg hm

theorem Waits.receive {op : CopyOperation} (h : Waits stock op) (hall : .allflows ∈ op.scope.classes)
    (hsome : stock.allflows ≠ []) {msg : Message} (hstate : ∀ m, msg = .state m → m.cls ≠ .allflows)
    (hget : ∀ count : Int, msg = .getAck .allflows count → count = stock.allflows.length)
    (hput : ∀ hashkey, msg ≠ .putAck .allflows hashkey) : Waits stock (receive msg op).val := by
  cases msg with
  | state msg =>
      have hcls := hstate msg rfl
      have hsubmit : Waits stock (op.submitState msg) := by
        refine ⟨?_, h.acks, h.counted, h.finished⟩
        exact chunk_setChunk h.chunk fun m hm => Option.some.inj hm ▸ hcls
      cases msg with
      | config => exact h
      | _ => exact hsubmit
  | getAck cls count =>
      by_cases hcls : cls = .config
      · subst hcls
        exact h
      · rw [receive_getAck_eq op count hcls]
        refine Waits.check ⟨h.chunk, h.acks, fun hacked => ?_, h.finished⟩ hall hsome
        by_cases hc : cls = .allflows
        · subst hc
          show (op.counters.recordGetAck .allflows count).getCount .allflows = _
          rw [Counters.recordGetAck_getCount, Function.update_self, hget count rfl]
        · show (op.counters.recordGetAck cls count).getCount .allflows = _
          rw [Counters.recordGetAck_getCount, Function.update_of_ne (Ne.symm hc)]
          refine h.counted ?_
          rwa [Counters.recordGetAck_getAcked, Function.update_of_ne (Ne.symm hc)] at hacked
  | putAck cls hashkey =>
      by_cases hcls : cls = .config
      · subst hcls
        exact h
      · have hne : cls ≠ .allflows := fun he => hput hashkey (he ▸ rfl)
        obtain ⟨chunk, op', hmsg, -, -, hop', he⟩ := op.receive_putAck_cases hashkey hcls
        have hwaits : Waits stock op' := by
          subst hop'
          refine ⟨chunk_setChunk h.chunk fun m hm => h.chunk _ m (hmsg ▸ hm), ?_, h.counted, h.finished⟩
          show (op.counters.recordPutAck cls).putAcks .allflows = 0
          rw [Counters.recordPutAck_putAcks, Function.update_of_ne (Ne.symm hne), h.acks]
        rcases he with he | ⟨-, e, he⟩
        · rw [he]
          exact hwaits.check (by rw [hop']; exact hall) hsome
        · rw [he]
          exact hwaits
  | eventsAck => exact h
  | reprocess m => exact h

/-- No all-flows chunk is put. -/
structure Stuck (stock : Stock) (n : Network (Channelled CopyOperation) Holder) : Prop where
  waits : Waits stock n.direct.op
  put : ∀ mb, ∀ cmd ∈ n.wire mb, ∀ c, cmd.putContent = some c → c.cls ≠ .allflows
  putAck : ∀ mb hashkey, (mb, .putAck .allflows hashkey) ∉ n.inFlight

theorem Stuck.step (h : Stuck stock n) (hcopying : Copying id src scope stock n) (hid : 0 < id)
    (hall : .allflows ∈ scope.classes) (hsome : stock.allflows ≠ []) {a : Act ReprocessMessage}
    (hs : n.step a = some n') : Stuck stock n' := by
  cases a with
  | read mb =>
      obtain ⟨cmd, rest, hw, rfl⟩ := Network.step_read hs
      have hmem : cmd ∈ n.wire mb := by
        rw [hw]
        exact List.mem_cons_self
      refine ⟨h.waits, fun mb' cmd' hm => ?_, fun mb' hashkey hm => ?_⟩
      · refine h.put mb' cmd' ?_
        by_cases hmb : mb' = mb
        · subst hmb
          have hm : cmd' ∈ Function.update n.wire mb' rest mb' := hm
          rw [Function.update_self] at hm
          rw [hw]
          exact List.mem_cons_of_mem cmd hm
        · have hm : cmd' ∈ Function.update n.wire mb rest mb' := hm
          rwa [Function.update_of_ne hmb] at hm
      · rcases List.mem_append.mp hm with hm | hm
        · exact h.putAck mb' hashkey hm
        · obtain ⟨m, hm, he⟩ := List.mem_map.mp hm
          obtain ⟨-, rfl⟩ := Prod.mk.inj he
          have hm : .putAck .allflows hashkey ∈ ((n.nf mb).command cmd).2 := hm
          rcases (n.nf mb).command_cases cmd with ⟨cls, -, -, he⟩ | ⟨c, hput, he⟩ | ⟨-, -, he⟩
          · rw [he] at hm
            rcases List.mem_append.mp hm with hm | hm
            · obtain ⟨m, -, he⟩ := List.mem_map.mp hm
              cases he
            · cases List.mem_singleton.mp hm
          · rw [he] at hm
            have hcls := (Message.putAck.inj (List.mem_singleton.mp hm)).1
            exact h.put mb cmd hmem c hput hcls.symm
          · rw [he] at hm
            cases List.mem_singleton.mp hm
  | deliver sched i =>
      obtain ⟨source, msg, before, behind, hin, -, -, ⟨-, rfl⟩ | ⟨-, rfl⟩⟩ := Network.step_deliver hs
      all_goals have hsub := Network.mem_inFlight_of_left hin
      · exact ⟨h.waits, h.put, fun mb hashkey hm => h.putAck mb hashkey (hsub _ hm)⟩
      · have hm : (source, msg) ∈ n.inFlight := by
          rw [hin]
          simp
        have hscope : n.direct.op.scope = scope := (Prod.mk.inj (Prod.mk.inj (Prod.mk.inj hcopying.same).2).2).2
        refine ⟨?_, fun mb cmd hc => ?_, fun mb hashkey hm => h.putAck mb hashkey (hsub _ hm)⟩
        · show Waits stock (Handlers.receive sched source msg n.op :
            Emit Effect (Channelled CopyOperation)).val
          rw [receive_channelled]
          rcases hcopying.outcome_cases hid hm with ⟨hout, hstate⟩ | ⟨-, -, -, hout⟩
          · rw [show outcomeOf (Handlers.base n.op) msg = _ from hout]
            refine h.waits.receive (hscope.symm ▸ hall) hsome hstate (fun count he => ?_) fun hashkey he => ?_
            · subst he
              rw [hcopying.getAck_from source .allflows count hm]
              simp [Stock.held]
            · subst he
              exact h.putAck source hashkey hm
          · rw [show outcomeOf (Handlers.base n.op) msg = _ from hout]
            exact h.waits
        · rcases List.mem_append.mp hc with hc | hc
          · exact h.put mb cmd hc
          · rw [receive_channelled] at hc
            exact absurd (mem_commandsTo.mp hc) (send_not_mem_handled n.op _ mb cmd)
  | stimulus mb m =>
      obtain ⟨r, hr, rfl⟩ := Network.step_stimulus hs
      obtain ⟨-, rfl⟩ := Holder.stimulus_cases hr
      refine ⟨h.waits, h.put, fun mb' hashkey hm => ?_⟩
      rcases List.mem_append.mp hm with hm | hm
      · exact h.putAck mb' hashkey hm
      · cases List.mem_singleton.mp hm
  | forward i =>
      obtain ⟨mb, packet, before, behind, -, rfl⟩ := Network.step_forward hs
      exact ⟨h.waits, h.put, fun mb' hashkey hm => h.putAck mb' hashkey (List.append_nil n.inFlight ▸ hm)⟩
  | packetIn packet inSwitch inPort =>
      cases Network.step_packetIn hs
      exact ⟨h.waits, fun mb cmd hm => h.put mb cmd (List.append_nil (n.wire mb) ▸ hm), h.putAck⟩
  | task i =>
      obtain ⟨task, -, rfl⟩ := Network.step_task hs
      refine ⟨⟨h.waits.chunk, h.waits.acks, h.waits.counted, h.waits.finished⟩, fun mb cmd hm c hput => ?_,
        h.putAck⟩
      rcases List.mem_append.mp hm with hm | hm
      · exact h.put mb cmd hm c hput
      · have hm : .send mb cmd ∈ Operation.call n.direct.op.toOperation task := mem_commandsTo.mp hm
        cases task with
        | event event =>
            obtain ⟨_, _, he⟩ := ReprocessEvent.eventOut_of_mem_sent hm
            cases he
        | chunk ref =>
            obtain ⟨msg, hmsg, hcontent⟩ := StateChunk.content_of_mem_call hm hput
            rw [hcontent]
            exact h.waits.chunk ref msg hmsg

theorem stuck_run (hid : 0 < id) (hsrc : nf src = stock.holder id) (hall : .allflows ∈ scope.classes)
    (hsome : stock.allflows ≠ []) (hr : Machine.run Network.step (Network.start (new id src dst key scope) nf :
      Network (Channelled CopyOperation) Holder) as = some n) : Stuck stock n := by
  induction as using List.reverseRecOn generalizing n with
  | nil =>
      cases hr
      refine ⟨⟨fun ref msg hm => (by cases hm), rfl, fun hc => (by cases hc), rfl⟩,
        fun mb cmd hm c hput => ?_, fun mb hashkey hm => absurd hm List.not_mem_nil⟩
      obtain ⟨cmd', cls, he, hget⟩ := get_of_mem_execute (mem_commandsTo.mp hm)
      obtain ⟨-, rfl⟩ := Effect.send.inj he
      cases cmd <;> first | cases hget; done | cases hput
  | append_singleton as a ih =>
      obtain ⟨t, ht, hs⟩ := Machine.run_snoc_eq_some.mp hr
      exact (ih ht).step (copying_run hsrc ht) hid hall hsome hs

end CopyOperation

end OFM.Controller
