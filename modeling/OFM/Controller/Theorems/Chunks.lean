import OFM.Controller.ReprocessEvent
import OFM.Controller.Lemmas.TransferCopy
import OFM.Controller.Lemmas.TransferFinish
import OFM.Controller.Lemmas.TransferMove

/-!
# The chunks that are put

Over all runs of one operation: what is put to `dst` is what has been received.
-/

namespace OFM.Controller
open OFM.Lib TransferOperation

variable [PacketUtil] {σ : Type} [TransferOperation σ] {op : σ} {s s' : Session σ} {as : List Input}
  {dst : Middlebox}

namespace Session

/-- What `src` answers, and in which order: chunks and put-acks of classes there are handlers for, a
get-ack for what it has been asked for, and neither a chunk nor a get-ack behind the last get-ack. -/
def AnswersInOrder (s : Session σ) : Input → Prop
  | .message _ _ (.state msg) => msg.cls ∈ handledClasses s.op ∧ ¬ (transfer s.op).Released
  | .message _ _ (.getAck cls _) => cls ∈ (transfer s.op).classes ∧ ¬ (transfer s.op).Released
  | .message _ _ (.putAck cls _) => cls ∈ handledClasses s.op
  | _ => True

/-- A chunk that is received does not replace another one that is still to be put. -/
def KeepsChunks (s : Session σ) : Input → Prop
  | .message _ _ (.state msg) => (transfer s.op).Keeps msg.content
  | _ => True

instance (s : Session σ) : (a : Input) → Decidable (AnswersInOrder s a)
  | .message _ _ (.state _) => inferInstanceAs (Decidable (_ ∧ ¬ _))
  | .message _ _ (.getAck _ _) => inferInstanceAs (Decidable (_ ∧ ¬ _))
  | .message _ _ (.putAck cls _) => inferInstanceAs (Decidable (cls ∈ handledClasses s.op))
  | .message _ _ .eventsAck | .message _ _ (.reprocess _) | .packet .. | .task _ => isTrue trivial

instance (s : Session σ) : (a : Input) → Decidable (KeepsChunks s a)
  | .message _ _ (.state msg) => inferInstanceAs (Decidable ((transfer s.op).Keeps msg.content))
  | .message _ _ (.getAck _ _) | .message _ _ (.putAck _ _) | .message _ _ .eventsAck
  | .message _ _ (.reprocess _) | .packet .. | .task _ => isTrue trivial

/-- What holds of a session whose chunks are all accounted for. -/
structure Accounted (dst : Middlebox) (s : Session σ) : Prop where
  valid : Valid s.op
  dst_eq : (transfer s.op).dst = dst
  unheld : (transfer s.op).holds = false → (transfer s.op).list = []
  accounts : (transfer s.op).Accounts (puts s.log) (statesIn s.handled) 0

theorem accounted_start (hop : Fresh op) : Accounted (transfer op).dst (start op) := by
  have hput : puts (Handlers.execute op).out = 0 :=
    puts_eq_zero fun mb cmd hm => (execute_send op mb cmd hm).2.1
  have howed : (transfer op).owed = [] := by
    rw [Transfer.owed, hop.pool, hop.list, ite_self]
    rfl
  refine ⟨hop.valid, rfl, fun _ => hop.list, ?_⟩
  show puts (Handlers.execute op).out + (transfer op).owing + 0 = 0
  rw [hput, Transfer.owing_eq howed]
  rfl

/-- A message about neither a chunk nor a get-ack. -/
theorem Accounted.other (h : Accounted dst s) {source : Middlebox} {msg : Message}
    {r : Lib.Emit Effect σ} {k : Counters} (hv : Valid r.val)
    (ht : transfer r.val = { transfer s.op with counters := k })
    (hk : k.getAcked = (transfer s.op).counters.getAcked) (hputs : puts r.out = 0)
    (hmsg : msg.stateContent = none) : Accounted dst ((s.record r).note source msg) := by
  have howed : ({ transfer s.op with counters := k } : Transfer).owed = (transfer s.op).owed := by
    have hrel : ({ transfer s.op with counters := k } : Transfer).Released ↔
        (transfer s.op).Released := by
      simp only [Transfer.Released, Transfer.AllAcked, hk]
    by_cases hr : (transfer s.op).Released
    · rw [Transfer.owed, Transfer.owed, if_pos hr, if_pos (hrel.mpr hr)]
    · rw [Transfer.owed, Transfer.owed, if_neg hr, if_neg (mt hrel.mp hr)]
  have hstates : statesIn [(source, msg)] = 0 := by simp [statesIn, hmsg]
  refine ⟨hv, (congrArg Transfer.dst ht).trans h.dst_eq, fun hh => ?_, ?_⟩
  · show (transfer r.val).list = []
    have hh : (transfer r.val).holds = false := hh
    rw [ht] at hh ⊢
    exact h.unheld hh
  · show (transfer r.val).Accounts (puts (s.log ++ r.out)) (statesIn (s.handled ++ [(source, msg)])) 0
    rw [ht, puts_append, statesIn_append, hputs, hstates, add_zero, add_zero, Transfer.Accounts,
      Transfer.owing, howed]
    exact h.accounts

theorem Accounted.step (h : Accounted dst s) {a : Input} (hs : s.step a = some s')
    (hc : AnswersInOrder s a ∧ KeepsChunks s a) : Accounted dst s' := by
  obtain ⟨hv, hd, hu, ha⟩ := h
  cases a with
  | message sched source msg =>
      rcases step_message hs with ⟨-, rfl⟩ | ⟨-, rfl⟩
      · exact ⟨hv, hd, hu, ha⟩
      have hv' := valid_receive sched source msg s.op hv
      have hnothing : (∀ m, msg ≠ .state m) → (∀ cls count, msg ≠ .getAck cls count) →
          puts (Handlers.receive sched source msg s.op).out = 0 := by
        intro hst hg
        refine puts_eq_zero fun mb cmd hsend => ?_
        rcases receive_send sched source msg s.op mb cmd hsend with
          ⟨-, ⟨m, he⟩ | ⟨cls, count, he⟩⟩ | ⟨hget, -⟩ | ⟨ht, -⟩
        · exact absurd he (hst m)
        · exact absurd he (hg cls count)
        · exact (Command.of_get hget).1
        · exact (Command.of_toggle ht).1
      cases msg with
      | state msg =>
          have htake := receive_state sched source msg s.op hv hc.1.1
          obtain ⟨late, hlate, hzero⟩ := ha.take hu hc.2 htake
          refine ⟨hv', htake.sameArgs.dst.trans hd, htake.unheld hu, ?_⟩
          · show (transfer (Handlers.receive sched source (.state msg) s.op).val).Accounts
              (puts (s.log ++ _)) (statesIn (s.handled ++ [(source, .state msg)])) 0
            rw [puts_append, statesIn_append, ← hzero hc.1.2]
            exact hlate
      | getAck cls count =>
          obtain ⟨hcls, hrel⟩ := hc.1
          have hget := receive_getAck sched source cls count s.op hv hcls
          have hputs := puts_getAck sched source cls count s.op hv hcls
          rw [hget] at hputs
          refine ⟨hv', (congrArg Transfer.dst hget).trans hd, fun hh => ?_, ?_⟩
          · show (transfer (Handlers.receive sched source (.getAck cls count) s.op).val).list = []
            have hh : (transfer (Handlers.receive sched source (.getAck cls count) s.op).val).holds =
              false := hh
            rw [hget] at hh ⊢
            exact hu hh
          · show (transfer (Handlers.receive sched source (.getAck cls count) s.op).val).Accounts
              (puts (s.log ++ _)) (statesIn (s.handled ++ [(source, .getAck cls count)])) 0
            have hnone : statesIn [(source, Message.getAck cls count)] = 0 := rfl
            rw [hget, puts_append, statesIn_append, hnone, add_zero]
            exact ha.count hrel hputs
      | putAck cls hashkey =>
          exact Accounted.other ⟨hv, hd, hu, ha⟩ hv'
            (receive_putAck sched source cls hashkey s.op hv hc.1) rfl
            (hnothing (fun _ h => by cases h) (fun _ _ h => by cases h)) rfl
      | eventsAck =>
          exact Accounted.other ⟨hv, hd, hu, ha⟩ hv' (receive_other sched source _ s.op (Or.inl rfl)) rfl
            (hnothing (fun _ h => by cases h) (fun _ _ h => by cases h)) rfl
      | reprocess m =>
          exact Accounted.other ⟨hv, hd, hu, ha⟩ hv'
            (receive_other sched source _ s.op (Or.inr ⟨m, rfl⟩)) rfl
            (hnothing (fun _ h => by cases h) (fun _ _ h => by cases h)) rfl
  | packet packet inSwitch inPort =>
      cases step_packet hs
      have ht := packet_transfer packet inSwitch inPort s.op
      have hputs : puts (Handlers.receivePacket packet inSwitch inPort s.op).out = 0 :=
        puts_eq_zero fun mb cmd hm =>
          absurd hm ((packet_out packet inSwitch inPort s.op).1 mb cmd)
      refine ⟨packet_valid packet inSwitch inPort s.op hv, (congrArg Transfer.dst ht).trans hd, ?_, ?_⟩
      · show (transfer (Handlers.receivePacket packet inSwitch inPort s.op).val).holds = false → _
        rw [ht]
        exact fun hh => (congrArg Transfer.list ht).trans (hu hh)
      · show (transfer (Handlers.receivePacket packet inSwitch inPort s.op).val).Accounts
          (puts (s.log ++ _)) (statesIn s.handled) 0
        rw [ht, puts_append, hputs, add_zero]
        exact ha
  | task i =>
      obtain ⟨task, htask, rfl⟩ := step_task hs
      have hpool := setPool s.op ((Handlers.base s.op).threadPool.eraseIdx i)
      refine ⟨setPool_valid s.op _ hv, (congrArg Transfer.dst hpool).trans hd, ?_, ?_⟩
      · show (transfer (Handlers.setBase s.op _)).holds = false →
          (transfer (Handlers.setBase s.op _)).list = []
        rw [hpool]
        exact hu
      · show (transfer (Handlers.setBase s.op _)).Accounts
          (puts (s.log ++ (Handlers.base s.op).call task)) (statesIn s.handled) 0
        rw [hpool, puts_append]
        cases task with
        | event event =>
            have hputs : puts ((Handlers.base s.op).call (.event event)) = 0 :=
              puts_eq_zero fun mb cmd hm => by
                obtain ⟨sw, packet, he⟩ := ReprocessEvent.eventOut_of_mem_sent hm
                cases he
            rw [chunkTasks_eraseIdx_event htask, ← pool_eq, hputs, add_zero]
            exact ha
        | chunk ref =>
            obtain ⟨pool₁, pool₂, hbefore, hafter⟩ := chunkTasks_eraseIdx_chunk htask
            have hputs : puts ((Handlers.base s.op).call (.chunk ref)) = (transfer s.op).store ref :=
              store_eq s.op ref
            rw [hafter, hputs]
            exact ha.task ((pool_eq s.op).trans hbefore)

theorem accounted_run (hop : Fresh op)
    (hc : Machine.Along step (fun s a => AnswersInOrder s a ∧ KeepsChunks s a) (start op) as)
    (hr : Machine.run step (start op) as = some s) : Accounted (transfer op).dst s :=
  Machine.run_invariant (accounted_start hop) (fun _ _ _ h hok hs => h.step hs hok) hc hr

end Session

/-! ## Moves and copies -/

/-- In every run in which `src` answers in order and no chunk replaces another one that is still to be
put: when no submitted chunk is left, and the chunks that are held back have been put, as many of each
content have been put to `dst` as have been received. -/
def PutsReceived (op : σ) : Prop :=
  ∀ as s, Machine.Along Session.step
      (fun s a => Session.AnswersInOrder s a ∧ Session.KeepsChunks s a) (Session.start op) as →
    Machine.run Session.step (Session.start op) as = some s →
    chunkTasks (Handlers.base s.op).threadPool = [] →
    ((transfer s.op).holds = true → (transfer s.op).AllAcked) →
    puts s.log = (statesIn s.handled).map (Prod.mk (transfer op).dst)

theorem putsReceived (hop : Fresh op) : PutsReceived op := by
  intro as s hc hr hpool hall
  obtain ⟨-, hd, hu, ha⟩ := Session.accounted_run hop hc hr
  have howed : (transfer s.op).owed = [] := by
    rw [Transfer.owed, pool_eq, hpool, List.nil_append]
    cases hh : (transfer s.op).holds with
    | false => rw [hu hh, ite_self]
    | true => rw [if_pos ⟨hh, hall hh⟩]
  rw [Transfer.Accounts, Transfer.owing_eq howed, List.map_nil, List.sum_nil, add_zero, add_zero,
    hd] at ha
  exact ha

/-- One chunk of per-flow state, with one unit of text. -/
def sampleChunk (hashkey : Int) (state : UInt16) : StateMessage :=
  .perflow 1 0 none hashkey [state]

/-- A copy of per-flow state. -/
def sampleCopy : CopyOperation :=
  .new 1 MoveOperation.sampleSrc MoveOperation.sampleDst PerflowKey.new .perflow

end OFM.Controller
