import OFM.Controller.Lemmas.MoveRun
import OFM.Controller.Lemmas.TransferFinish
import OFM.Controller.Lemmas.TransferMove

/-!
# The filters of a move

What a move that sets no filter at its source asks for at `dst`: one filter at most, and that it is
removed only after it has been set.
-/

namespace OFM.Controller
open OFM.Lib

/-! ## Counting -/

def Command.isEnable : Command → Bool
  | .enableEvents .. => true
  | _ => false

def Command.isDisable : Command → Bool
  | .disableEvents .. => true
  | _ => false

theorem Command.isToggle_eq (cmd : Command) : cmd.isToggle = (cmd.isEnable || cmd.isDisable) := by
  cases cmd <;> rfl

/-- The move has a filter set at its source before it asks for state. -/
def MoveArguments.SetsDrop (args : MoveArguments) : Prop :=
  args.guarantee ≠ .noGuarantee ∧ (args.optimization = .noOptimization ∨ args.optimization = .pz)

namespace Network

variable {σ ν : Type}

/-- The commands to a middlebox that have been sent, and those it has not read. -/
def sentTo (mb : Middlebox) (p : Command → Bool) (n : Network σ ν) : Nat :=
  (commandsTo mb n.log).countP p

def waitingAt (mb : Middlebox) (p : Command → Bool) (n : Network σ ν) : Nat := (n.wire mb).countP p

variable {n : Network σ ν} {mb : Middlebox} {p : Command → Bool}

theorem sentTo_record (r : Emit Effect σ) :
    (n.record r).sentTo mb p = n.sentTo mb p + (commandsTo mb r.out).countP p := by
  show (commandsTo mb (n.log ++ r.out)).countP p = _
  rw [commandsTo_append, List.countP_append]
  rfl

theorem waitingAt_record (r : Emit Effect σ) :
    (n.record r).waitingAt mb p = n.waitingAt mb p + (commandsTo mb r.out).countP p :=
  List.countP_append

/-- A command is read, or as many commands wait as have been sent more. -/
theorem waitingAt_step {ι : Type} [Handlers σ] [NetworkFunction ν ι] [PacketUtil] {n' : Network σ ν}
    {a : Act ι} (hs : n.step a = some n') :
    (∃ mb cmd rest, a = .read mb ∧ n.wire mb = cmd :: rest ∧
      n'.wire = Function.update n.wire mb rest ∧ n'.log = n.log) ∨
    ((∀ mb, a ≠ .read mb) ∧ ∀ mb p, ∃ k,
      n'.sentTo mb p = n.sentTo mb p + k ∧ n'.waitingAt mb p = n.waitingAt mb p + k) := by
  cases a with
  | read mb =>
      obtain ⟨cmd, rest, hw, rfl⟩ := step_read hs
      exact Or.inl ⟨mb, cmd, rest, rfl, hw, rfl, rfl⟩
  | deliver sched i =>
      obtain ⟨source, msg, before, behind, -, -, -, ⟨-, rfl⟩ | ⟨-, rfl⟩⟩ := step_deliver hs
      · exact Or.inr ⟨fun _ h => (by cases h), fun mb p => ⟨0, rfl, rfl⟩⟩
      · refine Or.inr ⟨fun _ h => (by cases h), fun mb p =>
          ⟨(commandsTo mb (Handlers.receive sched source msg n.op).out).countP p, ?_, ?_⟩⟩
        · exact sentTo_record (n := { n with inFlight := before ++ behind }) _
        · exact waitingAt_record (n := { n with inFlight := before ++ behind }) _
  | stimulus mb x =>
      obtain ⟨r, -, rfl⟩ := step_stimulus hs
      exact Or.inr ⟨fun _ h => (by cases h), fun mb p => ⟨0, rfl, rfl⟩⟩
  | forward i =>
      obtain ⟨mb, packet, before, behind, -, rfl⟩ := step_forward hs
      exact Or.inr ⟨fun _ h => (by cases h), fun mb p => ⟨0, rfl, rfl⟩⟩
  | packetIn packet inSwitch inPort =>
      cases step_packetIn hs
      exact Or.inr ⟨fun _ h => (by cases h), fun mb p => ⟨_, sentTo_record _, waitingAt_record _⟩⟩
  | task i =>
      obtain ⟨task, -, rfl⟩ := step_task hs
      exact Or.inr ⟨fun _ h => (by cases h), fun mb p => ⟨_, sentTo_record _, waitingAt_record _⟩⟩

end Network

namespace MoveOperation

/-! ## The invariant -/

/-- What a move sends about filters once it has been executed. -/
structure Gate (id : Int) (args : MoveArguments) (n : Network MoveOperation Holder) : Prop where
  same : (n.op.toMoveArguments, n.op.id) = (args, id)
  toggle_at : ∀ mb, ∀ cmd ∈ n.wire mb, cmd.isToggle = true → mb = args.dst ∧
    (cmd = .enableEvents id args.key .buffer ∨ cmd = .disableEvents id args.key)
  get_at : ∀ mb, ∀ cmd ∈ n.wire mb, cmd.getClass ≠ none → mb = args.src
  ack_from : ∀ mb, (mb, .eventsAck) ∈ n.inFlight → mb = args.dst
  enables : n.waitingAt args.dst Command.isEnable ≤ n.sentTo args.dst Command.isEnable
  disables : n.waitingAt args.dst Command.isDisable ≤ n.sentTo args.dst Command.isDisable
  /-- Every ack is one of a filter that has been set or removed. -/
  acks : n.handled.count (args.dst, .eventsAck) + n.inFlight.count (args.dst, .eventsAck) +
      n.waitingAt args.dst Command.isEnable + n.waitingAt args.dst Command.isDisable ≤
    n.sentTo args.dst Command.isEnable + n.sentTo args.dst Command.isDisable
  /-- No filter is removed before one has been set: only then `dst` reports events. -/
  unread : n.waitingAt args.dst Command.isEnable = n.sentTo args.dst Command.isEnable →
    n.sentTo args.dst Command.isDisable = 0 ∧
      (∀ mb, mb ≠ args.src → (n.nf mb).raises = false) ∧
      ∀ mb m, (mb, .reprocess m) ∈ n.inFlight → mb = args.src
  buffering : n.op.bufferingEnabled = true → 1 ≤ n.handled.count (args.dst, .eventsAck)
  finished : args.guarantee = .orderPreserving → n.op.finished = true →
    2 ≤ n.handled.count (args.dst, .eventsAck) ∧ args.src ≠ args.dst

variable {id : Int} {args : MoveArguments} {n n' : Network MoveOperation Holder}

/-- Taking over what a handler returns. -/
theorem Gate.record (h : Gate id args n) {r : Emit Effect MoveOperation}
    (hsame : (r.val.toMoveArguments, r.val.id) = (args, id))
    (htoggle : ∀ mb cmd, .send mb cmd ∈ r.out → cmd.isToggle = true → mb = args.dst ∧
      (cmd = .enableEvents id args.key .buffer ∨ cmd = .disableEvents id args.key))
    (hget : ∀ mb cmd, .send mb cmd ∈ r.out → cmd.getClass ≠ none → mb = args.src)
    (hdisable : n.waitingAt args.dst Command.isEnable = n.sentTo args.dst Command.isEnable →
      (commandsTo args.dst r.out).countP Command.isDisable = 0)
    (hbuf : r.val.bufferingEnabled = true → 1 ≤ n.handled.count (args.dst, .eventsAck))
    (hfin : args.guarantee = .orderPreserving → r.val.finished = true →
      2 ≤ n.handled.count (args.dst, .eventsAck) ∧ args.src ≠ args.dst) : Gate id args (n.record r) where
  same := hsame
  toggle_at mb cmd hm ht := by
    rcases List.mem_append.mp hm with hm | hm
    · exact h.toggle_at mb cmd hm ht
    · exact htoggle mb cmd (mem_commandsTo.mp hm) ht
  get_at mb cmd hm hg := by
    rcases List.mem_append.mp hm with hm | hm
    · exact h.get_at mb cmd hm hg
    · exact hget mb cmd (mem_commandsTo.mp hm) hg
  ack_from := h.ack_from
  enables := by
    have he := h.enables
    rw [Network.waitingAt_record, Network.sentTo_record]
    omega
  disables := by
    have hd := h.disables
    rw [Network.waitingAt_record, Network.sentTo_record]
    omega
  acks := by
    have ha := h.acks
    rw [Network.waitingAt_record, Network.waitingAt_record, Network.sentTo_record,
      Network.sentTo_record]
    show n.handled.count (args.dst, .eventsAck) + n.inFlight.count (args.dst, .eventsAck) + _ + _ ≤ _
    omega
  unread := by
    rw [Network.waitingAt_record, Network.sentTo_record, Network.sentTo_record]
    intro he
    have he' : n.waitingAt args.dst Command.isEnable = n.sentTo args.dst Command.isEnable := by omega
    obtain ⟨hd, hrest⟩ := h.unread he'
    exact ⟨by rw [hd, hdisable he'], hrest⟩
  buffering := hbuf
  finished := hfin

/-- A message is taken out of what is in flight, and is handled or not. -/
theorem Gate.take (h : Gate id args n) {before behind : List (Middlebox × Message)}
    {source : Middlebox} {msg : Message} (hin : n.inFlight = before ++ (source, msg) :: behind) :
    Gate id args { n with inFlight := before ++ behind } ∧
      Gate id args (Network.note { n with inFlight := before ++ behind } source msg) := by
  have hsub := Network.mem_inFlight_of_left hin
  have hcount : n.inFlight.count (args.dst, .eventsAck) =
      (before ++ behind).count (args.dst, .eventsAck) + [(source, msg)].count (args.dst, .eventsAck) := by
    rw [hin]
    simp only [List.count_append, List.count_cons, List.count_nil]
    omega
  have hacks := h.acks
  rw [hcount] at hacks
  constructor
  · exact ⟨h.same, h.toggle_at, h.get_at, fun mb hm => h.ack_from mb (hsub _ hm), h.enables, h.disables,
      by
        show n.handled.count (args.dst, .eventsAck) + (before ++ behind).count (args.dst, .eventsAck) +
          n.waitingAt _ _ + n.waitingAt _ _ ≤ n.sentTo _ _ + n.sentTo _ _
        omega,
      fun he => ⟨(h.unread he).1, (h.unread he).2.1, fun mb m hm => (h.unread he).2.2 mb m (hsub _ hm)⟩,
      h.buffering, h.finished⟩
  · have hhandled : (n.handled ++ [(source, msg)]).count (args.dst, .eventsAck) =
        n.handled.count (args.dst, .eventsAck) + [(source, msg)].count (args.dst, .eventsAck) :=
      List.count_append
    refine ⟨h.same, h.toggle_at, h.get_at, fun mb hm => h.ack_from mb (hsub _ hm), h.enables, h.disables,
      ?_, fun he => ⟨(h.unread he).1, (h.unread he).2.1, fun mb m hm => (h.unread he).2.2 mb m (hsub _ hm)⟩,
      fun hb => ?_, fun hg hf => ?_⟩
    · show (n.handled ++ [(source, msg)]).count (args.dst, .eventsAck) +
        (before ++ behind).count (args.dst, .eventsAck) + n.waitingAt _ _ + n.waitingAt _ _ ≤
          n.sentTo _ _ + n.sentTo _ _
      omega
    · have hone := h.buffering hb
      show 1 ≤ (n.handled ++ [(source, msg)]).count (args.dst, .eventsAck)
      omega
    · obtain ⟨htwo, hne⟩ := h.finished hg hf
      refine ⟨?_, hne⟩
      show 2 ≤ (n.handled ++ [(source, msg)]).count (args.dst, .eventsAck)
      omega

/-! ## What the handlers send and set -/

variable [PacketUtil] {sched : Schedule} {source : Middlebox} {msg : Message} {op : MoveOperation}
  {mb : Middlebox} {cmd : Command}

/-- A handler sends puts, the gets for `src`, or a filter for `dst`. -/
theorem send_of_mem_receive (h : .send mb cmd ∈ (receive sched source msg op).out) :
    (cmd.isToggle = false ∧ cmd.getClass = none) ∨ (cmd.isToggle = false ∧ mb = op.src) ∨
      (mb = op.dst ∧ op.guarantee = .orderPreserving ∧ cmd = .enableEvents op.id op.key .buffer ∧
        (receive sched source msg op).val.completed = true) ∨
      (mb = op.dst ∧ cmd = .disableEvents op.id op.key ∧ source ≠ op.src ∧ ∃ m, msg = .reprocess m) := by
  cases emits_of_mem_receive h with
  | put => exact Or.inl ⟨rfl, rfl⟩
  | get hm hs hget => exact Or.inr (Or.inl ⟨(Command.of_get (by rw [hget]; exact Option.some_ne_none _)).2, rfl⟩)
  | buffer hg hc => exact Or.inr (Or.inr (Or.inl ⟨rfl, hg, rfl, hc⟩))
  | disable hm hs => exact Or.inr (Or.inr (Or.inr ⟨rfl, rfl, hs, _, hm⟩))

theorem checkIfStateMoved_finished (op : MoveOperation) (sched : Schedule)
    (hg : op.guarantee = .orderPreserving) : (op.checkIfStateMoved sched).val.finished = op.finished := by
  rcases op.checkIfStateMoved_cases sched with
    ⟨-, h⟩ | ⟨-, -, -, h⟩ | ⟨-, -, _, _, _, -, -, h⟩ | ⟨-, hg', -⟩ | ⟨-, hg', -⟩
  · rw [h]
  · rw [h]
  · rw [h]
  · exact absurd hg hg'
  · exact absurd hg hg'

/-- Only an ack of a filter finishes a move that keeps the order. -/
theorem receive_finished (hg : op.guarantee = .orderPreserving) (hmsg : msg ≠ .eventsAck) :
    (receive sched source msg op).val.finished = op.finished := by
  have hput : ∀ {op : MoveOperation} (hashkey : Int), op.guarantee = .orderPreserving →
      (op.receivePutAckOf sched hashkey).val.finished = op.finished := by
    intro op hashkey hg
    obtain ⟨_, _, -, -, ⟨-, op', rfl, h⟩ | ⟨_, _, _, _, -, -, h⟩⟩ := op.receivePutAckOf_cases sched hashkey
    · rw [h]
      exact checkIfStateMoved_finished _ sched hg
    · rw [h]
      rfl
  have hget : ∀ cls other count, (op.receiveGetAckOf sched cls other count).val.finished = op.finished := by
    intro cls other count
    unfold receiveGetAckOf
    dsimp only
    split
    · split <;> rfl
    · exact checkIfStateMoved_finished _ sched hg
  cases msg with
  | state msg => cases msg <;> simp only [receive, receiveState, receiveStateMessage] <;>
      (try split) <;> rfl
  | getAck cls count => cases cls <;> first | exact hget .. | rfl
  | putAck cls hashkey => cases cls <;> first | exact hput hashkey hg | rfl
  | eventsAck => exact absurd rfl hmsg
  | reprocess m =>
      simp only [receive, receiveReprocess]
      split
      · rfl
      · split
        · unfold receiveSrcReprocess
          dsimp only
          split
          · rfl
          · split
            · rfl
            · split
              · rfl
              · simp only [Emit.bind_val]
                split <;> rfl
        · rw [receiveDstReprocess_val]

/-! ## Steps -/

omit [PacketUtil] in
/-- A holder answers a command about filters with an ack, and any other one with neither acks of
filters nor events. -/
theorem command_filters (h : Holder) (cmd : Command) :
    (cmd.isToggle = true ∧ (h.command cmd).2 = [.eventsAck]) ∨
    (cmd.isToggle = false ∧ .eventsAck ∉ (h.command cmd).2 ∧
      (∀ m, .reprocess m ∉ (h.command cmd).2) ∧
      (cmd.getClass = none → (h.command cmd).1 = h)) := by
  have hget : ∀ cls, .eventsAck ∉ h.answerGet cls ∧ ∀ m, .reprocess m ∉ h.answerGet cls := by
    intro cls
    refine ⟨h.eventsAck_not_mem_answerGet cls, fun m hm => ?_⟩
    rcases List.mem_append.mp hm with hm | hm
    · obtain ⟨x, -, hx⟩ := List.mem_map.mp hm
      cases hx
    · cases List.mem_singleton.mp hm
  cases cmd with
  | getPerflow => exact Or.inr ⟨rfl, (hget _).1, (hget _).2, fun hg => by cases hg⟩
  | getMultiflow => exact Or.inr ⟨rfl, (hget _).1, (hget _).2, fun hg => by cases hg⟩
  | getAllflows => exact Or.inr ⟨rfl, (hget _).1, (hget _).2, fun hg => by cases hg⟩
  | getConfig => exact Or.inr ⟨rfl, (hget _).1, (hget _).2, fun hg => by cases hg⟩
  | put =>
      refine Or.inr ⟨rfl, fun hm => ?_, fun m hm => ?_, fun _ => rfl⟩ <;>
        cases List.mem_singleton.mp hm
  | enableEvents => exact Or.inl ⟨rfl, rfl⟩
  | disableEvents => exact Or.inl ⟨rfl, rfl⟩

omit [PacketUtil] in
theorem Gate.read (h : Gate id args n) {mb : Middlebox} {cmd : Command} {rest : List Command}
    (hw : n.wire mb = cmd :: rest) :
    Gate id args (Network.answer { n with wire := Function.update n.wire mb rest } mb
      (Holder.command (n.nf mb) cmd)) := by
  have hmem : cmd ∈ n.wire mb := by
    rw [hw]
    exact List.mem_cons_self
  have hsub : ∀ mb', ∀ cmd' ∈ Function.update n.wire mb rest mb', cmd' ∈ n.wire mb' := by
    intro mb' cmd' hm
    by_cases hmb : mb' = mb
    · subst hmb
      rw [Function.update_self] at hm
      rw [hw]
      exact List.mem_cons_of_mem cmd hm
    · rwa [Function.update_of_ne hmb] at hm
  have hwaiting : ∀ p : Command → Bool, n.waitingAt args.dst p =
      (Function.update n.wire mb rest args.dst).countP p +
        if mb = args.dst ∧ p cmd = true then 1 else 0 := by
    intro p
    by_cases hmb : args.dst = mb
    · rw [← hmb, Function.update_self, Network.waitingAt, hmb, hw, List.countP_cons]
      simp
    · rw [Function.update_of_ne hmb, if_neg fun he => hmb he.1.symm, Nat.add_zero]
      rfl
  rcases command_filters (n.nf mb) cmd with ⟨ht, hanswer⟩ | ⟨ht, hack, hrep, hsame⟩
  · -- A filter is set or removed at `dst`, and one ack comes for it.
    obtain ⟨rfl, hcmd⟩ := h.toggle_at mb cmd hmem ht
    have hE := hwaiting Command.isEnable
    have hD := hwaiting Command.isDisable
    have hacks := h.acks
    have hen := h.enables
    have hdis := h.disables
    have hone : (if args.dst = args.dst ∧ cmd.isEnable = true then 1 else 0) +
        (if args.dst = args.dst ∧ cmd.isDisable = true then 1 else 0) = 1 := by
      rcases hcmd with rfl | rfl <;> simp [Command.isEnable, Command.isDisable]
    have hflight : (n.inFlight ++ (Holder.command (n.nf args.dst) cmd).2.map fun msg => (args.dst, msg)).count
        (args.dst, .eventsAck) = n.inFlight.count (args.dst, .eventsAck) + 1 := by
      rw [hanswer, List.count_append]
      simp
    refine ⟨h.same, fun mb' cmd' hm => h.toggle_at mb' cmd' (hsub _ _ hm),
      fun mb' cmd' hm => h.get_at mb' cmd' (hsub _ _ hm), fun mb' hm => ?_, ?_, ?_, ?_, fun he => ?_,
      h.buffering, h.finished⟩
    · rcases List.mem_append.mp hm with hm | hm
      · exact h.ack_from mb' hm
      · obtain ⟨x, -, hx⟩ := List.mem_map.mp hm
        exact (Prod.mk.inj hx).1.symm
    · show (Function.update n.wire args.dst rest args.dst).countP Command.isEnable ≤ n.sentTo _ _
      omega
    · show (Function.update n.wire args.dst rest args.dst).countP Command.isDisable ≤ n.sentTo _ _
      omega
    · show n.handled.count (args.dst, .eventsAck) + (n.inFlight ++ _).count (args.dst, .eventsAck) +
        (Function.update n.wire args.dst rest args.dst).countP Command.isEnable +
        (Function.update n.wire args.dst rest args.dst).countP Command.isDisable ≤
          n.sentTo _ _ + n.sentTo _ _
      rw [hflight]
      omega
    · have he : (Function.update n.wire args.dst rest args.dst).countP Command.isEnable =
        n.sentTo args.dst Command.isEnable := he
      have hnone : n.waitingAt args.dst Command.isEnable = n.sentTo args.dst Command.isEnable := by omega
      have hzero := (h.unread hnone).1
      omega
  · -- Neither filters nor acks of them are touched.
    have hno : cmd.isEnable = false ∧ cmd.isDisable = false := by
      rw [Command.isToggle_eq] at ht
      exact Bool.or_eq_false_iff.mp ht
    have hE : n.waitingAt args.dst Command.isEnable =
        (Function.update n.wire mb rest args.dst).countP Command.isEnable := by
      rw [hwaiting, hno.1]
      simp
    have hD : n.waitingAt args.dst Command.isDisable =
        (Function.update n.wire mb rest args.dst).countP Command.isDisable := by
      rw [hwaiting, hno.2]
      simp
    have hflight : (n.inFlight ++ (Holder.command (n.nf mb) cmd).2.map fun msg => (mb, msg)).count
        (args.dst, .eventsAck) = n.inFlight.count (args.dst, .eventsAck) := by
      have hnone : ((Holder.command (n.nf mb) cmd).2.map fun msg => (mb, msg)).count
          (args.dst, .eventsAck) = 0 := by
        refine List.count_eq_zero.mpr fun hm => ?_
        obtain ⟨x, hx, he⟩ := List.mem_map.mp hm
        exact hack ((Prod.mk.inj he).2 ▸ hx)
      rw [List.count_append, hnone, Nat.add_zero]
    refine ⟨h.same, fun mb' cmd' hm => h.toggle_at mb' cmd' (hsub _ _ hm),
      fun mb' cmd' hm => h.get_at mb' cmd' (hsub _ _ hm), fun mb' hm => ?_,
      hE.symm.trans_le h.enables, hD.symm.trans_le h.disables, ?_, fun he => ?_, h.buffering, h.finished⟩
    · rcases List.mem_append.mp hm with hm | hm
      · exact h.ack_from mb' hm
      · obtain ⟨x, hx, he⟩ := List.mem_map.mp hm
        exact absurd ((Prod.mk.inj he).2 ▸ hx) hack
    · show n.handled.count (args.dst, .eventsAck) + (n.inFlight ++ _).count (args.dst, .eventsAck) +
        (Function.update n.wire mb rest args.dst).countP Command.isEnable +
        (Function.update n.wire mb rest args.dst).countP Command.isDisable ≤
          n.sentTo _ _ + n.sentTo _ _
      rw [hflight, ← hE, ← hD]
      exact h.acks
    · obtain ⟨hzero, hraises, hfrom⟩ := h.unread (hE.trans he)
      refine ⟨hzero, fun mb' hmb' => ?_, fun mb' m hm => ?_⟩
      · show (Function.update n.nf mb (Holder.command (n.nf mb) cmd).1 mb').raises = false
        by_cases hmb : mb' = mb
        · subst hmb
          rw [Function.update_self, hsame]
          · exact hraises mb' hmb'
          · by_contra hget
            exact hmb' (h.get_at mb' cmd hmem hget)
        · rw [Function.update_of_ne hmb]
          exact hraises mb' hmb'
      · rcases List.mem_append.mp hm with hm | hm
        · exact hfrom mb' m hm
        · obtain ⟨x, hx, he⟩ := List.mem_map.mp hm
          exact absurd ((Prod.mk.inj he).2 ▸ hx) (hrep m)

omit [PacketUtil] in
/-- An ack that is handled is one of `dst`, so that it finishes a move only if `dst` is another
instance. -/
theorem Gate.eventsAck (h : Gate id args n) {before behind : List (Middlebox × Message)}
    {source : Middlebox} (hin : n.inFlight = before ++ (source, .eventsAck) :: behind) :
    Gate id args ((Network.note { n with inFlight := before ++ behind } source .eventsAck).record
      (n.op.receiveEventsAck source)) := by
  obtain ⟨hargs, hid⟩ := Prod.mk.inj h.same
  have hsource : source = args.dst := h.ack_from source (by rw [hin]; simp)
  have hhandled : (n.handled ++ [(source, Message.eventsAck)]).count (args.dst, .eventsAck) =
      n.handled.count (args.dst, .eventsAck) + 1 := by
    rw [hsource, List.count_append]
    simp
  have hnote := (h.take hin).2
  rcases n.op.receiveEventsAck_cases source with ⟨-, hr⟩ | ⟨-, -, hr⟩ | ⟨hs, hb, hr⟩
  · -- The gets are sent again.
    have hget : ∀ mb cmd, .send mb cmd ∈ n.op.issueGet.out → cmd.isToggle = false ∧ mb = args.src := by
      intro mb cmd hm
      obtain ⟨cmd', cls, he, hget⟩ := get_of_mem_issueGet hm
      obtain ⟨rfl, rfl⟩ := Effect.send.inj he
      exact ⟨(Command.of_get (by rw [hget]; exact Option.some_ne_none _)).2, congrArg MoveArguments.src hargs⟩
    refine hnote.record (by rw [hr]; exact h.same) ?_ ?_ ?_ ?_ ?_
    · intro mb cmd hm ht
      rw [hr] at hm
      rw [(hget mb cmd hm).1] at ht
      cases ht
    · intro mb cmd hm _
      rw [hr] at hm
      exact (hget mb cmd hm).2
    · intro _
      refine List.countP_eq_zero.mpr fun cmd hm ht => ?_
      rw [hr] at hm
      have hno := (hget _ cmd (mem_commandsTo.mp hm)).1
      rw [Command.isToggle_eq, ht, Bool.or_true] at hno
      cases hno
    · rw [hr]
      exact hnote.buffering
    · rw [hr]
      exact hnote.finished
  · refine hnote.record (by rw [hr]; exact h.same) ?_ ?_ ?_ ?_ ?_
    · intro mb cmd hm _
      rw [hr] at hm
      cases List.mem_singleton.mp hm
    · intro mb cmd hm _
      rw [hr] at hm
      cases List.mem_singleton.mp hm
    · intro _
      rw [hr]
      rfl
    · intro _
      show 1 ≤ (n.handled ++ [(source, Message.eventsAck)]).count (args.dst, .eventsAck)
      omega
    · rw [hr]
      exact hnote.finished
  · refine hnote.record (by rw [hr]; exact h.same) ?_ ?_ ?_ ?_ ?_
    · intro mb cmd hm _
      rw [hr] at hm
      cases List.mem_singleton.mp hm
    · intro mb cmd hm _
      rw [hr] at hm
      cases List.mem_singleton.mp hm
    · intro _
      rw [hr]
      rfl
    · rw [hr]
      exact hnote.buffering
    · intro _ _
      have hone := h.buffering hb
      refine ⟨?_, ?_⟩
      · show 2 ≤ (n.handled ++ [(source, Message.eventsAck)]).count (args.dst, .eventsAck)
        omega
      · rw [← hsource]
        exact fun he => hs (he.symm.trans (congrArg MoveArguments.src hargs).symm)

/-- Any other message. -/
theorem Gate.receive (h : Gate id args n) {before behind : List (Middlebox × Message)}
    (hin : n.inFlight = before ++ (source, msg) :: behind) (hmsg : msg ≠ .eventsAck) :
    Gate id args ((Network.note { n with inFlight := before ++ behind } source msg).record
      (receive sched source msg n.op)) := by
  obtain ⟨hargs, hid⟩ := Prod.mk.inj h.same
  have hm : (source, msg) ∈ n.inFlight := by
    rw [hin]
    simp
  have hnote := (h.take hin).2
  have huntouched := receive_untouched sched source msg n.op
  have hdst : n.op.dst = args.dst := congrArg MoveArguments.dst hargs
  have hsrc : n.op.src = args.src := congrArg MoveArguments.src hargs
  have hkey : n.op.key = args.key := congrArg MoveArguments.key hargs
  refine hnote.record ?_ ?_ ?_ ?_ ?_ ?_
  · rw [← h.same]
    exact congrArg (fun u => (u.1, u.2.1)) huntouched
  · intro mb cmd hs ht
    rcases send_of_mem_receive hs with ⟨hno, -⟩ | ⟨hno, -⟩ | ⟨hmb, -, hcmd, -⟩ | ⟨hmb, hcmd, -⟩
    · rw [ht] at hno
      cases hno
    · rw [ht] at hno
      cases hno
    · exact ⟨hmb.trans hdst, Or.inl (by rw [hcmd, hid, hkey])⟩
    · exact ⟨hmb.trans hdst, Or.inr (by rw [hcmd, hid, hkey])⟩
  · intro mb cmd hs hget
    rcases send_of_mem_receive hs with ⟨-, hno⟩ | ⟨-, hmb⟩ | ⟨-, -, hcmd, -⟩ | ⟨-, hcmd, -⟩
    · exact absurd hno hget
    · exact hmb.trans hsrc
    · rw [hcmd] at hget
      exact absurd rfl hget
    · rw [hcmd] at hget
      exact absurd rfl hget
  · -- Only an event of another instance than `src` has a filter removed.
    intro he
    refine List.countP_eq_zero.mpr fun cmd hc ht => ?_
    rcases send_of_mem_receive (mem_commandsTo.mp hc) with ⟨hno, -⟩ | ⟨hno, -⟩ | ⟨-, -, hcmd, -⟩ |
      ⟨-, -, hs, m, rfl⟩
    · rw [Command.isToggle_eq, ht, Bool.or_true] at hno
      cases hno
    · rw [Command.isToggle_eq, ht, Bool.or_true] at hno
      cases hno
    · rw [hcmd] at ht
      cases ht
    · exact hs (((h.unread he).2.2 source m hm).trans hsrc.symm)
  · rw [receive_bufferingEnabled sched source n.op hmsg]
    exact hnote.buffering
  · intro hg
    have hg' : n.op.guarantee = .orderPreserving := by
      rw [show n.op.guarantee = args.guarantee from congrArg MoveArguments.guarantee hargs, hg]
    rw [receive_finished hg' hmsg]
    exact hnote.finished hg

theorem Gate.step (h : Gate id args n) {a : Act ReprocessMessage} (hs : n.step a = some n') :
    Gate id args n' := by
  have hquiet : ∀ {r : Emit Effect MoveOperation}, (∀ mb cmd, .send mb cmd ∈ r.out →
      cmd.isToggle = false ∧ cmd.getClass = none) →
      (r.val.toMoveArguments, r.val.id) = (n.op.toMoveArguments, n.op.id) →
      r.val.bufferingEnabled = n.op.bufferingEnabled → r.val.finished = n.op.finished →
      Gate id args (n.record r) := by
    intro r hout hsame hbuf hfin
    refine h.record (hsame.trans h.same) ?_ ?_ ?_ (by rw [hbuf]; exact h.buffering)
      (by rw [hfin]; exact h.finished)
    · intro mb cmd hm ht
      rw [(hout mb cmd hm).1] at ht
      cases ht
    · intro mb cmd hm hget
      exact absurd (hout mb cmd hm).2 hget
    · intro _
      refine List.countP_eq_zero.mpr fun cmd hc ht => ?_
      have hno := (hout _ cmd (mem_commandsTo.mp hc)).1
      rw [Command.isToggle_eq, ht, Bool.or_true] at hno
      cases hno
  cases a with
  | read mb =>
      obtain ⟨cmd, rest, hw, rfl⟩ := Network.step_read hs
      exact h.read hw
  | deliver sched i =>
      obtain ⟨source, msg, before, behind, hin, -, -, ⟨-, rfl⟩ | ⟨-, rfl⟩⟩ := Network.step_deliver hs
      · exact (h.take hin).1
      · by_cases hmsg : msg = .eventsAck
        · subst hmsg
          exact h.eventsAck hin
        · exact h.receive hin hmsg
  | stimulus mb m =>
      obtain ⟨r, hr, rfl⟩ := Network.step_stimulus hs
      obtain ⟨hraises, rfl⟩ := Holder.stimulus_cases hr
      refine ⟨h.same, h.toggle_at, h.get_at, fun mb' hm => ?_, h.enables, h.disables, ?_, fun he => ?_,
        h.buffering, h.finished⟩
      · rcases List.mem_append.mp hm with hm | hm
        · exact h.ack_from mb' hm
        · cases List.mem_singleton.mp hm
      · show n.handled.count (args.dst, .eventsAck) + (n.inFlight ++ [(mb, Message.reprocess m)]).count _ +
          n.waitingAt _ _ + n.waitingAt _ _ ≤ n.sentTo _ _ + n.sentTo _ _
        rw [List.count_append, List.count_singleton, if_neg (by simp)]
        exact h.acks
      · obtain ⟨hzero, hno, hfrom⟩ := h.unread he
        have hmb : mb = args.src := by
          by_contra hne
          rw [hno mb hne] at hraises
          cases hraises
        refine ⟨hzero, fun mb' hmb' => ?_, fun mb' m' hm => ?_⟩
        · show (Function.update n.nf mb (n.nf mb) mb').raises = false
          rw [Function.update_eq_self]
          exact hno mb' hmb'
        · rcases List.mem_append.mp hm with hm | hm
          · exact hfrom mb' m' hm
          · cases List.mem_singleton.mp hm
            exact hmb
  | forward i =>
      obtain ⟨mb, packet, before, behind, -, rfl⟩ := Network.step_forward hs
      have hnf : Function.update n.nf mb (n.nf mb) = n.nf := Function.update_eq_self mb n.nf
      have hflight : n.inFlight ++ ([] : List Message).map (fun msg => (mb, msg)) = n.inFlight :=
        List.append_nil _
      have hsame : Network.answer { n with packets := before ++ behind } mb
          (NetworkFunction.packet (n.nf mb) packet) = { n with packets := before ++ behind } := by
        show ({ n with
          packets := before ++ behind
          nf := Function.update n.nf mb (n.nf mb)
          inFlight := n.inFlight ++ ([] : List Message).map fun msg => (mb, msg) } : Network _ _) = _
        rw [hnf, hflight]
      rw [hsame]
      exact ⟨h.same, h.toggle_at, h.get_at, h.ack_from, h.enables, h.disables, h.acks, h.unread,
        h.buffering, h.finished⟩
  | packetIn packet inSwitch inPort =>
      cases Network.step_packetIn hs
      have hout : ∀ mb cmd, .send mb cmd ∉ (Handlers.receivePacket packet inSwitch inPort n.op).out :=
        (TransferOperation.packet_out packet inSwitch inPort n.op).1
      have hbase : (Handlers.receivePacket packet inSwitch inPort n.op).val.toOperation =
          n.op.toOperation := TransferOperation.packet_base packet inSwitch inPort n.op
      refine hquiet (fun mb cmd hm => absurd hm (hout mb cmd)) ?_ ?_ (congrArg Operation.finished hbase)
      · rcases receivePacket_cases n.op packet inSwitch inPort with
          ⟨-, hr⟩ | ⟨-, -, ⟨_, -, hr⟩ | ⟨_, -, ⟨_, -, hr⟩ | ⟨_, -, -, hr⟩⟩⟩ <;>
        exact congrArg (fun r => (MoveOperation.toMoveArguments (Emit.val r), (Emit.val r).id)) hr
      · rcases receivePacket_cases n.op packet inSwitch inPort with
          ⟨-, hr⟩ | ⟨-, -, ⟨_, -, hr⟩ | ⟨_, -, ⟨_, -, hr⟩ | ⟨_, -, -, hr⟩⟩⟩ <;>
        exact congrArg (fun r => (Emit.val r).bufferingEnabled) hr
  | task i =>
      obtain ⟨task, ht, rfl⟩ := Network.step_task hs
      refine hquiet (fun mb cmd hm => ?_) rfl rfl rfl
      rcases Operation.mem_call hm with ⟨mb', putMsg, he⟩ | ⟨event, sw, packet, he⟩
      · obtain ⟨rfl, rfl⟩ := Effect.send.inj he
        exact ⟨rfl, rfl⟩
      · cases he

/-! ## Runs -/

variable {nf : Middlebox → Holder} {as : List (Act ReprocessMessage)}

theorem gate_start (hdrop : ¬ args.SetsDrop) (hnf : ∀ mb, (nf mb).raises = false) :
    Gate id args (Network.start (new id args) nf) := by
  have hexec : (new id args).execute = (new id args).issueGet := if_neg hdrop
  have hget : ∀ mb cmd, .send mb cmd ∈ (new id args).execute.out → cmd.isToggle = false ∧ mb = args.src := by
    intro mb cmd hm
    rw [hexec] at hm
    obtain ⟨cmd', cls, he, hget⟩ := get_of_mem_issueGet hm
    obtain ⟨rfl, rfl⟩ := Effect.send.inj he
    exact ⟨(Command.of_get (by rw [hget]; exact Option.some_ne_none _)).2, rfl⟩
  have hzero : ∀ p : Command → Bool, (∀ cmd, p cmd = true → cmd.isToggle = true) →
      (commandsTo args.dst (new id args).execute.out).countP p = 0 := by
    intro p hp
    refine List.countP_eq_zero.mpr fun cmd hm ht => ?_
    have hno := (hget _ cmd (mem_commandsTo.mp hm)).1
    rw [hp cmd ht] at hno
    cases hno
  have hE : (commandsTo args.dst (new id args).execute.out).countP Command.isEnable = 0 :=
    hzero _ fun cmd ht => by rw [Command.isToggle_eq, ht, Bool.true_or]
  have hD : (commandsTo args.dst (new id args).execute.out).countP Command.isDisable = 0 :=
    hzero _ fun cmd ht => by rw [Command.isToggle_eq, ht, Bool.or_true]
  refine ⟨rfl, fun mb cmd hm ht => ?_, fun mb cmd hm _ => (hget mb cmd (mem_commandsTo.mp hm)).2,
    fun mb hm => absurd hm List.not_mem_nil, Nat.le_refl _, Nat.le_refl _, ?_,
    fun _ => ⟨hD, fun mb _ => hnf mb, fun mb m hm => absurd hm List.not_mem_nil⟩,
    fun hb => (by cases hb), fun _ hf => (by cases hf)⟩
  · have hno := (hget mb cmd (mem_commandsTo.mp hm)).1
    rw [ht] at hno
    cases hno
  · show 0 + 0 + (commandsTo args.dst (new id args).execute.out).countP Command.isEnable +
      (commandsTo args.dst (new id args).execute.out).countP Command.isDisable ≤ _
    rw [hE, hD]
    exact Nat.zero_le _

theorem gate_run (hdrop : ¬ args.SetsDrop) (hnf : ∀ mb, (nf mb).raises = false)
    (hr : Machine.run Network.step (Network.start (new id args) nf) as = some n) : Gate id args n :=
  Machine.run_invariant' (gate_start hdrop hnf) (fun _ _ _ h hs => h.step hs) hr

/-! ## One filter at most -/

omit [PacketUtil] in
theorem isAck_cases (msg : Message) : msg.isAck = true ∨ (∃ m, msg = .state m) ∨ msg = .eventsAck ∨
    ∃ m, msg = .reprocess m := by
  cases msg with
  | state m => exact Or.inr (Or.inl ⟨m, rfl⟩)
  | getAck => exact Or.inl rfl
  | putAck => exact Or.inl rfl
  | eventsAck => exact Or.inr (Or.inr (Or.inl rfl))
  | reprocess m => exact Or.inr (Or.inr (Or.inr ⟨m, rfl⟩))

/-- A filter is set after an ack of state only. -/
theorem isAck_of_enable (h : .send mb cmd ∈ (receive sched source msg op).out)
    (hcmd : cmd.isEnable = true) : msg.isAck = true := by
  rcases isAck_cases msg with hack | ⟨m, rfl⟩ | rfl | ⟨m, rfl⟩
  · exact hack
  · cases m <;> simp only [receive, receiveState, receiveStateMessage] at h <;>
      (try split at h) <;> cases h
  · rcases op.receiveEventsAck_cases source with ⟨-, hr⟩ | ⟨-, -, hr⟩ | ⟨-, -, hr⟩
    · rw [show (receive sched source .eventsAck op).out = _ from congrArg Emit.out hr] at h
      obtain ⟨cmd', cls, he, hget⟩ := get_of_mem_issueGet h
      obtain ⟨rfl, rfl⟩ := Effect.send.inj he
      cases cmd <;> cases hcmd
      cases hget
    · rw [show (receive sched source .eventsAck op).out = _ from congrArg Emit.out hr] at h
      cases List.mem_singleton.mp h
    · rw [show (receive sched source .eventsAck op).out = _ from congrArg Emit.out hr] at h
      cases List.mem_singleton.mp h
  · simp only [receive, receiveReprocess] at h
    split at h
    · cases h
    · split at h
      · unfold receiveSrcReprocess at h
        dsimp only at h
        split at h
        · cases h
        · split at h
          · cases h
          · split at h
            · cases h
            · rename_i hack
              simp only [StateChunk.receivedReprocess, hack, Bool.false_eq_true, ↓reduceIte] at h
              cases h
      · unfold receiveDstReprocess at h
        split at h
        · cases h
        · split at h
          · cases List.mem_singleton.mp h
          · split at h
            · cases List.mem_singleton.mp h
              cases hcmd
            · cases h

theorem commandsTo_events (mb : Middlebox) (events : List ReprocessEvent) :
    commandsTo mb (events.flatMap ReprocessEvent.sent) = [] := by
  refine List.eq_nil_iff_forall_not_mem.mpr fun cmd hm => ?_
  obtain ⟨event, -, sw, packet, he⟩ := eventOut_of_mem_flatMap_sent (mem_commandsTo.mp hm)
  cases he

omit [PacketUtil] in
theorem countP_enable_le (mb mb' : Middlebox) (cmd : Command) :
    (commandsTo mb [.send mb' cmd]).countP Command.isEnable ≤ 1 := by
  by_cases h : mb' = mb
  · simp only [commandsTo, List.filterMap_cons, if_pos h, List.filterMap_nil]
    exact List.countP_le_length
  · simp [commandsTo, h]

omit [PacketUtil] in
theorem countP_enable_eq_zero {mb : Middlebox} {out : List Effect}
    (h : ∀ cmd, .send mb cmd ∈ out → cmd.isEnable = false) :
    (commandsTo mb out).countP Command.isEnable = 0 :=
  List.countP_eq_zero.mpr fun cmd hm ht => by
    rw [h cmd (mem_commandsTo.mp hm)] at ht
    cases ht

theorem checkIfStateMoved_enables (op : MoveOperation) (sched : Schedule) (mb : Middlebox) :
    (commandsTo mb (op.checkIfStateMoved sched).out).countP Command.isEnable ≤ 1 := by
  rcases op.checkIfStateMoved_cases sched with
    ⟨-, h⟩ | ⟨-, -, -, h⟩ | ⟨-, -, _, _, _, -, -, h⟩ | ⟨-, -, rules, hrules, h⟩ | ⟨-, -, _, -, h⟩
  · rw [h]
    exact Nat.zero_le 1
  · rw [h, ← List.singleton_append, commandsTo_append, commandsTo_events, List.append_nil]
    exact countP_enable_le mb _ _
  · rw [h, ← List.singleton_append, commandsTo_append, commandsTo_append, commandsTo_events]
    exact (List.append_nil (commandsTo mb [_])).symm ▸ countP_enable_le mb _ _
  · rw [countP_enable_eq_zero]
    · exact Nat.zero_le 1
    · intro cmd hm
      rw [h] at hm
      rcases List.mem_append.mp hm with hm | hm
      · obtain ⟨_, -, -, he⟩ := MoveArguments.mem_updateForwardingToDst hrules hm
        cases he
      · rcases List.mem_append.mp hm with hm | hm
        · obtain ⟨event, -, sw, packet, he⟩ := eventOut_of_mem_flatMap_sent hm
          cases he
        · cases List.mem_singleton.mp hm
  · rw [h]
    exact Nat.zero_le 1

/-- A handler sets one filter at most. -/
theorem receive_enables (sched : Schedule) (source : Middlebox) (msg : Message) (op : MoveOperation)
    (mb : Middlebox) :
    (commandsTo mb (receive sched source msg op).out).countP Command.isEnable ≤ 1 := by
  have hput : ∀ (op : MoveOperation) (hashkey : Int),
      (commandsTo mb (op.receivePutAckOf sched hashkey).out).countP Command.isEnable ≤ 1 := by
    intro op hashkey
    obtain ⟨_, _, -, -, ⟨-, op', -, h⟩ | ⟨_, _, _, _, -, -, h⟩⟩ := op.receivePutAckOf_cases sched hashkey
    · rw [h, commandsTo_append, commandsTo_events, List.nil_append]
      exact checkIfStateMoved_enables op' sched mb
    · rw [h, commandsTo_append, commandsTo_events]
      exact Nat.zero_le 1
  have hget : ∀ cls other count,
      (commandsTo mb (op.receiveGetAckOf sched cls other count).out).countP Command.isEnable ≤ 1 := by
    intro cls other count
    unfold receiveGetAckOf
    dsimp only
    split
    · split
      · exact Nat.zero_le 1
      · rw [countP_enable_eq_zero]
        · exact Nat.zero_le 1
        · intro cmd hm
          obtain ⟨ref, -, hm⟩ := List.mem_flatMap.mp hm
          obtain ⟨mb', putMsg, he⟩ := StateChunk.put_of_mem_call hm
          obtain ⟨-, rfl⟩ := Effect.send.inj he
          rfl
    · exact checkIfStateMoved_enables _ sched mb
  have hother : msg.isAck = false →
      (commandsTo mb (receive sched source msg op).out).countP Command.isEnable ≤ 1 := by
    intro hack
    rw [countP_enable_eq_zero]
    · exact Nat.zero_le 1
    · intro cmd hm
      by_contra hcmd
      rw [isAck_of_enable hm (Bool.eq_true_of_not_eq_false hcmd)] at hack
      cases hack
  cases msg with
  | getAck cls count =>
      cases cls with
      | perflow => exact hget ..
      | multiflow => exact hget ..
      | allflows => exact Nat.zero_le 1
      | config => exact Nat.zero_le 1
  | putAck cls hashkey =>
      cases cls with
      | perflow => exact hput ..
      | multiflow => exact hput ..
      | allflows => exact Nat.zero_le 1
      | config => exact Nat.zero_le 1
  | state m => exact hother rfl
  | eventsAck => exact hother rfl
  | reprocess m => exact hother rfl

/-- A move sets one filter at most, when its transfer is complete. -/
structure Once (args : MoveArguments) (n : Network MoveOperation Holder) : Prop where
  count : n.sentTo args.dst Command.isEnable ≤ 1
  complete : n.sentTo args.dst Command.isEnable = 1 → n.op.transfer.Complete
  ordered : n.sentTo args.dst Command.isEnable ≠ 0 → args.guarantee = .orderPreserving

/-- Only handing over a message sets a filter. -/
theorem sentTo_step {a : Act ReprocessMessage} (mb : Middlebox) (hs : n.step a = some n') :
    n'.sentTo mb Command.isEnable = n.sentTo mb Command.isEnable ∨
    ∃ sched source msg, (source, msg) ∈ n.inFlight ∧
      n'.op = (receive sched source msg n.op).val ∧
      n'.sentTo mb Command.isEnable = n.sentTo mb Command.isEnable +
        (commandsTo mb (receive sched source msg n.op).out).countP Command.isEnable := by
  cases a with
  | read mb' =>
      obtain ⟨cmd, rest, -, rfl⟩ := Network.step_read hs
      exact Or.inl rfl
  | deliver sched i =>
      obtain ⟨source, msg, before, behind, hin, -, -, ⟨-, rfl⟩ | ⟨-, rfl⟩⟩ := Network.step_deliver hs
      · exact Or.inl rfl
      · refine Or.inr ⟨sched, source, msg, by rw [hin]; simp, rfl, ?_⟩
        exact Network.sentTo_record (n := { n with inFlight := before ++ behind }) _
  | stimulus mb' m =>
      obtain ⟨r, -, rfl⟩ := Network.step_stimulus hs
      exact Or.inl rfl
  | forward i =>
      obtain ⟨mb', packet, before, behind, -, rfl⟩ := Network.step_forward hs
      exact Or.inl rfl
  | packetIn packet inSwitch inPort =>
      cases Network.step_packetIn hs
      have hout : ∀ mb cmd, .send mb cmd ∉ (Handlers.receivePacket packet inSwitch inPort n.op).out :=
        (TransferOperation.packet_out packet inSwitch inPort n.op).1
      refine Or.inl ?_
      rw [Network.sentTo_record, countP_enable_eq_zero fun cmd hm => absurd hm (hout mb cmd), Nat.add_zero]
  | task i =>
      obtain ⟨task, -, rfl⟩ := Network.step_task hs
      refine Or.inl ?_
      rw [Network.sentTo_record, countP_enable_eq_zero fun cmd hm => ?_, Nat.add_zero]
      rcases Operation.mem_call hm with ⟨mb', putMsg, he⟩ | ⟨event, sw, packet, he⟩
      · obtain ⟨-, rfl⟩ := Effect.send.inj he
        rfl
      · cases he

open TransferOperation in
theorem once_run (hdrop : ¬ args.SetsDrop) (hargs : args.Admitted)
    (hne : args.guarantee = .orderPreserving → args.src ≠ args.dst)
    (hnf : ∀ mb, (nf mb).raises = false)
    (hr : Machine.run Network.step (Network.start (new id args) nf) as = some n) : Once args n := by
  have hop := fresh_new id hargs
  have hne' : (new id args).transfer.ordered = true → (new id args).transfer.src ≠
      (new id args).transfer.dst := fun ho => hne (of_decide_eq_true ho)
  induction as using List.reverseRecOn generalizing n with
  | nil =>
      cases hr
      have hzero : (Network.start (new id args) nf).sentTo args.dst Command.isEnable = 0 := by
        refine countP_enable_eq_zero fun cmd hm => ?_
        have hm : .send args.dst cmd ∈ (new id args).execute.out := hm
        rw [show (new id args).execute = (new id args).issueGet from if_neg hdrop] at hm
        obtain ⟨cmd', cls, he, hget⟩ := get_of_mem_issueGet hm
        obtain ⟨-, rfl⟩ := Effect.send.inj he
        cases cmd <;> first | rfl | cases hget
      exact ⟨by omega, fun he => by omega, fun hs => absurd hzero hs⟩
  | append_singleton as a ih =>
      obtain ⟨t, ht, hs⟩ := Machine.run_snoc_eq_some.mp hr
      obtain ⟨hsound, hsame⟩ := Network.sound_run hop hnf hne' ht
      obtain ⟨hcount, hcomplete, hordered⟩ := ih ht
      have hne'' : t.op.transfer.ordered = true → t.op.transfer.src ≠ t.op.transfer.dst := by
        have hsame' : (new id args).transfer.SameArgs t.op.transfer := hsame
        rw [hsame'.ordered, hsame'.src, hsame'.dst]
        exact hne'
      obtain ⟨-, hargs', -⟩ := hsound.step (contentsOf_classed _) hne'' hs
      have hkeep : t.op.transfer.Complete → n.op.transfer.Complete := fun hc =>
        hsound.complete_step hc hargs' hs
      rcases sentTo_step args.dst hs with hsent | ⟨sched, source, msg, hm, hop', hsent⟩
      · exact ⟨hsent.trans_le hcount, fun hone => hkeep (hcomplete (hsent.symm.trans hone)),
          fun hs => hordered (hsent ▸ hs)⟩
      · have hle := receive_enables sched source msg t.op args.dst
        by_cases hout : (commandsTo args.dst (receive sched source msg t.op).out).countP
            Command.isEnable = 0
        · rw [hout, Nat.add_zero] at hsent
          exact ⟨hsent.trans_le hcount, fun hone => hkeep (hcomplete (hsent.symm.trans hone)),
            fun hs => hordered (hsent ▸ hs)⟩
        · -- An ack has made the transfer complete, which it was not before.
          obtain ⟨cmd, hcmd, hen⟩ := List.countP_pos_iff.mp (Nat.pos_of_ne_zero hout)
          have hmem := mem_commandsTo.mp hcmd
          have hack := isAck_of_enable hmem hen
          have hbefore : ¬ t.op.transfer.Complete := fun hc => by
            rcases hsound.not_ack hc hm with rfl | ⟨m, rfl⟩ <;> cases hack
          have hzero : t.sentTo args.dst Command.isEnable = 0 := by
            by_contra hne
            exact hbefore (hcomplete (by omega))
          rcases send_of_mem_receive hmem with ⟨hno, -⟩ | ⟨hno, -⟩ | ⟨-, hg, -, hc⟩ | ⟨-, rfl, -⟩
          · rw [Command.isToggle_eq, hen] at hno
            cases hno
          · rw [Command.isToggle_eq, hen] at hno
            cases hno
          · have hargs'' : n.op.toMoveArguments = args :=
              congrArg Prod.fst (gate_run hdrop hnf hr).same
            have hguarantee : t.op.guarantee = args.guarantee :=
              congrArg (fun x => x.1.guarantee) (gate_run hdrop hnf ht).same
            rw [hop'] at hargs''
            refine ⟨by omega, fun _ => ?_, fun _ => hguarantee.symm.trans hg⟩
            rw [hop']
            exact (completed_iff (by rw [hargs'']; exact hargs)).mp hc
          · cases hen

end MoveOperation

end OFM.Controller
