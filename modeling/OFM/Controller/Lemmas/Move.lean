import OFM.Controller.MoveOperation
import OFM.Controller.Lemmas.Events

/-!
# What the handlers of a move do

One lemma for each handler that says all it can do to the operation and all it emits.
-/

namespace OFM.Controller.MoveArguments

variable {args : MoveArguments}

/-- There is no switch, the rule is installed, or the key throws. -/
theorem updateForwardingToDst_cases (args : MoveArguments) :
    (args.dst.sw = none ∧ args.updateForwardingToDst = .ok []) ∨
    (∃ sw, args.dst.sw = some sw ∧ args.Routable ∧ args.updateForwardingToDst =
      .ok [.installRule sw args.inPort [args.dst.switchPort] args.key]) ∨
    (args.RouteThrows ∧ ∃ e, args.updateForwardingToDst = .error e) := by
  unfold MoveArguments.updateForwardingToDst installForwardingRules
  cases hsw : args.dst.sw with
  | none => exact Or.inl ⟨rfl, rfl⟩
  | some sw =>
      have hsome : args.dst.sw.isSome = true := Option.isSome_iff_exists.mpr ⟨sw, hsw⟩
      refine Or.inr ?_
      cases hkey : args.key.toOFMatches with
      | ok ms => exact Or.inl ⟨sw, rfl, ⟨hsome, by rw [hkey]; rfl⟩, rfl⟩
      | error e => exact Or.inr ⟨⟨hsome, by rw [hkey]; rfl⟩, e, rfl⟩

theorem not_routeThrows_iff :
    ¬ args.RouteThrows ↔ ∃ rules, args.updateForwardingToDst = .ok rules := by
  rcases updateForwardingToDst_cases args with ⟨hsw, h⟩ | ⟨sw, -, hroute, h⟩ | ⟨hthrows, e, h⟩
  · exact iff_of_true (fun hthrows => by simpa [hsw] using hthrows.1) ⟨_, h⟩
  · exact iff_of_true (fun hthrows => by simpa [hthrows.2] using hroute.2) ⟨_, h⟩
  · exact iff_of_false (not_not.mpr hthrows) fun ⟨rules, hr⟩ => by simp [h] at hr

theorem routeThrows_of_error {e : JavaException} (h : args.updateForwardingToDst = .error e) : args.RouteThrows := by
  by_contra hthrows
  obtain ⟨rules, hrules⟩ := not_routeThrows_iff.mp hthrows
  cases h.symm.trans hrules

theorem Routable.rules (h : args.Routable) :
    ∃ sw, args.dst.sw = some sw ∧ args.updateForwardingToDst =
      .ok [.installRule sw args.inPort [args.dst.switchPort] args.key] := by
  rcases updateForwardingToDst_cases args with ⟨hsw, -⟩ | ⟨sw, hsw, -, hok⟩ | ⟨hthrows, -⟩
  · simpa [hsw] using h.1
  · exact ⟨sw, hsw, hok⟩
  · simpa [hthrows.2] using h.2

/-- What the route update installs is the rule to `dst`. -/
theorem mem_updateForwardingToDst {rules : List Effect} {e : Effect}
    (h : args.updateForwardingToDst = .ok rules) (he : e ∈ rules) :
    ∃ sw, args.dst.sw = some sw ∧ args.Routable ∧
      e = .installRule sw args.inPort [args.dst.switchPort] args.key := by
  rcases updateForwardingToDst_cases args with ⟨-, hok⟩ | ⟨sw, hsw, hroute, hok⟩ | ⟨-, e', herror⟩
  · obtain rfl := Except.ok.inj (hok.symm.trans h)
    cases he
  · obtain rfl := Except.ok.inj (hok.symm.trans h)
    exact ⟨sw, hsw, hroute, List.mem_singleton.mp he⟩
  · cases herror.symm.trans h

end OFM.Controller.MoveArguments

namespace OFM.Controller.MoveOperation
open OFM.Lib MoveArguments

theorem admitted_scope {args : MoveArguments} (h : args.Admitted) :
    args.scope = .perflow ∨ args.scope = .multiflow ∨ args.scope = .pfMf := by
  unfold MoveArguments.Admitted SdmbnManager.moveAdmits at h
  split at h <;> simp_all

/-- Each requested class has been get-acked, and put-acked as often as the get-ack says. -/
def TransferComplete (op : MoveOperation) : Prop :=
  ∀ cls ∈ op.scope.classes, op.counters.Done cls

instance (op : MoveOperation) : Decidable op.TransferComplete :=
  inferInstanceAs (Decidable (∀ cls ∈ op.scope.classes, op.counters.Done cls))

theorem completed_iff {op : MoveOperation} (h : op.toMoveArguments.Admitted) :
    op.completed = true ↔ op.TransferComplete := by
  rcases admitted_scope h with hs | hs | hs <;>
    simp only [completed, TransferComplete, Scope.classes, Counters.Done, hs, Bool.and_eq_true,
      Counters.acksMatch_iff, List.mem_cons, List.not_mem_nil, or_false, forall_eq_or_imp, forall_eq]
  tauto

/-- What no message changes: the arguments, and what `receivePacket` has seen. -/
def untouched (op : MoveOperation) : MoveArguments × Int × Bool × Option Packet × Nat :=
  (op.toMoveArguments, op.id, op.performedPhaseTwo, op.lastPacket, op.packetCount)

/-- What only the first ack of `dst` changes. -/
def frame (op : MoveOperation) : (MoveArguments × Int × Bool × Option Packet × Nat) × Bool :=
  (op.untouched, op.bufferingEnabled)

theorem receiveState_frame (op : MoveOperation) (msg : StateMessage) :
    (op.receiveState msg).val.frame = op.frame := by
  cases msg <;> simp only [receiveState, receiveStateMessage] <;> (try split) <;> rfl

/-- An ack of `src` leads to the gets, the first ack of another instance to an exception, and every
later one to the end. -/
theorem receiveEventsAck_cases (op : MoveOperation) (source : Middlebox) :
    (source = op.src ∧ op.receiveEventsAck source = ⟨op, op.issueGet.out⟩) ∨
    (source ≠ op.src ∧ op.bufferingEnabled = false ∧ op.receiveEventsAck source =
      ⟨{ op with bufferingEnabled := true }, [.thrown .arrayIndexOutOfBounds]⟩) ∨
    (source ≠ op.src ∧ op.bufferingEnabled = true ∧ op.receiveEventsAck source =
      ⟨{ op with toOperation := { op.toOperation with finished := true } },
        [.operationFinished]⟩) := by
  by_cases hs : source = op.src
  · exact Or.inl ⟨hs, by rw [receiveEventsAck, if_pos hs]; rfl⟩
  · refine Or.inr ?_
    by_cases hb : op.bufferingEnabled = true
    · refine Or.inr ⟨hs, hb, ?_⟩
      rw [receiveEventsAck, if_neg hs, if_neg (not_not.mpr hb)]
      rfl
    · refine Or.inl ⟨hs, Bool.eq_false_iff.mpr hb, ?_⟩
      rw [receiveEventsAck, if_neg hs, if_pos hb]
      rfl

variable [PacketUtil]

theorem releaseInOrder_cases (events : List ReprocessEvent) (op : MoveOperation) :
    (releaseInOrder events op =
        ⟨({ op with eventsList := [] }, true), events.flatMap ReprocessEvent.sent⟩ ∧
      ∀ event ∈ events, event.Releases) ∨
    ∃ pre event rest, events = pre ++ event :: rest ∧ ¬ event.Releases ∧
      releaseInOrder events op =
        ⟨({ op with eventsList := rest, toOperation := { op.toOperation with failed := true } }, false),
          pre.flatMap ReprocessEvent.sent ++ [.operationFailed]⟩ := by
  induction events generalizing op with
  | nil => exact Or.inl ⟨rfl, by simp⟩
  | cons event events ih =>
      cases hc : event.call with
      | error e =>
          refine Or.inr ⟨[], event, events, rfl, ?_, ?_⟩
          · rintro ⟨out, h⟩; rw [hc] at h; cases h
          · simp only [releaseInOrder, hc]; rfl
      | ok out =>
          have hp : releaseInOrder (event :: events) op =
              ⟨(releaseInOrder events { op with eventsList := events }).val,
                event.sent ++ (releaseInOrder events { op with eventsList := events }).out⟩ := by
            rw [ReprocessEvent.sent_of_call hc]
            simp only [releaseInOrder, hc]; rfl
          rcases ih { op with eventsList := events } with ⟨he, hr⟩ | ⟨pre, event', rest, rfl, hn, he⟩
          · refine Or.inl ⟨by rw [hp, he]; rfl, ?_⟩
            intro event' hm
            rcases List.mem_cons.mp hm with rfl | hm
            · exact ⟨out, hc⟩
            · exact hr event' hm
          · refine Or.inr ⟨event :: pre, event', rest, rfl, hn, ?_⟩
            rw [hp, he, List.flatMap_cons, List.append_assoc]

/-- The check does nothing until the transfer is complete. Then it asks `dst` to buffer, or sends the
traffic to it, and releases the events that have been held back, unless the route update throws. -/
theorem checkIfStateMoved_cases (op : MoveOperation) (sched : Schedule) :
    (op.completed = false ∧ op.checkIfStateMoved sched = ⟨op, []⟩) ∨
    (op.completed = true ∧ op.guarantee = .orderPreserving ∧
      (∀ event ∈ op.eventsList, event.Releases) ∧
      op.checkIfStateMoved sched =
        ⟨{ op with eventsList := [], immediateRelease := true },
          .send op.dst (.enableEvents op.id op.key .buffer) ::
            op.eventsList.flatMap ReprocessEvent.sent⟩) ∨
    (op.completed = true ∧ op.guarantee = .orderPreserving ∧ ∃ pre event rest,
      op.eventsList = pre ++ event :: rest ∧ ¬ event.Releases ∧
      op.checkIfStateMoved sched =
        ⟨{ op with eventsList := rest, toOperation := { op.toOperation with failed := true } },
          .send op.dst (.enableEvents op.id op.key .buffer) ::
            (pre.flatMap ReprocessEvent.sent ++ [.operationFailed])⟩) ∨
    (op.completed = true ∧ op.guarantee ≠ .orderPreserving ∧ ∃ rules,
      op.updateForwardingToDst = .ok rules ∧ op.checkIfStateMoved sched =
        ⟨{ op with toOperation := { op.toOperation with finished := true }, immediateRelease := true },
          rules ++ ((sched.events op.eventsList).flatMap ReprocessEvent.sent ++ [.operationFinished])⟩) ∨
    (op.completed = true ∧ op.guarantee ≠ .orderPreserving ∧ ∃ e,
      op.updateForwardingToDst = .error e ∧ op.checkIfStateMoved sched = ⟨op, [.thrown e]⟩) := by
  cases hc : op.completed with
  | false => exact Or.inl ⟨rfl, by simp [checkIfStateMoved, hc]; rfl⟩
  | true =>
      refine Or.inr ?_
      by_cases hg : op.guarantee = .orderPreserving
      · rcases releaseInOrder_cases op.eventsList op with ⟨he, hr⟩ | ⟨pre, event, rest, hl, hn, he⟩
        · refine Or.inl ⟨rfl, hg, hr, ?_⟩
          apply Emit.ext <;>
            simp [checkIfStateMoved, endTransfer, hc, hg, enableEventGeneration, releaseEvents, he]
        · refine Or.inr (Or.inl ⟨rfl, hg, pre, event, rest, hl, hn, ?_⟩)
          apply Emit.ext <;>
            simp [checkIfStateMoved, endTransfer, hc, hg, enableEventGeneration, releaseEvents, he]
      · cases hroute : op.updateForwardingToDst with
        | ok rules =>
            refine Or.inr (Or.inr (Or.inl ⟨rfl, hg, rules, rfl, ?_⟩))
            apply Emit.ext <;>
              simp [checkIfStateMoved, endTransfer, hc, hg, hroute, releaseEvents, onBase, Operation.finish]
        | error e =>
            refine Or.inr (Or.inr (Or.inr ⟨rfl, hg, e, rfl, ?_⟩))
            simp only [checkIfStateMoved, hc, hg, hroute, ↓reduceIte]
            rfl

/-! ## What stays -/

theorem checkIfStateMoved_frame (op : MoveOperation) (sched : Schedule) :
    (op.checkIfStateMoved sched).val.frame = op.frame := by
  rcases op.checkIfStateMoved_cases sched with
    ⟨-, h⟩ | ⟨-, -, -, h⟩ | ⟨-, -, _, _, _, -, -, h⟩ | ⟨-, -, _, -, h⟩ | ⟨-, -, _, -, h⟩ <;>
  exact congrArg (fun r => frame (Emit.val r)) h

theorem checkIfStateMoved_counters (op : MoveOperation) (sched : Schedule) :
    (op.checkIfStateMoved sched).val.counters = op.counters := by
  rcases op.checkIfStateMoved_cases sched with
    ⟨-, h⟩ | ⟨-, -, -, h⟩ | ⟨-, -, _, _, _, -, -, h⟩ | ⟨-, -, _, -, h⟩ | ⟨-, -, _, -, h⟩ <;> rw [h]

/-- The put-ack handler stops behind an event that throws, and makes the check otherwise. -/
theorem receivePutAckOf_cases (op : MoveOperation) (sched : Schedule) (hashkey : Int) :
    ∃ ref chunk, ref = op.obtainStateChunk hashkey ∧ chunk = op.stateChunks ref ∧
    (((∀ event ∈ chunk.eventsList, event.Releases) ∧ ∃ op' : MoveOperation,
      op' = op.withChunk ref { chunk with ack := true, eventsList := [] } ∧
      op.receivePutAckOf sched hashkey =
        ⟨(op'.checkIfStateMoved sched).val,
          chunk.eventsList.flatMap ReprocessEvent.sent ++ (op'.checkIfStateMoved sched).out⟩) ∨
    (∃ pre event rest e, chunk.eventsList = pre ++ event :: rest ∧ ¬ event.Releases ∧
      op.receivePutAckOf sched hashkey =
        ⟨op.withChunk ref { chunk with ack := true, eventsList := rest },
          pre.flatMap ReprocessEvent.sent ++ [.thrown e]⟩)) := by
  refine ⟨_, _, rfl, rfl, ?_⟩
  rcases StateChunk.processAll_cases (op.stateChunks (op.obtainStateChunk hashkey)).eventsList with
    ⟨he, hr⟩ | ⟨pre, event, rest, e, hl, hn, he⟩
  · refine Or.inl ⟨hr, _, rfl, ?_⟩
    apply Emit.ext <;> simp [receivePutAckOf, StateChunk.receivedPutAck, he]
  · refine Or.inr ⟨pre, event, rest, e, hl, hn, ?_⟩
    apply Emit.ext <;> simp [receivePutAckOf, StateChunk.receivedPutAck, he]

theorem receivePutAckOf_frame (op : MoveOperation) (sched : Schedule) (hashkey : Int) :
    (op.receivePutAckOf sched hashkey).val.frame = op.frame := by
  obtain ⟨_, _, -, -, ⟨-, _, rfl, h⟩ | ⟨_, _, _, _, -, -, h⟩⟩ :=
    op.receivePutAckOf_cases sched hashkey
  · rw [h]; exact checkIfStateMoved_frame _ _
  · rw [h]; rfl

theorem receiveGetAckOf_frame (op : MoveOperation) (sched : Schedule) (cls other : StateClass)
    (count : Int) :
    (op.receiveGetAckOf sched cls other count).val.frame = op.frame := by
  unfold receiveGetAckOf
  dsimp only
  split
  · split <;> rfl
  · exact checkIfStateMoved_frame _ _

theorem receiveSrcReprocess_frame (op : MoveOperation) (msg : ReprocessMessage) :
    (op.receiveSrcReprocess msg).val.frame = op.frame := by
  unfold receiveSrcReprocess
  dsimp only
  split
  · rfl
  · split
    · rfl
    · split
      · rfl
      · rename_i hack
        simp only [Emit.bind_val]
        split <;> rfl

theorem receiveDstReprocess_val (op : MoveOperation) (msg : ReprocessMessage) :
    (op.receiveDstReprocess msg).val = op := by
  unfold receiveDstReprocess
  split
  · rfl
  · split
    · rfl
    · split <;> rfl

theorem receiveReprocess_frame (op : MoveOperation) (msg : ReprocessMessage) (source : Middlebox) :
    (op.receiveReprocess msg source).val.frame = op.frame := by
  unfold receiveReprocess
  split
  · rfl
  · split
    · exact receiveSrcReprocess_frame op msg
    · rw [receiveDstReprocess_val]

theorem receive_frame (sched : Schedule) (source : Middlebox) {msg : Message} (op : MoveOperation)
    (h : msg ≠ .eventsAck) : (receive sched source msg op).val.frame = op.frame := by
  cases msg with
  | state msg => exact receiveState_frame op msg
  | getAck cls count => cases cls <;> first | exact receiveGetAckOf_frame .. | rfl
  | putAck cls hashkey => cases cls <;> first | exact receivePutAckOf_frame .. | rfl
  | eventsAck => exact absurd rfl h
  | reprocess msg => exact receiveReprocess_frame op msg source

theorem receive_bufferingEnabled (sched : Schedule) (source : Middlebox) {msg : Message}
    (op : MoveOperation) (h : msg ≠ .eventsAck) :
    (receive sched source msg op).val.bufferingEnabled = op.bufferingEnabled :=
  congrArg Prod.snd (receive_frame sched source op h)

theorem receive_untouched (sched : Schedule) (source : Middlebox) (msg : Message)
    (op : MoveOperation) : (receive sched source msg op).val.untouched = op.untouched := by
  by_cases hmsg : msg = .eventsAck
  · subst hmsg
    rcases op.receiveEventsAck_cases source with ⟨-, h⟩ | ⟨-, -, h⟩ | ⟨-, -, h⟩ <;>
    exact congrArg (fun r => untouched (Emit.val r)) h
  · exact congrArg Prod.fst (receive_frame sched source op hmsg)

theorem receive_args (sched : Schedule) (source : Middlebox) (msg : Message) (op : MoveOperation) :
    (receive sched source msg op).val.toMoveArguments = op.toMoveArguments :=
  congrArg Prod.fst (receive_untouched sched source msg op)

theorem receive_performedPhaseTwo (sched : Schedule) (source : Middlebox) (msg : Message)
    (op : MoveOperation) :
    (receive sched source msg op).val.performedPhaseTwo = op.performedPhaseTwo :=
  congrArg (fun u => u.2.2.1) (receive_untouched sched source msg op)

theorem receivePacket_cases (op : MoveOperation) (packet : Packet) (inSwitch : Nat) (inPort : Int) :
    ((op.inPort ≠ inPort ∨ op.src.sw ≠ some inSwitch) ∧
      op.receivePacket packet inSwitch inPort = ⟨op, []⟩) ∨
    (op.inPort = inPort ∧ op.src.sw = some inSwitch ∧
      ((∃ e, PacketUtil.setFlag packet PacketUtil.flagNone = .error e ∧
        op.receivePacket packet inSwitch inPort =
          ⟨{ op with packetCount := op.packetCount + 1 }, [.thrown e]⟩) ∨
      ∃ last, PacketUtil.setFlag packet PacketUtil.flagNone = .ok last ∧
        ((∃ rules, (if op.performedPhaseTwo then .ok [] else op.updateForwardingToDst) = .ok rules ∧
          op.receivePacket packet inSwitch inPort =
            ⟨{ op with packetCount := op.packetCount + 1, lastPacket := last, performedPhaseTwo := true },
              rules⟩) ∨
        ∃ e, op.performedPhaseTwo = false ∧ op.updateForwardingToDst = .error e ∧
          op.receivePacket packet inSwitch inPort =
            ⟨{ op with packetCount := op.packetCount + 1, lastPacket := last }, [.thrown e]⟩))) := by
  by_cases hm : op.inPort ≠ inPort ∨ op.src.sw ≠ some inSwitch
  · exact Or.inl ⟨hm, by simp only [receivePacket, hm, ↓reduceIte]; rfl⟩
  · refine Or.inr ⟨by tauto, by tauto, ?_⟩
    cases hs : PacketUtil.setFlag packet PacketUtil.flagNone with
    | error e =>
        refine Or.inl ⟨e, rfl, ?_⟩
        simp only [receivePacket, hm, ↓reduceIte, hs]; rfl
    | ok last =>
        refine Or.inr ⟨last, rfl, ?_⟩
        cases hp : op.performedPhaseTwo with
        | true =>
            refine Or.inl ⟨[], rfl, ?_⟩
            apply Emit.ext <;> simp [receivePacket, hm, hs, hp]
        | false =>
            cases hroute : op.updateForwardingToDst with
            | ok rules =>
                refine Or.inl ⟨rules, rfl, ?_⟩
                apply Emit.ext <;> simp [receivePacket, hm, hs, hp, hroute]
            | error e =>
                refine Or.inr ⟨e, rfl, rfl, ?_⟩
                apply Emit.ext <;> simp [receivePacket, hm, hs, hp, hroute]

end OFM.Controller.MoveOperation
