import OFM.Lib.Machine
import OFM.Controller.Lemmas.MoveEffects

/-!
# Runs of a move

What one input can add to the log of a move, and what stays the same in every run.
-/

namespace OFM.Controller.MoveOperation
open OFM.Lib MoveArguments

/-- Two instances behind the switch 1, at its ports 2 and 3. -/
def sampleSrc : Middlebox := ⟨[0x61], 1, some 1, 2⟩

def sampleDst : Middlebox := ⟨[0x62], 2, some 1, 3⟩

/-- A move between them of traffic that enters at port 1. -/
def sampleMove (scope : Scope) (guarantee : Guarantee) (optimization : Optimization) :
    MoveArguments :=
  ⟨sampleSrc, sampleDst, PerflowKey.new, scope, guarantee, optimization, 1⟩

variable [PacketUtil]

/-- The session of a new move, once it has been executed. -/
abbrev session (id : Int) (args : MoveArguments) : Session MoveOperation := .start (new id args)

variable {s s' : Session MoveOperation} {a : Input} {as : List Input} {e : Effect}

/-- Why an input makes a move emit an effect. -/
inductive StepEmits (s : Session MoveOperation) (a : Input) (s' : Session MoveOperation) :
    Effect → Prop
  | handler {sched source msg e} (ha : a = .message sched source msg) (hf : s.op.failed = false)
      (he : Emits s.op source msg s'.op e) : StepEmits s a s' e
  | packetIn {packet inSwitch inPort last sw} (ha : a = .packet packet inSwitch inPort)
      (hport : s.op.inPort = inPort) (hsrc : s.op.src.sw = some inSwitch)
      (hflag : PacketUtil.setFlag packet PacketUtil.flagNone = .ok last)
      (hops : s'.op.counters = s.op.counters) (hroute : s.op.Routable) (hsw : s.op.dst.sw = some sw) :
      StepEmits s a s' (.installRule sw s.op.inPort [s.op.dst.switchPort] s.op.key)
  | thrown {x} : StepEmits s a s' (.thrown x)
  | put {mb putMsg} : StepEmits s a s' (.send mb (.put putMsg))
  | event {event sw packet} : StepEmits s a s' (.eventOut event sw packet)

/-- What an input adds to the log has a reason. -/
theorem mem_log_of_step (h : s.step a = some s') (he : e ∈ s'.log) :
    e ∈ s.log ∨ StepEmits s a s' e := by
  cases a with
  | message sched source msg =>
      rcases Session.step_message h with ⟨-, rfl⟩ | ⟨hf, rfl⟩
      · exact Or.inl he
      · rcases List.mem_append.mp he with he | he
        · exact Or.inl he
        · exact Or.inr (.handler rfl hf (emits_of_mem_receive he))
  | packet packet inSwitch inPort =>
      cases Session.step_packet h
      rcases List.mem_append.mp he with he | he
      · exact Or.inl he
      · refine Or.inr ?_
        rcases receivePacket_cases s.op packet inSwitch inPort with
          ⟨-, hr⟩ | ⟨hport, hsrc, ⟨x, -, hr⟩ | ⟨last, hflag, ⟨rules, hrules, hr⟩ | ⟨x, -, -, hr⟩⟩⟩
        · rw [show Handlers.receivePacket packet inSwitch inPort s.op = _ from hr] at he
          cases he
        · rw [show Handlers.receivePacket packet inSwitch inPort s.op = _ from hr] at he
          cases List.mem_singleton.mp he
          exact .thrown
        · have hops : (s.record (Handlers.receivePacket packet inSwitch inPort s.op)).op.counters =
              s.op.counters := by
            rw [show Handlers.receivePacket packet inSwitch inPort s.op = _ from hr]; rfl
          rw [show Handlers.receivePacket packet inSwitch inPort s.op = _ from hr] at he
          split at hrules
          · obtain rfl := Except.ok.inj hrules
            cases he
          · obtain ⟨sw, hsw, hroute, rfl⟩ := mem_updateForwardingToDst hrules he
            exact .packetIn rfl hport hsrc hflag hops hroute hsw
        · rw [show Handlers.receivePacket packet inSwitch inPort s.op = _ from hr] at he
          cases List.mem_singleton.mp he
          exact .thrown
  | task i =>
      obtain ⟨task, -, rfl⟩ := Session.step_task h
      rcases List.mem_append.mp he with he | he
      · exact Or.inl he
      · rcases Operation.mem_call he with ⟨mb, putMsg, rfl⟩ | ⟨event, sw, packet, rfl⟩
        · exact Or.inr .put
        · exact Or.inr .event

theorem step_constants (h : s.step a = some s') :
    (s'.op.toMoveArguments, s'.op.id) = (s.op.toMoveArguments, s.op.id) := by
  cases a with
  | message sched source msg =>
      rcases Session.step_message h with ⟨-, rfl⟩ | ⟨-, rfl⟩
      · rfl
      · exact congrArg (fun u => (u.1, u.2.1)) (receive_untouched sched source msg s.op)
  | packet packet inSwitch inPort =>
      cases Session.step_packet h
      rcases receivePacket_cases s.op packet inSwitch inPort with
        ⟨-, hr⟩ | ⟨-, -, ⟨_, -, hr⟩ | ⟨_, -, ⟨_, -, hr⟩ | ⟨_, -, -, hr⟩⟩⟩ <;>
      exact congrArg (fun r => (MoveOperation.toMoveArguments (Emit.val r), (Emit.val r).id)) hr
  | task i =>
      obtain ⟨task, -, rfl⟩ := Session.step_task h
      rfl

/-- Only an ack of another instance than `src` says that events are buffered. -/
theorem step_bufferingEnabled (h : s.step a = some s') (hb : s.op.bufferingEnabled = false) :
    s'.op.bufferingEnabled = false ∨ ∃ sched source, a = .message sched source .eventsAck ∧
      s.op.failed = false ∧ source ≠ s.op.src := by
  cases a with
  | message sched source msg =>
      rcases Session.step_message h with ⟨-, rfl⟩ | ⟨hf, rfl⟩
      · exact Or.inl hb
      · by_cases hmsg : msg = .eventsAck
        · subst hmsg
          rcases s.op.receiveEventsAck_cases source with ⟨-, hr⟩ | ⟨hs, -, -⟩ | ⟨hs, -, -⟩
          · exact Or.inl ((congrArg (fun r => bufferingEnabled (Emit.val r)) hr).trans hb)
          · exact Or.inr ⟨sched, source, rfl, hf, hs⟩
          · exact Or.inr ⟨sched, source, rfl, hf, hs⟩
        · exact Or.inl ((receive_bufferingEnabled sched source s.op hmsg).trans hb)
  | packet packet inSwitch inPort =>
      cases Session.step_packet h
      refine Or.inl ?_
      rcases receivePacket_cases s.op packet inSwitch inPort with
        ⟨-, hr⟩ | ⟨-, -, ⟨_, -, hr⟩ | ⟨_, -, ⟨_, -, hr⟩ | ⟨_, -, -, hr⟩⟩⟩ <;>
      exact (congrArg (fun r => bufferingEnabled (Emit.val r)) hr).trans hb
  | task i =>
      obtain ⟨task, -, rfl⟩ := Session.step_task h
      exact Or.inl hb

/-- A packet-in that can be read, from the port of the traffic at the switch of `src`. It is taken for the last
one if the route update does not throw. -/
theorem step_packet_flagged {packet : Packet} {inSwitch : Nat} {inPort : Int} {last : Option Packet}
    (h : s.step (.packet packet inSwitch inPort) = some s') (hport : s.op.inPort = inPort)
    (hsw : s.op.src.sw = some inSwitch)
    (hflag : PacketUtil.setFlag packet PacketUtil.flagNone = .ok last) :
    (s.op.Routable → s'.op.performedPhaseTwo = true) ∧ s'.op.lastPacket = last ∧
      s'.op.counters = s.op.counters := by
  cases Session.step_packet h
  rcases receivePacket_cases s.op packet inSwitch inPort with
    ⟨hm, -⟩ | ⟨-, -, ⟨e, he, -⟩ | ⟨last', hl, ⟨rules, -, hr⟩ | ⟨e, -, herror, hr⟩⟩⟩
  · rcases hm with hm | hm
    · exact absurd hport hm
    · exact absurd hsw hm
  · rw [hflag] at he; cases he
  · cases hl.symm.trans hflag
    rw [show s.record (Handlers.receivePacket packet inSwitch inPort s.op) = _ from
      congrArg s.record hr]
    exact ⟨fun _ => rfl, rfl, rfl⟩
  · cases hl.symm.trans hflag
    rw [show s.record (Handlers.receivePacket packet inSwitch inPort s.op) = _ from
      congrArg s.record hr]
    refine ⟨fun hroute => ?_, rfl, rfl⟩
    obtain ⟨sw, -, hok⟩ := hroute.rules
    cases herror.symm.trans hok

/-- Another instance than `src` reports the packet recorded last. -/
theorem step_report {sched : Schedule} {source : Middlebox} {msg : ReprocessMessage} {last : Packet}
    (h : s.step (.message sched source (.reprocess msg)) = some s') (hf : s.op.failed = false)
    (hg : s.op.guarantee ≠ .noGuarantee) (hsrc : source ≠ s.op.src)
    (hlast : s.op.lastPacket = some last)
    (hflag : PacketUtil.setFlag (ReprocessEvent.base64Decode msg.packet) PacketUtil.flagNone =
      .ok (some last)) :
    .send s.op.dst (.disableEvents s.op.id s.op.key) ∈ s'.log := by
  rcases Session.step_message h with ⟨hf', -⟩ | ⟨-, rfl⟩
  · exact absurd (hf.symm.trans hf') (by decide)
  · refine List.mem_append_right _ ?_
    have hout : (receive sched source (.reprocess msg) s.op).out =
        [.send s.op.dst (.disableEvents s.op.id s.op.key)] := by
      simp only [receive, receiveReprocess, if_neg hg, if_neg hsrc, receiveDstReprocess, hlast, hflag,
        ↓reduceIte]
      rfl
    rw [show (Handlers.receive sched source (.reprocess msg) s.op).out = _ from hout]
    exact List.mem_singleton.mpr rfl

variable {id : Int} {args : MoveArguments}

theorem run_constants (h : Machine.run Session.step (session id args) as = some s) :
    (s.op.toMoveArguments, s.op.id) = (args, id) :=
  Machine.run_invariant' (I := fun s => (s.op.toMoveArguments, s.op.id) = (args, id)) rfl
    (fun _ _ _ hc hs => (step_constants hs).trans hc) h

theorem run_args (h : Machine.run Session.step (session id args) as = some s) :
    s.op.toMoveArguments = args :=
  congrArg Prod.fst (run_constants h)

theorem run_id (h : Machine.run Session.step (session id args) as = some s) : s.op.id = id :=
  congrArg Prod.snd (run_constants h)

/-- Only sends are in the log at the start. -/
theorem mem_log_session (h : e ∈ (session id args).log) : ∃ mb cmd, e = .send mb cmd := by
  rcases send_of_mem_execute h with rfl | ⟨cmd, cls, rfl, -⟩ <;> exact ⟨_, _, rfl⟩

end OFM.Controller.MoveOperation
