import OFM.Controller.ReprocessEvent
import OFM.Controller.Lemmas.MoveRun

/-!
# The route update of a move

When a move sends the traffic of its key to `dst`, over all runs of one operation: which messages and
packets arrive, and in which order, is left open.
-/

namespace OFM.Controller.MoveOperation
open OFM.Lib MoveArguments

/-- The rule that sends the traffic of the key to the port of `dst`. -/
def RuleToDst (args : MoveArguments) (e : Effect) : Prop :=
  ∃ sw, args.dst.sw = some sw ∧ e = .installRule sw args.inPort [args.dst.switchPort] args.key

variable [PacketUtil]
variable {id : Int} {args : MoveArguments} {as : List Input} {s t : Session MoveOperation}

/-! ## Before or after the transfer -/

/-- At some moment of the run the transfer is complete. -/
abbrev Moved (id : Int) (args : MoveArguments) (as : List Input) : Prop :=
  Machine.Once Session.step (fun s => s.op.TransferComplete) (session id args) as

/-- Whenever the rule is installed, the transfer has been complete. -/
def RuleAfterTransfer (id : Int) (args : MoveArguments) (as : List Input) : Prop :=
  ∀ pre suf t e, as = pre ++ suf → Machine.run Session.step (session id args) pre = some t →
    e ∈ t.log → RuleToDst args e → Moved id args pre

/-- Every packet-in from the port of the traffic at the switch of `src` that can be read as a frame
comes when the transfer has been complete, unless there is no switch to install a rule on, or the key throws
before one is installed. -/
def PacketsAfterTransfer (id : Int) (args : MoveArguments) (as : List Input) : Prop :=
  ¬ args.Routable ∨ ∀ pre packet inSwitch suf last,
    as = pre ++ .packet packet inSwitch args.inPort :: suf → args.src.sw = some inSwitch →
    PacketUtil.setFlag packet PacketUtil.flagNone = .ok last → Moved id args pre

theorem PacketsAfterTransfer.of_snoc {a : Input} (h : PacketsAfterTransfer id args (as ++ [a])) :
    PacketsAfterTransfer id args as := by
  rcases h with h | h
  · exact Or.inl h
  · exact Or.inr fun pre packet inSwitch suf last he =>
      h pre packet inSwitch (suf ++ [a]) last (by simp [he])

/-- What the rule in the log shows: a completed check, or a packet-in that meets the condition. -/
theorem moved_of_rule (hargs : args.Admitted) (hcond : PacketsAfterTransfer id args as)
    (hr : Machine.run Session.step (session id args) as = some s) {e : Effect} (he : e ∈ s.log)
    (hrule : RuleToDst args e) : Moved id args as := by
  induction as using List.reverseRecOn generalizing s with
  | nil =>
      cases hr
      obtain ⟨sw, -, rfl⟩ := hrule
      obtain ⟨mb, cmd, hs⟩ := mem_log_session he
      cases hs
  | append_singleton as a ih =>
      obtain ⟨t, ht, hs⟩ := Machine.run_snoc_eq_some.mp hr
      have hta := run_args ht
      have hsa := run_args hr
      rcases mem_log_of_step hs he with he | he
      · exact (ih hcond.of_snoc ht he).append [a]
      · obtain ⟨sw, hsw, heq⟩ := hrule
        cases he with
        | handler ha hf he =>
            cases he with
            | route hg hc hroute' hsw' =>
                have hadm : s.op.toMoveArguments.Admitted := by rw [hsa]; exact hargs
                exact Machine.once_snoc.mpr (Or.inr ⟨s, hr, (completed_iff hadm).mp hc⟩)
            | _ => cases heq
        | packetIn ha hport hsrc hflag hops hroute hsw' =>
            rw [hta] at hport hsrc hroute
            have hcond := hcond.resolve_left (not_not.mpr hroute)
            subst ha
            rw [← hport] at hcond ⊢
            exact (hcond as _ _ [] _ rfl hsrc hflag).append _
        | _ => cases heq

/-- Once a packet-in has been taken for the last one, the rule is in the log. -/
theorem rule_of_performedPhaseTwo (hr : Machine.run Session.step (session id args) as = some s)
    (hp : s.op.performedPhaseTwo = true) {sw : Nat} (hsw : args.dst.sw = some sw) :
    .installRule sw args.inPort [args.dst.switchPort] args.key ∈ s.log := by
  revert hp
  refine Machine.run_invariant' (I := fun s => s.op.toMoveArguments = args ∧
    (s.op.performedPhaseTwo = true →
      .installRule sw args.inPort [args.dst.switchPort] args.key ∈ s.log)) ?_ ?_ hr |>.2
  · exact ⟨rfl, by intro h; cases h⟩
  · rintro t a t' ⟨hta, ht⟩ hs
    refine ⟨(congrArg Prod.fst (step_constants hs)).trans hta, ?_⟩
    cases a with
    | message sched source msg =>
        rcases Session.step_message hs with ⟨-, rfl⟩ | ⟨-, rfl⟩
        · exact ht
        · intro hp
          exact List.mem_append_left _ (ht ((receive_performedPhaseTwo sched source msg t.op).symm.trans hp))
    | packet packet inSwitch inPort =>
        cases Session.step_packet hs
        intro hp
        rcases receivePacket_cases t.op packet inSwitch inPort with
          ⟨-, hr⟩ | ⟨-, -, ⟨_, -, hr⟩ | ⟨_, -, ⟨rules, hrules, hr⟩ | ⟨_, -, -, hr⟩⟩⟩
        · exact List.mem_append_left _ (ht ((congrArg (fun r => r.val.performedPhaseTwo) hr).symm.trans hp))
        · exact List.mem_append_left _ (ht ((congrArg (fun r => r.val.performedPhaseTwo) hr).symm.trans hp))
        · by_cases hq : t.op.performedPhaseTwo = true
          · exact List.mem_append_left _ (ht hq)
          · refine List.mem_append_right _ ?_
            rw [show Handlers.receivePacket packet inSwitch inPort t.op = _ from hr]
            rw [if_neg hq, hta] at hrules
            rcases args.updateForwardingToDst_cases with ⟨hnone, -⟩ | ⟨sw', hsw', -, hok⟩ | ⟨-, e, herror⟩
            · rw [hsw] at hnone; cases hnone
            · obtain rfl := Option.some.inj (hsw.symm.trans hsw')
              obtain rfl := Except.ok.inj (hok.symm.trans hrules)
              exact List.mem_singleton.mpr rfl
            · cases herror.symm.trans hrules
        · exact List.mem_append_left _ (ht ((congrArg (fun r => r.val.performedPhaseTwo) hr).symm.trans hp))
    | task i =>
        obtain ⟨task, -, rfl⟩ := Session.step_task hs
        intro hp
        exact List.mem_append_left _ (ht hp)

omit [PacketUtil] in
/-- The rule of phase 1: to the controller and to the port of `src`. -/
def RulePhaseOne (args : MoveArguments) (e : Effect) : Prop :=
  ∃ sw, args.dst.sw = some sw ∧
    e = .installRule sw args.inPort [ofppController, args.src.switchPort] args.key

/-- What the two-phase update asks of a run. An ack that does not come from `src` is one of `dst`; the
first of them is the one of the filter that buffers. -/
structure TwoPhase (id : Int) (args : MoveArguments) (as : List Input) : Prop where
  /-- The ack of the filter is handled without an exception, and the rule of phase 1 installed. -/
  phaseOne : ∀ pre sched source suf t t', as = pre ++ .message sched source .eventsAck :: suf →
    Machine.run Session.step (session id args) pre = some t → t.op.failed = false →
    source ≠ args.src → t.op.bufferingEnabled = false →
    t.step (.message sched source .eventsAck) = some t' →
    ∃ new, t'.log = t.log ++ new ∧ (∀ x, .thrown x ∉ new) ∧ ∃ e ∈ new, RulePhaseOne args e
  /-- The rule of phase 2 comes after the rule of phase 1. -/
  phaseTwo : ∀ pre suf t log₁ e log₂, as = pre ++ suf →
    Machine.run Session.step (session id args) pre = some t → t.log = log₁ ++ e :: log₂ →
    RuleToDst args e → ∃ e₁ ∈ log₁, RulePhaseOne args e₁
  /-- Events are disabled once `dst` has reported a packet that was recorded after phase 1. -/
  disabled : ∀ pre suf t, as = pre ++ suf →
    Machine.run Session.step (session id args) pre = some t →
    .send args.dst (.disableEvents id args.key) ∈ t.log →
    ∃ pre₁ packet inSwitch mid sched source msg suf₁ t₁ last,
      pre = pre₁ ++ .packet packet inSwitch args.inPort ::
        (mid ++ .message sched source (.reprocess msg) :: suf₁) ∧
      Machine.run Session.step (session id args) pre₁ = some t₁ ∧
      (∃ e ∈ t₁.log, RulePhaseOne args e) ∧ args.src.sw = some inSwitch ∧ source ≠ args.src ∧
      PacketUtil.setFlag packet PacketUtil.flagNone = .ok (some last) ∧
      PacketUtil.setFlag (ReprocessEvent.base64Decode msg.packet) PacketUtil.flagNone =
        .ok (some last)
  /-- The operation finishes at most once, -/
  finishedOnce : ∀ pre suf t, as = pre ++ suf →
    Machine.run Session.step (session id args) pre = some t → t.log.count .operationFinished ≤ 1
  /-- on the ack of the request to disable events, -/
  finishedOnAck : ∀ pre a suf t t', as = pre ++ a :: suf →
    Machine.run Session.step (session id args) pre = some t → t.step a = some t' →
    .operationFinished ∉ t.log → .operationFinished ∈ t'.log →
    .send args.dst (.disableEvents id args.key) ∈ t.log ∧
      ∃ sched source, source ≠ args.src ∧ a = .message sched source .eventsAck
  /-- and not without finishing on it. -/
  ackFinishes : ∀ pre sched source suf t t', as = pre ++ .message sched source .eventsAck :: suf →
    Machine.run Session.step (session id args) pre = some t → t.op.failed = false →
    source ≠ args.src → .send args.dst (.disableEvents id args.key) ∈ t.log →
    t.step (.message sched source .eventsAck) = some t' → .operationFinished ∈ t'.log

/-- The run never gets to the route update: no instance but `src` acks a filter, no packet-in of the
traffic has a rule installed or none can be, and no instance but `src` reports the packet recorded last. -/
structure NoRouteUpdate (id : Int) (args : MoveArguments) (as : List Input) : Prop where
  noAck : ∀ pre sched source suf t, as = pre ++ .message sched source .eventsAck :: suf →
    Machine.run Session.step (session id args) pre = some t → t.op.failed = false →
    source = args.src
  noPacket : ¬ args.Routable ∨ ∀ packet inSwitch last, .packet packet inSwitch args.inPort ∈ as →
    args.src.sw = some inSwitch → PacketUtil.setFlag packet PacketUtil.flagNone ≠ .ok last
  noReport : ∀ pre sched source msg suf t last,
    as = pre ++ .message sched source (.reprocess msg) :: suf →
    Machine.run Session.step (session id args) pre = some t → t.op.failed = false →
    source ≠ args.src → t.op.lastPacket = some last →
    PacketUtil.setFlag (ReprocessEvent.base64Decode msg.packet) PacketUtil.flagNone ≠ .ok (some last)

/-- The rule of phase 1 is in no log: the array it is to be built from is too short. -/
theorem not_rulePhaseOne (hr : Machine.run Session.step (session id args) as = some s) {e : Effect}
    (he : e ∈ s.log) : ¬ RulePhaseOne args e := by
  refine Machine.run_invariant' (I := fun s => s.op.toMoveArguments = args ∧
    ∀ e ∈ s.log, ¬ RulePhaseOne args e) ?_ ?_ hr |>.2 e he
  · refine ⟨rfl, ?_⟩
    rintro e he ⟨sw, -, heq⟩
    obtain ⟨mb, cmd, hs⟩ := mem_log_session he
    cases heq.symm.trans hs
  · rintro t a t' ⟨hta, ht⟩ hs
    refine ⟨(congrArg Prod.fst (step_constants hs)).trans hta, ?_⟩
    intro e he
    rcases mem_log_of_step hs he with he | he
    · exact ht e he
    · rintro ⟨sw, -, heq⟩
      cases he with
      | handler ha hf he =>
          cases he with
          | route hg hc hsw => simp at heq
          | _ => cases heq
      | packetIn => simp at heq
      | _ => cases heq

/-- The first ack of another instance than `src` ends in an exception. -/
theorem ack_throws {sched : Schedule} {source : Middlebox} {s' : Session MoveOperation}
    (hs : s.step (.message sched source .eventsAck) = some s') (hf : s.op.failed = false)
    (hsrc : source ≠ s.op.src) (hb : s.op.bufferingEnabled = false) :
    s'.log = s.log ++ [.thrown .arrayIndexOutOfBounds] := by
  rcases Session.step_message hs with ⟨hf', -⟩ | ⟨-, rfl⟩
  · exact absurd (hf.symm.trans hf') (by decide)
  · rcases s.op.receiveEventsAck_cases source with ⟨h, -⟩ | ⟨-, -, hr⟩ | ⟨-, h, -⟩
    · exact absurd h hsrc
    · exact congrArg (fun r => s.log ++ r.out) hr
    · exact absurd (hb.symm.trans h) (by decide)

/-- No ack can be the first one of `dst`, so that the flag is never set. -/
theorem TwoPhase.not_buffering (h : TwoPhase id args as) {pre suf : List Input}
    (he : as = pre ++ suf) (hr : Machine.run Session.step (session id args) pre = some t) :
    t.op.bufferingEnabled = false := by
  induction pre using List.reverseRecOn generalizing suf t with
  | nil => cases hr; rfl
  | append_singleton pre a ih =>
      obtain ⟨u, hu, hs⟩ := Machine.run_snoc_eq_some.mp hr
      have he' : as = pre ++ a :: suf := by simp [he]
      have hb := ih he' hu
      rcases step_bufferingEnabled hs hb with hb' | ⟨sched, source, rfl, hf, hsrc⟩
      · exact hb'
      · have hsrc' : source ≠ args.src := by rw [← run_args hu]; exact hsrc
        obtain ⟨new, hlog, hthrown, -⟩ := h.phaseOne pre sched source suf u t he' hu hf hsrc' hb hs
        have hnew := List.append_cancel_left (hlog.symm.trans (ack_throws hs hf hsrc hb))
        exact absurd (by rw [hnew]; exact List.mem_singleton.mpr rfl) (hthrown _)

theorem TwoPhase.noRouteUpdate (h : TwoPhase id args as) (hg : args.guarantee = .orderPreserving)
    (hr : Machine.run Session.step (session id args) as = some s) : NoRouteUpdate id args as where
  noAck := by
    intro pre sched source suf t he ht hf
    by_contra hsrc
    have hb := h.not_buffering he ht
    have hsrc' : source ≠ t.op.src := by rw [run_args ht]; exact hsrc
    rw [he, List.append_cons] at hr
    obtain ⟨u, hu, -⟩ := Machine.run_append_eq_some.mp hr
    obtain ⟨t', ht', hs⟩ := Machine.run_snoc_eq_some.mp hu
    cases ht.symm.trans ht'
    obtain ⟨new, hlog, hthrown, -⟩ := h.phaseOne pre sched source suf t u he ht hf hsrc hb hs
    have hnew := List.append_cancel_left (hlog.symm.trans (ack_throws hs hf hsrc' hb))
    exact absurd (by rw [hnew]; exact List.mem_singleton.mpr rfl) (hthrown _)
  noPacket := by
    by_cases hroute : args.Routable
    · obtain ⟨sw, hsw, -⟩ := hroute.rules
      refine Or.inr fun packet inSwitch last hm hsrc hflag => ?_
      obtain ⟨pre, suf, rfl⟩ := List.append_of_mem hm
      rw [List.append_cons] at hr
      obtain ⟨u, hu, -⟩ := Machine.run_append_eq_some.mp hr
      obtain ⟨t, ht, hs⟩ := Machine.run_snoc_eq_some.mp hu
      have hta := run_args ht
      have hp := (step_packet_flagged hs (by rw [hta]) (by rw [hta]; exact hsrc) hflag).1
        (by rw [hta]; exact hroute)
      obtain ⟨log₁, log₂, hlog⟩ := List.append_of_mem (rule_of_performedPhaseTwo hu hp hsw)
      obtain ⟨e₁, he₁, hone⟩ :=
        h.phaseTwo _ suf u log₁ _ log₂ (by simp) hu hlog ⟨sw, hsw, rfl⟩
      exact not_rulePhaseOne hu (by rw [hlog]; exact List.mem_append_left _ he₁) hone
    · exact Or.inl hroute
  noReport := by
    intro pre sched source msg suf t last he ht hf hsrc hlast hflag
    rw [he, List.append_cons] at hr
    obtain ⟨u, hu, -⟩ := Machine.run_append_eq_some.mp hr
    obtain ⟨t', ht', hs⟩ := Machine.run_snoc_eq_some.mp hu
    cases ht.symm.trans ht'
    have hdis : .send args.dst (.disableEvents id args.key) ∈ u.log := by
      have hta := run_args ht
      have hmem := step_report hs hf (by rw [hta, hg]; decide) (by rw [hta]; exact hsrc) hlast hflag
      rwa [hta, run_id ht] at hmem
    obtain ⟨pre₁, _, _, _, _, _, _, _, t₁, _, -, ht₁, ⟨e, he₁, hone⟩, -⟩ :=
      h.disabled (pre ++ [.message sched source (.reprocess msg)]) suf u (by simp [he]) hu hdis
    exact not_rulePhaseOne ht₁ he₁ hone

/-- Without a route update the log holds none of its steps. -/
theorem NoRouteUpdate.not_mem_log (h : NoRouteUpdate id args as)
    (hg : args.guarantee = .orderPreserving) {pre suf : List Input} (he : as = pre ++ suf)
    (hr : Machine.run Session.step (session id args) pre = some t) {e : Effect} (hm : e ∈ t.log) :
    ¬ RuleToDst args e ∧ e ≠ .send args.dst (.disableEvents id args.key) ∧
      e ≠ .operationFinished := by
  induction pre using List.reverseRecOn generalizing suf t with
  | nil =>
      cases hr
      refine ⟨?_, ?_, ?_⟩
      · rintro ⟨sw, -, heq⟩
        obtain ⟨mb, cmd, hs⟩ := mem_log_session hm
        cases heq.symm.trans hs
      · rintro rfl
        rcases send_of_mem_execute hm with hs | ⟨cmd, cls, hs, hget⟩
        · simp at hs
        · obtain ⟨-, rfl⟩ := Effect.send.inj hs
          cases hget
      · rintro rfl
        obtain ⟨mb, cmd, hs⟩ := mem_log_session hm
        cases hs
  | append_singleton pre a ih =>
      obtain ⟨u, hu, hs⟩ := Machine.run_snoc_eq_some.mp hr
      have he' : as = pre ++ a :: suf := by simp [he]
      have hua := run_args hu
      rcases mem_log_of_step hs hm with hm | hm
      · exact ih he' hu hm
      · cases hm with
        | handler ha hf hemit =>
            subst ha
            cases hemit with
            | route hg' _ _ _ => exact absurd (by rw [hua]; exact hg) hg'
            | disable hmsg hsrc hl hp =>
                subst hmsg
                rw [hua] at hsrc
                exact absurd hp (h.noReport _ _ _ _ _ _ _ he' hu hf hsrc hl)
            | finishRouted _ _ hg' _ _ => exact absurd (by rw [hua]; exact hg) hg'
            | finishAcked hmsg hsrc hb =>
                subst hmsg
                rw [hua] at hsrc
                exact absurd (h.noAck _ _ _ _ _ he' hu hf) hsrc
            | get _ _ hget =>
                refine ⟨fun ⟨_, _, heq⟩ => (by cases heq), fun heq => ?_, fun heq => (by cases heq)⟩
                obtain ⟨-, rfl⟩ := Effect.send.inj heq
                cases hget
            | _ => refine ⟨fun ⟨_, _, heq⟩ => ?_, fun heq => ?_, fun heq => ?_⟩ <;> simp at heq
        | packetIn ha hport hsrc hflag hops hroute hsw =>
            rw [hua] at hport hsrc hroute
            subst ha
            refine absurd hflag (h.noPacket.resolve_left (not_not.mpr hroute) _ _ _ ?_ hsrc)
            rw [he', hport]
            exact List.mem_append_right _ List.mem_cons_self
        | _ => refine ⟨fun ⟨_, _, heq⟩ => ?_, fun heq => ?_, fun heq => ?_⟩ <;> simp at heq

theorem NoRouteUpdate.twoPhase (h : NoRouteUpdate id args as)
    (hg : args.guarantee = .orderPreserving) : TwoPhase id args as where
  phaseOne pre sched source suf t t' he ht hf hsrc _ _ :=
    absurd (h.noAck pre sched source suf t he ht hf) hsrc
  phaseTwo pre suf t log₁ e log₂ he ht hlog hrule :=
    absurd hrule (h.not_mem_log hg he ht (by rw [hlog]; simp)).1
  disabled pre suf t he ht hm := absurd rfl (h.not_mem_log hg he ht hm).2.1
  finishedOnce pre suf t he ht := by
    rw [List.count_eq_zero.mpr fun hm => (h.not_mem_log hg he ht hm).2.2 rfl]
    exact Nat.zero_le 1
  finishedOnAck pre a suf t t' he ht hs _ hm := by
    have hr : Machine.run Session.step (session id args) (pre ++ [a]) = some t' :=
      Machine.run_snoc_eq_some.mpr ⟨t, ht, hs⟩
    have he' : as = (pre ++ [a]) ++ suf := by simp [he]
    exact absurd rfl (h.not_mem_log hg he' hr hm).2.2
  ackFinishes pre sched source suf t t' he ht hf hsrc _ _ :=
    absurd (h.noAck pre sched source suf t he ht hf) hsrc

end OFM.Controller.MoveOperation
