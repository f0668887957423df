import OFM.Controller.Lemmas.Flow
import OFM.Controller.Lemmas.TransferBasic

/-!
# Networks of a transfer

Who sends what in a network of a transfer, and that every step of the network is a step of its account.
-/

namespace OFM.Controller
open OFM.Lib TransferOperation

/-- The arguments of a transfer, which no handler changes. -/
structure Transfer.SameArgs (t t' : Transfer) : Prop where
  src : t'.src = t.src
  dst : t'.dst = t.dst
  classes : t'.classes = t.classes
  holds : t'.holds = t.holds
  ordered : t'.ordered = t.ordered
  asksFirst : t'.asksFirst = t.asksFirst
  queues : t'.queues = t.queues
  throws : t'.throws = t.throws

theorem Transfer.SameArgs.refl (t : Transfer) : t.SameArgs t := ⟨rfl, rfl, rfl, rfl, rfl, rfl, rfl, rfl⟩

theorem Transfer.SameArgs.trans {t₁ t₂ t₃ : Transfer} (h₁ : t₁.SameArgs t₂)
    (h₂ : t₂.SameArgs t₃) : t₁.SameArgs t₃ :=
  ⟨h₂.src.trans h₁.src, h₂.dst.trans h₁.dst, h₂.classes.trans h₁.classes, h₂.holds.trans h₁.holds,
    h₂.ordered.trans h₁.ordered, h₂.asksFirst.trans h₁.asksFirst, h₂.queues.trans h₁.queues,
    h₂.throws.trans h₁.throws⟩

theorem Transfer.Takes.sameArgs {t t' : Transfer} {c : Content}
    {p : Multiset (Middlebox × Content)} (h : t.Takes c t' p) : t.SameArgs t' := by
  cases h <;> exact ⟨rfl, rfl, rfl, rfl, rfl, rfl, rfl, rfl⟩

theorem Transfer.Takes.counters_eq {t t' : Transfer} {c : Content}
    {p : Multiset (Middlebox × Content)} (h : t.Takes c t' p) : t'.counters = t.counters := by
  cases h <;> rfl

theorem Transfer.Takes.put_dst {t t' : Transfer} {c : Content} {p : Multiset (Middlebox × Content)}
    (h : t.Takes c t' p) : ∀ x ∈ p, x.1 = t.dst := by
  intro x hx
  cases h with
  | put => rw [Multiset.mem_singleton.mp hx]
  | submit => exact absurd hx (Multiset.notMem_zero x)
  | hold => exact absurd hx (Multiset.notMem_zero x)

theorem contentsOf_classed (h : Holder) : Flow.Classed (contentsOf h.held) := by
  intro cls c hc
  obtain ⟨msg, hm, rfl⟩ := List.mem_map.mp (Multiset.mem_coe.mp hc)
  exact h.held_cls cls msg hm

namespace Holder

variable (h : Holder) (mb : Middlebox) (cls : StateClass)

theorem answerGet_statesIn : statesIn ((h.answerGet cls).map fun msg => (mb, msg)) =
    contentsOf h.held cls := by
  simp only [answerGet, List.map_append, statesIn_append, List.map_map]
  have hstates : statesIn ((h.held cls).map fun msg => (mb, Message.state msg)) =
      contentsOf h.held cls := by
    rw [statesIn, List.filterMap_map, contentsOf, ← List.filterMap_eq_map]
    rfl
  rw [show List.map ((fun msg => (mb, msg)) ∘ Message.state) (h.held cls) =
    (h.held cls).map fun msg => (mb, Message.state msg) from rfl, hstates]
  exact add_zero _

theorem answerGet_getAcksIn :
    getAcksIn ((h.answerGet cls).map fun msg => (mb, msg)) = {cls} := by
  have hstates : getAcksIn ((h.held cls).map fun msg => (mb, Message.state msg)) = 0 := by
    rw [getAcksIn, List.filterMap_map, Multiset.coe_eq_zero, List.filterMap_eq_nil_iff]
    intro msg _
    rfl
  simp only [answerGet, List.map_append, getAcksIn_append, List.map_map]
  rw [show List.map ((fun msg => (mb, msg)) ∘ Message.state) (h.held cls) =
    (h.held cls).map fun msg => (mb, Message.state msg) from rfl, hstates]
  rfl

theorem answerGet_putAcksIn : putAcksIn ((h.answerGet cls).map fun msg => (mb, msg)) = 0 := by
  rw [putAcksIn, List.filterMap_map, Multiset.coe_eq_zero, List.filterMap_eq_nil_iff]
  intro msg hm
  rcases List.mem_append.mp hm with hm | hm
  · obtain ⟨m, -, rfl⟩ := List.mem_map.mp hm
    rfl
  · rw [List.mem_singleton.mp hm]
    rfl

theorem eventsAck_not_mem_answerGet : .eventsAck ∉ h.answerGet cls := by
  intro hm
  rcases List.mem_append.mp hm with hm | hm
  · obtain ⟨m, -, he⟩ := List.mem_map.mp hm
    cases he
  · cases List.mem_singleton.mp hm

/-- What a holder does with a command: a get, a put or a filter. -/
theorem command_cases (h : Holder) (cmd : Command) :
    (∃ cls, cmd.getClass = some cls ∧ (h.command cmd).1.held = h.held ∧
      (h.command cmd).2 = h.answerGet cls) ∨
    (∃ c, cmd.putContent = some c ∧ h.command cmd = (h, [.putAck c.cls c.hashkey])) ∨
    (cmd.isToggle = true ∧ (h.command cmd).1.held = h.held ∧ (h.command cmd).2 = [.eventsAck]) := by
  cases cmd with
  | getPerflow => exact Or.inl ⟨_, rfl, rfl, rfl⟩
  | getMultiflow => exact Or.inl ⟨_, rfl, rfl, rfl⟩
  | getAllflows => exact Or.inl ⟨_, rfl, rfl, rfl⟩
  | getConfig => exact Or.inl ⟨_, rfl, rfl, rfl⟩
  | put => exact Or.inr (Or.inl ⟨_, rfl, rfl⟩)
  | enableEvents => exact Or.inr (Or.inr ⟨rfl, rfl, rfl⟩)
  | disableEvents => exact Or.inr (Or.inr ⟨rfl, rfl, rfl⟩)

theorem stimulus_cases {h : Holder} {m : ReprocessMessage} {r : Holder × List Message}
    (hr : NetworkFunction.stimulus h m = some r) : h.raises = true ∧ r = (h, [.reprocess m]) := by
  have hr' : (if h.raises then some (h, [Message.reprocess m]) else none) = some r := hr
  split at hr'
  · exact ⟨‹_›, (Option.some.inj hr').symm⟩
  · cases hr'

end Holder

/-! ## What is asked for -/

namespace Network

theorem asking_append (classes : List StateClass) (wire cmds : List Command) (acks : Nat) :
    asking classes (wire ++ cmds) acks = asking classes wire acks + asking classes cmds 0 := by
  simp only [asking, List.countP_append, List.filterMap_append, ← Multiset.coe_add, add_nsmul]
  ac_rfl

theorem asking_succ (classes : List StateClass) (wire : List Command) (acks : Nat) :
    asking classes wire (acks + 1) = asking classes wire acks + classes := by
  simp only [asking, add_nsmul, one_nsmul]
  ac_rfl

theorem asking_cons (classes : List StateClass) (cmd : Command) (wire : List Command) (acks : Nat) :
    asking classes (cmd :: wire) acks = asking classes [cmd] 0 + asking classes wire acks := by
  have hperm : (cmd :: wire).Perm (wire ++ [cmd]) := (List.perm_append_singleton cmd wire).symm
  have hcons : asking classes (cmd :: wire) acks = asking classes (wire ++ [cmd]) acks := by
    rw [asking, asking, hperm.countP_eq, Multiset.coe_eq_coe.mpr (hperm.filterMap _)]
  rw [hcons, asking_append, add_comm]

theorem asking_eq_zero {classes : List StateClass} {cmds : List Command}
    (h : ∀ cmd ∈ cmds, cmd.getClass = none ∧ cmd.isToggle = false) : asking classes cmds 0 = 0 := by
  have htoggles : cmds.countP Command.isToggle = 0 :=
    List.countP_eq_zero.mpr fun cmd hm ht => by rw [(h cmd hm).2] at ht; cases ht
  have hgets : cmds.filterMap Command.getClass = [] :=
    List.filterMap_eq_nil_iff.mpr fun cmd hm => (h cmd hm).1
  rw [asking, htoggles, hgets]
  simp

/-- Commands that ask for each class once, and change no filter. -/
theorem asking_eq_classes {classes : List StateClass} {cmds : List Command} (hn : classes.Nodup)
    (htoggles : cmds.countP Command.isToggle = 0)
    (hgets : ∀ cls, cmds.countP (fun cmd => cmd.getClass = some cls) =
      if cls ∈ classes then 1 else 0) : asking classes cmds 0 = classes := by
  have hcount : ∀ cls, (cmds.filterMap Command.getClass).count cls =
      cmds.countP fun cmd => cmd.getClass = some cls := by
    intro cls
    rw [List.count_filterMap]
    refine List.countP_congr fun cmd _ => ?_
    simp
  rw [asking, htoggles, zero_add, zero_nsmul, zero_add, Multiset.coe_eq_coe,
    List.perm_iff_count]
  intro cls
  rw [hcount, hgets, List.Nodup.count hn]

end Network

/-! ## Who sends what -/

variable {σ : Type} [PacketUtil] [TransferOperation σ]

namespace Network

/-- Filters are changed at `src` when it is asked for events, and at `dst` by a route update. -/
def Filters (t : Transfer) (mb : Middlebox) : Prop :=
  mb = t.src ∧ t.asksFirst = true ∨ mb = t.dst ∧ t.ordered = true

/-- Where the commands and messages of a transfer come from and go. -/
structure Routed (H : StateClass → List StateMessage) (n : Network σ Holder) : Prop where
  valid : Valid n.op
  held : (n.nf (transfer n.op).src).held = H
  put_at : ∀ mb, ∀ cmd ∈ n.wire mb, cmd.putContent ≠ none → mb = (transfer n.op).dst
  get_at : ∀ mb, ∀ cmd ∈ n.wire mb, cmd.getClass ≠ none → mb = (transfer n.op).src
  toggle_at : ∀ mb, ∀ cmd ∈ n.wire mb, cmd.isToggle = true → Filters (transfer n.op) mb
  ack_from : ∀ mb, (mb, .eventsAck) ∈ n.inFlight → Filters (transfer n.op) mb
  count_eq : ∀ mb cls (count : Int), (mb, .getAck cls count) ∈ n.inFlight → count = (H cls).length
  raises : (transfer n.op).ordered = false →
    ∀ mb, mb ≠ (transfer n.op).src → (n.nf mb).raises = false
  reprocess_from : (transfer n.op).ordered = false →
    ∀ mb m, (mb, .reprocess m) ∈ n.inFlight → mb = (transfer n.op).src

variable {H : StateClass → List StateMessage} {n n' : Network σ Holder}

/-! ## Messages that are handed over -/

/-- The class a message is about is requested. -/
def InClasses (classes : List StateClass) : Message → Prop
  | .state msg => msg.cls ∈ classes
  | .getAck cls _ => cls ∈ classes
  | .putAck cls _ => cls ∈ classes
  | _ => True

/-- What handing over a message is to the account. -/
def actOf : Message → Flow.Act
  | .state msg => .take msg.content
  | .getAck cls _ => .count cls
  | .putAck cls hashkey => .ack (cls, hashkey)
  | _ => .idle

theorem sameArgs_receive {op : σ} {sched : Schedule} {source : Middlebox} {msg : Message}
    (hv : Valid op) (hcls : InClasses (transfer op).classes msg) :
    (transfer op).SameArgs (transfer (Handlers.receive sched source msg op).val) := by
  cases msg with
  | state msg => exact (receive_state sched source msg op hv (classes_handled op hv _ hcls)).sameArgs
  | getAck cls count =>
      rw [receive_getAck sched source cls count op hv hcls]
      exact ⟨rfl, rfl, rfl, rfl, rfl, rfl, rfl, rfl⟩
  | putAck cls hashkey =>
      rw [receive_putAck sched source cls hashkey op hv (classes_handled op hv _ hcls)]
      exact ⟨rfl, rfl, rfl, rfl, rfl, rfl, rfl, rfl⟩
  | eventsAck =>
      rw [receive_other sched source _ op (Or.inl rfl)]
      exact .refl _
  | reprocess m =>
      rw [receive_other sched source _ op (Or.inr ⟨m, rfl⟩)]
      exact .refl _

theorem inClasses_of_mem (hC : Flow.Conserved (contentsOf H) n.flow)
    (hH : Flow.Classed (contentsOf H)) {source : Middlebox} {msg : Message}
    (hm : (source, msg) ∈ n.inFlight) : InClasses (transfer n.op).classes msg := by
  cases msg with
  | state msg => exact hC.cls_mem hH (Multiset.mem_add.mpr (Or.inl (mem_statesIn hm)))
  | getAck cls count =>
      exact hC.mem_classes (Multiset.mem_add.mpr (Or.inl (Multiset.mem_add.mpr
        (Or.inr (mem_getAcksIn hm)))))
  | putAck cls hashkey =>
      have hkey : (cls, hashkey) ∈ Flow.ackKeys n.flow.put := by
        rw [← hC.acks]
        exact Multiset.mem_add.mpr (Or.inl (Multiset.mem_add.mpr (Or.inr (mem_putAcksIn hm))))
      obtain ⟨x, hx, he⟩ := Multiset.mem_map.mp hkey
      have hcls := (hC.put_dst x hx).2
      rw [show x.2.cls = cls from congrArg Prod.fst he] at hcls
      exact hcls
  | eventsAck => trivial
  | reprocess m => trivial

/-- Only the first ack of a filter makes an operation ask `src` for anything. -/
theorem Routed.send_src (hR : Routed H n)
    (hne : (transfer n.op).ordered = true → (transfer n.op).src ≠ (transfer n.op).dst)
    {sched : Schedule} {source : Middlebox} {msg : Message} (hm : (source, msg) ∈ n.inFlight)
    {cmd : Command} (hs : .send (transfer n.op).src cmd ∈ (Handlers.receive sched source msg n.op).out) :
    cmd.isToggle = false ∧
      (cmd.getClass ≠ none → msg = .eventsAck ∧ source = (transfer n.op).src) := by
  rcases receive_send sched source msg n.op _ cmd hs with ⟨hput, -⟩ | ⟨hget, -, hmsg⟩ |
    ⟨-, hdst, hord | ⟨⟨m, rfl⟩, hsource⟩⟩
  · obtain ⟨hget, ht⟩ := Command.of_put hput
    exact ⟨ht, fun h => absurd hget h⟩
  · exact ⟨(Command.of_get hget).2, fun _ => hmsg⟩
  · exact absurd hdst (hne hord)
  · cases hord : (transfer n.op).ordered with
    | true => exact absurd hdst (hne hord)
    | false => exact absurd (hR.reprocess_from hord source m hm) hsource

theorem Routed.asking_deliver (hR : Routed H n)
    (hne : (transfer n.op).ordered = true → (transfer n.op).src ≠ (transfer n.op).dst)
    {sched : Schedule} {source : Middlebox} {msg : Message} {before behind : List (Middlebox × Message)}
    (hin : n.inFlight = before ++ (source, msg) :: behind) :
    asking (transfer n.op).classes (n.wire (transfer n.op).src ++
        commandsTo (transfer n.op).src (Handlers.receive sched source msg n.op).out)
      ((before ++ behind).count ((transfer n.op).src, .eventsAck)) = n.flow.asking := by
  have hm : (source, msg) ∈ n.inFlight := by
    rw [hin]
    simp
  have hsend : ∀ cmd ∈ commandsTo (transfer n.op).src (Handlers.receive sched source msg n.op).out,
      cmd.isToggle = false ∧
        (cmd.getClass ≠ none → msg = .eventsAck ∧ source = (transfer n.op).src) :=
    fun cmd hc => hR.send_src hne hm (mem_commandsTo.mp hc)
  have hperm : n.inFlight.Perm ((source, msg) :: (before ++ behind)) := by
    rw [hin]
    exact List.perm_middle
  have hflow : n.flow.asking = asking (transfer n.op).classes (n.wire (transfer n.op).src)
      (((source, msg) :: (before ++ behind)).count ((transfer n.op).src, .eventsAck)) := by
    rw [← hperm.count_eq]
    rfl
  rw [hflow, asking_append]
  by_cases he : msg = .eventsAck ∧ source = (transfer n.op).src
  · -- The gets take the place of the ack.
    obtain ⟨rfl, hs⟩ := he
    subst hs
    have hasks : (transfer n.op).asksFirst = true := by
      rcases hR.ack_from _ hm with ⟨-, ha⟩ | ⟨hdst, hord⟩
      · exact ha
      · exact absurd hdst (hne hord)
    rw [List.count_cons_self, asking_succ, asking_eq_classes (classes_nodup n.op)
      (List.countP_eq_zero.mpr fun cmd hc ht => ?_)
      (receive_gets sched n.op · hR.valid hasks)]
    rw [(hsend cmd hc).1] at ht
    cases ht
  · have hother : ((source, msg) == ((transfer n.op).src, Message.eventsAck)) = false := by
      rw [beq_eq_false_iff_ne]
      intro h
      obtain ⟨h₁, h₂⟩ := Prod.mk.inj h
      exact he ⟨h₂, h₁⟩
    have hstill : ∀ cmd ∈ commandsTo (transfer n.op).src
        (Handlers.receive sched source msg n.op).out, cmd.getClass = none ∧ cmd.isToggle = false := by
      intro cmd hc
      obtain ⟨ht, hget⟩ := hsend cmd hc
      exact ⟨not_not.mp fun hg => he (hget hg), ht⟩
    rw [List.count_cons, hother, asking_eq_zero hstill]
    simp

/-- The account after a message has been handed over. -/
theorem Routed.flow_deliver (hR : Routed H n)
    (hne : (transfer n.op).ordered = true → (transfer n.op).src ≠ (transfer n.op).dst)
    {sched : Schedule} {source : Middlebox} {msg : Message}
    {before behind : List (Middlebox × Message)}
    (hin : n.inFlight = before ++ (source, msg) :: behind)
    (hcls : InClasses (transfer n.op).classes msg)
    (hput : ∀ x ∈ puts (Handlers.receive sched source msg n.op).out, x.1 = (transfer n.op).dst) :
    ((record { n with inFlight := before ++ behind }
      (Handlers.receive sched source msg n.op)).note source msg).flow =
      { transfer := transfer (Handlers.receive sched source msg n.op).val
        asking := n.flow.asking
        answered := getAcksIn (before ++ behind)
        counted := n.flow.counted + getAcksIn [(source, msg)]
        states := statesIn (before ++ behind)
        received := n.flow.received + statesIn [(source, msg)]
        put := n.flow.put + puts (Handlers.receive sched source msg n.op).out
        putting := n.flow.putting +
          Flow.ackKeys (puts (Handlers.receive sched source msg n.op).out)
        acking := putAcksIn (before ++ behind)
        acked := n.flow.acked + putAcksIn [(source, msg)] } := by
  have hargs : (transfer n.op).SameArgs (transfer (Handlers.receive sched source msg n.op).val) :=
    sameArgs_receive hR.valid hcls
  refine Flow.ext rfl ?_ rfl (getAcksIn_append _ _) rfl (statesIn_append _ _) (puts_append _ _) ?_ rfl
    (putAcksIn_append _ _)
  · show asking (transfer (Handlers.receive sched source msg n.op).val).classes
      (n.wire (transfer (Handlers.receive sched source msg n.op).val).src ++
        commandsTo (transfer (Handlers.receive sched source msg n.op).val).src
          (Handlers.receive sched source msg n.op).out)
      ((before ++ behind).count
        ((transfer (Handlers.receive sched source msg n.op).val).src, .eventsAck)) = n.flow.asking
    rw [hargs.classes, hargs.src]
    exact hR.asking_deliver hne hin
  · show (putsIn (n.wire (transfer (Handlers.receive sched source msg n.op).val).dst ++
      commandsTo (transfer (Handlers.receive sched source msg n.op).val).dst
        (Handlers.receive sched source msg n.op).out)).map Content.ackKey = _
    rw [hargs.dst, putsIn_append, Multiset.map_add, putsIn_commandsTo hput, Multiset.map_map]
    rfl

/-- Handing over a message is a step of the account. -/
theorem Routed.step_deliver (hR : Routed H n) (hC : Flow.Conserved (contentsOf H) n.flow)
    (hH : Flow.Classed (contentsOf H))
    (hne : (transfer n.op).ordered = true → (transfer n.op).src ≠ (transfer n.op).dst)
    (sched : Schedule) {source : Middlebox} {msg : Message}
    {before behind : List (Middlebox × Message)}
    (hin : n.inFlight = before ++ (source, msg) :: behind) :
    Flow.Step (contentsOf H) n.flow (actOf msg) ((record { n with inFlight := before ++ behind }
      (Handlers.receive sched source msg n.op)).note source msg).flow := by
  have hm : (source, msg) ∈ n.inFlight := by
    rw [hin]
    simp
  have hcls := inClasses_of_mem hC hH hm
  have hnothing : (∀ m, msg ≠ .state m) → (∀ cls count, msg ≠ .getAck cls count) →
      puts (Handlers.receive sched source msg n.op).out = 0 := by
    intro hs hg
    refine puts_eq_zero fun mb cmd hsend => ?_
    rcases receive_send sched source msg n.op mb cmd hsend with ⟨-, ⟨m, he⟩ | ⟨cls, count, he⟩⟩ |
      ⟨hget, -⟩ | ⟨ht, -⟩
    · exact absurd he (hs m)
    · exact absurd he (hg cls count)
    · exact (Command.of_get hget).1
    · exact (Command.of_toggle ht).1
  have hstates : n.flow.states = statesIn [(source, msg)] + statesIn (before ++ behind) := by
    show statesIn n.inFlight = _
    rw [hin, ← List.singleton_append, statesIn_append, statesIn_append, statesIn_append]
    ac_rfl
  have hanswered : n.flow.answered = getAcksIn [(source, msg)] + getAcksIn (before ++ behind) := by
    show getAcksIn n.inFlight = _
    rw [hin, ← List.singleton_append, getAcksIn_append, getAcksIn_append, getAcksIn_append]
    ac_rfl
  have hacking : n.flow.acking = putAcksIn [(source, msg)] + putAcksIn (before ++ behind) := by
    show putAcksIn n.inFlight = _
    rw [hin, ← List.singleton_append, putAcksIn_append, putAcksIn_append, putAcksIn_append]
    ac_rfl
  cases msg with
  | state msg =>
      have htake := receive_state sched source msg n.op hR.valid
        (classes_handled n.op hR.valid _ hcls)
      have hone : statesIn [(source, .state msg)] = {msg.content} := rfl
      rw [hone, Multiset.singleton_add] at hstates
      rw [hR.flow_deliver hne hin hcls htake.put_dst, hone]
      refine Eq.mp (congrArg (Flow.Step (contentsOf H) n.flow (actOf (.state msg))) ?_)
        (Flow.Step.take hstates htake)
      exact Flow.ext rfl rfl (hanswered.trans (zero_add _)) (add_zero _).symm rfl rfl rfl rfl
        (hacking.trans (zero_add _)) (add_zero _).symm
  | getAck cls count =>
      have hget := receive_getAck sched source cls count n.op hR.valid hcls
      have hputs := puts_getAck sched source cls count n.op hR.valid hcls
      have hcard : ((contentsOf H cls).card : Int) = count := by
        rw [hR.count_eq source cls count hm, contentsOf, Multiset.coe_card, List.length_map]
      have hdst : ∀ x ∈ puts (Handlers.receive sched source (.getAck cls count) n.op).out,
          x.1 = (transfer n.op).dst := by
        intro x hx
        rw [hputs] at hx
        split at hx
        · exact (Flow.mem_sum_stored (fun ref hr => hC.stored ref (List.mem_append_right _ hr)) hx).1
        · exact absurd hx (Multiset.notMem_zero x)
      have hone : getAcksIn [(source, .getAck cls count)] = {cls} := rfl
      rw [hone, Multiset.singleton_add] at hanswered
      rw [hR.flow_deliver hne hin hcls hdst, hone]
      refine Eq.mp (congrArg (Flow.Step (contentsOf H) n.flow (actOf (.getAck cls count))) ?_)
        (Flow.Step.count hanswered (hget.trans ?_) hputs)
      · exact Flow.ext rfl rfl rfl rfl (hstates.trans (zero_add _)) (add_zero _).symm rfl rfl
          (hacking.trans (zero_add _)) (add_zero _).symm
      · rw [hcard]
        rfl
  | putAck cls hashkey =>
      have hzero := hnothing (fun _ h => by cases h) (fun _ _ h => by cases h)
      have hone : putAcksIn [(source, .putAck cls hashkey)] = {(cls, hashkey)} := rfl
      rw [hone, Multiset.singleton_add] at hacking
      rw [hR.flow_deliver hne hin hcls (hzero ▸ fun x hx => absurd hx (Multiset.notMem_zero x)), hzero, hone]
      refine Eq.mp (congrArg (Flow.Step (contentsOf H) n.flow (actOf (.putAck cls hashkey))) ?_)
        (Flow.Step.ack hacking)
      have hack := receive_putAck sched source cls hashkey n.op hR.valid
        (classes_handled n.op hR.valid _ hcls)
      exact Flow.ext hack.symm rfl
        (hanswered.trans (zero_add _)) (add_zero _).symm (hstates.trans (zero_add _))
        (add_zero _).symm (add_zero _).symm (add_zero _).symm rfl rfl
  | eventsAck =>
      have hzero := hnothing (fun _ h => by cases h) (fun _ _ h => by cases h)
      rw [hR.flow_deliver hne hin hcls (hzero ▸ fun x hx => absurd hx (Multiset.notMem_zero x)), hzero]
      refine Eq.mp (congrArg (Flow.Step (contentsOf H) n.flow .idle) ?_) Flow.Step.idle
      exact Flow.ext (receive_other sched source _ n.op (Or.inl rfl)).symm rfl
        (hanswered.trans (zero_add _)) (add_zero _).symm (hstates.trans (zero_add _))
        (add_zero _).symm (add_zero _).symm (add_zero _).symm (hacking.trans (zero_add _))
        (add_zero _).symm
  | reprocess m =>
      have hzero := hnothing (fun _ h => by cases h) (fun _ _ h => by cases h)
      rw [hR.flow_deliver hne hin hcls (hzero ▸ fun x hx => absurd hx (Multiset.notMem_zero x)), hzero]
      refine Eq.mp (congrArg (Flow.Step (contentsOf H) n.flow .idle) ?_) Flow.Step.idle
      exact Flow.ext (receive_other sched source _ n.op (Or.inr ⟨m, rfl⟩)).symm rfl
        (hanswered.trans (zero_add _)) (add_zero _).symm (hstates.trans (zero_add _))
        (add_zero _).symm (add_zero _).symm (add_zero _).symm (hacking.trans (zero_add _))
        (add_zero _).symm

/-! ## Commands that are read -/

/-- Reading a command is a step of the account. -/
theorem Routed.step_read (hR : Routed H n) {mb : Middlebox} {cmd : Command} {rest : List Command}
    (hw : n.wire mb = cmd :: rest) : ∃ act : Flow.Act, act.Silent ∧
      Flow.Step (contentsOf H) n.flow act (answer { n with wire := Function.update n.wire mb rest } mb
        ((n.nf mb).command cmd)).flow := by
  have hmem : cmd ∈ n.wire mb := by
    rw [hw]
    exact List.mem_cons_self
  have hasking : ∀ acks, asking (transfer n.op).classes (n.wire (transfer n.op).src) acks =
      (if mb = (transfer n.op).src then asking (transfer n.op).classes [cmd] 0 else 0) +
        asking (transfer n.op).classes (Function.update n.wire mb rest (transfer n.op).src) acks := by
    intro acks
    by_cases hs : mb = (transfer n.op).src
    · rw [if_pos hs, ← hs, Function.update_self, hw, asking_cons]
    · rw [if_neg hs, Function.update_of_ne (Ne.symm hs), zero_add]
  have hputting : n.flow.putting = (putsIn [cmd]).map Content.ackKey +
      (putsIn (Function.update n.wire mb rest (transfer n.op).dst)).map Content.ackKey := by
    show (putsIn (n.wire (transfer n.op).dst)).map Content.ackKey = _
    by_cases hd : mb = (transfer n.op).dst
    · rw [← hd, Function.update_self, hw, ← List.singleton_append, putsIn_append, Multiset.map_add]
    · have hnone : cmd.putContent = none := by
        by_contra hput
        exact hd (hR.put_at mb cmd hmem hput)
      have hzero : putsIn [cmd] = 0 := by simp [putsIn, hnone]
      rw [Function.update_of_ne (Ne.symm hd), hzero, Multiset.map_zero, zero_add]
  rcases (n.nf mb).command_cases cmd with ⟨cls, hget, -, hmsgs⟩ | ⟨c, hput, hcommand⟩ | ⟨ht, -, hmsgs⟩
  · have hsrc : mb = (transfer n.op).src := hR.get_at mb cmd hmem (by simp [hget])
    refine ⟨.answer cls, trivial, ?_⟩
    have hone : asking (transfer n.op).classes [cmd] 0 = {cls} := by
      cases cmd <;> cases hget <;> exact zero_add _
    have hnone : cmd.putContent = none := (Command.of_get (by simp [hget])).1
    have hnoput : putsIn [cmd] = 0 := by simp [putsIn, hnone]
    have hnoack : (((n.nf mb).answerGet cls).map fun msg => (mb, msg)).count
        ((transfer n.op).src, .eventsAck) = 0 := by
      refine List.count_eq_zero.mpr fun hm => ?_
      obtain ⟨msg, hm, he⟩ := List.mem_map.mp hm
      exact Holder.eventsAck_not_mem_answerGet (n.nf mb) cls ((Prod.mk.inj he).2 ▸ hm)
    have hask : n.flow.asking = cls ::ₘ asking (transfer n.op).classes
        (Function.update n.wire mb rest (transfer n.op).src)
        (n.inFlight.count ((transfer n.op).src, .eventsAck)) := by
      rw [← Multiset.singleton_add, ← hone]
      refine (hasking _).trans ?_
      rw [if_pos hsrc]
    have hheld : (n.nf mb).held = H := by rw [hsrc]; exact hR.held
    refine Eq.mp (congrArg (Flow.Step (contentsOf H) n.flow (.answer cls)) ?_) (Flow.Step.answer hask)
    simp only [answer, hmsgs]
    refine Flow.ext rfl ?_ ?_ rfl ?_ rfl rfl ?_ ?_ rfl
    · simp only [flow, List.count_append, hnoack, add_zero]
    · simp only [flow, getAcksIn_append, Holder.answerGet_getAcksIn]
    · simp only [flow, statesIn_append, Holder.answerGet_statesIn, hheld]
    · rw [hputting, hnoput, Multiset.map_zero, zero_add]
      rfl
    · simp only [flow, putAcksIn_append, Holder.answerGet_putAcksIn, add_zero]
  · refine ⟨.read c.ackKey, trivial, ?_⟩
    have hone : putsIn [cmd] = {c} := by simp [putsIn, hput]
    have hkey : n.flow.putting = c.ackKey ::ₘ
        (putsIn (Function.update n.wire mb rest (transfer n.op).dst)).map Content.ackKey := by
      rw [hputting, hone, ← Multiset.singleton_add]
      rfl
    have hnoask : asking (transfer n.op).classes [cmd] 0 = 0 := by
      refine asking_eq_zero fun cmd' hm => ?_
      rw [List.mem_singleton.mp hm]
      exact Command.of_put (by simp [hput])
    have hnoack : [(mb, Message.putAck c.cls c.hashkey)].count
        ((transfer n.op).src, .eventsAck) = 0 := by
      refine List.count_eq_zero.mpr fun hm => ?_
      cases (Prod.mk.inj (List.mem_singleton.mp hm)).2
    refine Eq.mp (congrArg (Flow.Step (contentsOf H) n.flow (.read c.ackKey)) ?_)
      (Flow.Step.read hkey)
    simp only [answer, hcommand, List.map_singleton]
    refine Flow.ext rfl ?_ ?_ rfl ?_ rfl rfl rfl ?_ rfl
    · simp only [flow, List.count_append, hnoack, add_zero]
      rw [hasking, hnoask, ite_self, zero_add]
    · simp only [flow, getAcksIn_append]
      exact (add_zero _).symm
    · simp only [flow, statesIn_append]
      exact (add_zero _).symm
    · simp only [flow, putAcksIn_append]
      rfl
  · refine ⟨.idle, trivial, ?_⟩
    have hone : asking (transfer n.op).classes [cmd] 0 = (transfer n.op).classes := by
      cases cmd <;> first | (cases ht; done) | exact (add_zero _).trans (one_nsmul _)
    have hnoput : putsIn [cmd] = 0 := by simp [putsIn, (Command.of_toggle ht).1]
    refine Eq.mp (congrArg (Flow.Step (contentsOf H) n.flow .idle) ?_) Flow.Step.idle
    simp only [answer, hmsgs, List.map_singleton]
    refine Flow.ext rfl ?_ ?_ rfl ?_ rfl rfl ?_ ?_ rfl
    · simp only [flow, List.count_append]
      by_cases hs : mb = (transfer n.op).src
      · subst hs
        rw [List.count_singleton_self, asking_succ, hasking, if_pos rfl, hone]
        exact add_comm _ _
      · have hnoack : [(mb, Message.eventsAck)].count ((transfer n.op).src, .eventsAck) = 0 := by
          refine List.count_eq_zero.mpr fun hm => hs ?_
          exact (Prod.mk.inj (List.mem_singleton.mp hm)).1.symm
        rw [hnoack, hasking, if_neg hs, zero_add, add_zero]
    · simp only [flow, getAcksIn_append]
      exact (add_zero _).symm
    · simp only [flow, statesIn_append]
      exact (add_zero _).symm
    · rw [hputting, hnoput, Multiset.map_zero, zero_add]
      rfl
    · simp only [flow, putAcksIn_append]
      exact (add_zero _).symm

/-! ## Tasks and packets -/

/-- A record of effects that send nothing and leave the transfer alone changes nothing. -/
theorem flow_record {r : Lib.Emit Effect σ} (ht : transfer r.val = transfer n.op)
    (hs : ∀ mb cmd, .send mb cmd ∉ r.out) : (n.record r).flow = n.flow := by
  have hcmds : ∀ mb, commandsTo mb r.out = [] := fun mb =>
    List.eq_nil_iff_forall_not_mem.mpr fun cmd hm => hs mb cmd (mem_commandsTo.mp hm)
  have hputs : puts r.out = 0 := puts_eq_zero fun mb cmd hm => absurd hm (hs mb cmd)
  refine Flow.ext ht ?_ rfl rfl rfl rfl ?_ ?_ rfl rfl
  · show asking (transfer r.val).classes (n.wire (transfer r.val).src ++
      commandsTo (transfer r.val).src r.out)
      (n.inFlight.count ((transfer r.val).src, .eventsAck)) = n.flow.asking
    rw [ht, hcmds, List.append_nil]
    rfl
  · show puts (n.log ++ r.out) = n.flow.put
    rw [puts_append, hputs, add_zero]
    rfl
  · show (putsIn (n.wire (transfer r.val).dst ++
      commandsTo (transfer r.val).dst r.out)).map Content.ackKey = n.flow.putting
    rw [ht, hcmds, List.append_nil]
    rfl

/-- Running a task is a step of the account. -/
theorem step_task_flow (hC : Flow.Conserved (contentsOf H) n.flow) {i : Nat} {task : Task}
    (ht : (Handlers.base n.op).threadPool[i]? = some task) :
    ∃ act : Flow.Act, act.Silent ∧
      Flow.Step (contentsOf H) n.flow act (n.record (.emit
        (Handlers.setBase n.op { Handlers.base n.op with
          threadPool := (Handlers.base n.op).threadPool.eraseIdx i })
        ((Handlers.base n.op).call task))).flow := by
  have hpool := setPool n.op ((Handlers.base n.op).threadPool.eraseIdx i)
  cases task with
  | event event =>
      refine ⟨.idle, trivial, ?_⟩
      rw [flow_record]
      · exact .idle
      · refine hpool.trans ?_
        rw [chunkTasks_eraseIdx_event ht, ← pool_eq]
      · intro mb cmd hm
        obtain ⟨sw, packet, he⟩ := ReprocessEvent.eventOut_of_mem_sent hm
        cases he
  | chunk ref =>
      obtain ⟨pool₁, pool₂, hbefore, hafter⟩ := chunkTasks_eraseIdx_chunk ht
      rw [hafter] at hpool
      rw [← pool_eq] at hbefore
      have hputs : puts ((Handlers.base n.op).stateChunks ref).call.out =
          (transfer n.op).store ref := store_eq n.op ref
      obtain ⟨c, -, -, hstore⟩ := hC.stored ref (by
        show ref ∈ (transfer n.op).pool ++ _
        rw [hbefore]; simp)
      have hdst : ∀ x ∈ puts ((Handlers.base n.op).stateChunks ref).call.out,
          x.1 = (transfer n.op).dst := by
        intro x hx
        rw [hputs, show (transfer n.op).store ref = _ from hstore, Multiset.mem_singleton] at hx
        rw [hx]
        rfl
      have hstill : ∀ cmd ∈ commandsTo (transfer n.op).src
          ((Handlers.base n.op).stateChunks ref).call.out,
          cmd.getClass = none ∧ cmd.isToggle = false := by
        intro cmd hm
        obtain ⟨mb, putMsg, he⟩ := StateChunk.put_of_mem_call (mem_commandsTo.mp hm)
        obtain ⟨-, rfl⟩ := Effect.send.inj he
        exact ⟨rfl, rfl⟩
      refine ⟨.task ref, trivial, ?_⟩
      refine Eq.mp (congrArg (Flow.Step (contentsOf H) n.flow (.task ref)) ?_)
        (Flow.Step.task hbefore)
      have hsrc : ∀ t : Transfer, t = { transfer n.op with pool := pool₁ ++ pool₂ } →
          n.flow.asking = asking t.classes (n.wire t.src ++
            commandsTo t.src ((Handlers.base n.op).stateChunks ref).call.out)
            (n.inFlight.count (t.src, .eventsAck)) := by
        rintro t rfl
        rw [asking_append, asking_eq_zero hstill, add_zero]
        rfl
      have hputting : ∀ t : Transfer, t = { transfer n.op with pool := pool₁ ++ pool₂ } →
          n.flow.putting + Flow.ackKeys ((transfer n.op).store ref) =
            (putsIn (n.wire t.dst ++
              commandsTo t.dst ((Handlers.base n.op).stateChunks ref).call.out)).map
                Content.ackKey := by
        rintro t rfl
        rw [putsIn_append, Multiset.map_add, putsIn_commandsTo hdst, hputs, Multiset.map_map]
        rfl
      refine Flow.ext hpool.symm (hsrc _ hpool) rfl rfl rfl rfl ?_ (hputting _ hpool) rfl rfl
      show n.flow.put + (transfer n.op).store ref = puts (n.log ++ _)
      rw [puts_append, ← hputs]
      rfl

/-- Messages about neither chunks nor acks, on the way from an instance that acks no filter. -/
theorem flow_answer {mb : Middlebox} {r : Holder × List Message}
    (hr : ∀ msg ∈ r.2, ∃ m, msg = .reprocess m) : (n.answer mb r).flow = n.flow := by
  have hnone : ∀ {β : Type} (f : Message → Option β), (∀ m, f (.reprocess m) = none) →
      (r.2.map fun msg => (mb, msg)).filterMap (fun x => f x.2) = [] := by
    intro β f hf
    refine List.filterMap_eq_nil_iff.mpr fun x hx => ?_
    obtain ⟨msg, hm, rfl⟩ := List.mem_map.mp hx
    obtain ⟨m, rfl⟩ := hr msg hm
    exact hf m
  have hcount : ∀ src, (r.2.map fun msg => (mb, msg)).count (src, .eventsAck) = 0 := by
    intro src
    refine List.count_eq_zero.mpr fun hm => ?_
    obtain ⟨msg, hm, he⟩ := List.mem_map.mp hm
    obtain ⟨m, rfl⟩ := hr msg hm
    cases (Prod.mk.inj he).2
  refine Flow.ext rfl ?_ ?_ rfl ?_ rfl rfl rfl ?_ rfl
  · show asking _ _ ((n.inFlight ++ _).count _) = _
    rw [List.count_append, hcount, add_zero]
    rfl
  · show getAcksIn (n.inFlight ++ _) = _
    rw [getAcksIn_append, getAcksIn, getAcksIn, hnone Message.getAckClass fun _ => rfl]
    exact add_zero _
  · show statesIn (n.inFlight ++ _) = _
    rw [statesIn_append, statesIn, statesIn, hnone Message.stateContent fun _ => rfl]
    exact add_zero _
  · show putAcksIn (n.inFlight ++ _) = _
    rw [putAcksIn_append, putAcksIn, putAcksIn, hnone Message.putAckKey fun _ => rfl]
    exact add_zero _

/-- What an operation that has failed does not look at is nothing of its transfer. -/
theorem flow_drop (hS : Flow.Settled (contentsOf H) n.flow)
    (hcls : (transfer n.op).classes ≠ []) {source : Middlebox} {msg : Message}
    {before behind : List (Middlebox × Message)}
    (hin : n.inFlight = before ++ (source, msg) :: behind) :
    flow { n with inFlight := before ++ behind } = n.flow := by
  have hsub : (before ++ behind).Sublist n.inFlight := by
    rw [hin]
    exact (List.Sublist.refl before).append (List.sublist_cons_self _ _)
  have hle : ∀ {β : Type} (f : Middlebox × Message → Option β), n.inFlight.filterMap f = [] →
      (before ++ behind).filterMap f = [] := fun f h => by
    have hsub' := hsub.filterMap f
    rw [h] at hsub'
    exact List.sublist_nil.mp hsub'
  have hcount : n.inFlight.count ((transfer n.op).src, .eventsAck) = 0 := by
    have hcard := congrArg Multiset.card hS.asking
    simp only [flow, asking, Multiset.card_add, Multiset.card_nsmul, Multiset.coe_card,
      Multiset.card_zero, Nat.add_eq_zero_iff, Nat.mul_eq_zero,
      List.length_eq_zero_iff] at hcard
    rcases hcard.1 with h | h
    · exact h.2
    · exact absurd h hcls
  refine Flow.ext rfl ?_ ?_ rfl ?_ rfl rfl rfl ?_ rfl
  · have hzero : (before ++ behind).count ((transfer n.op).src, .eventsAck) = 0 :=
      Nat.le_zero.mp (hcount ▸ hsub.count_le _)
    show asking _ _ ((before ++ behind).count _) = asking _ _ (n.inFlight.count _)
    rw [hzero, hcount]
  · have hs := hS.answered
    exact (congrArg _ (hle _ ((Multiset.coe_eq_zero _).mp hs))).trans hs.symm
  · have hs := hS.states
    exact (congrArg _ (hle _ ((Multiset.coe_eq_zero _).mp hs))).trans hs.symm
  · have hs := hS.acking
    exact (congrArg _ (hle _ ((Multiset.coe_eq_zero _).mp hs))).trans hs.symm

/-! ## Every step -/

theorem Routed.congr (hR : Routed H n) (hop : n'.op = n.op) (hnf : n'.nf = n.nf)
    (hwire : n'.wire = n.wire) (hin : ∀ x ∈ n'.inFlight, x ∈ n.inFlight) : Routed H n' := by
  obtain ⟨hv, hheld, hput, hget, htoggle, hack, hcount, hraises, hreprocess⟩ := hR
  rw [← hop, ← hnf] at hheld
  rw [← hop, ← hwire] at hput hget htoggle
  rw [← hop] at hv hack hraises hreprocess
  rw [← hnf] at hraises
  exact ⟨hv, hheld, hput, hget, htoggle, fun mb hm => hack mb (hin _ hm),
    fun mb cls count hm => hcount mb cls count (hin _ hm), hraises,
    fun ho mb m hm => hreprocess ho mb m (hin _ hm)⟩

theorem Routed.record (hR : Routed H n) {r : Lib.Emit Effect σ}
    (hargs : (transfer n.op).SameArgs (transfer r.val)) (hv : Valid r.val)
    (hsend : ∀ mb cmd, .send mb cmd ∈ r.out →
      (cmd.putContent ≠ none → mb = (transfer n.op).dst) ∧
      (cmd.getClass ≠ none → mb = (transfer n.op).src) ∧
      (cmd.isToggle = true → Filters (transfer n.op) mb)) : Routed H (n.record r) := by
  have hfilters : ∀ mb, Filters (transfer r.val) mb ↔ Filters (transfer n.op) mb := by
    intro mb
    rw [Filters, Filters, hargs.src, hargs.dst, hargs.asksFirst, hargs.ordered]
  have hwire : ∀ mb cmd, cmd ∈ n.wire mb ++ commandsTo mb r.out →
      cmd ∈ n.wire mb ∨ .send mb cmd ∈ r.out := fun mb cmd hm =>
    (List.mem_append.mp hm).imp_right mem_commandsTo.mp
  refine ⟨hv, ?_, ?_, ?_, ?_, ?_, hR.count_eq, ?_, ?_⟩
  · show (n.nf (transfer r.val).src).held = H
    rw [hargs.src]
    exact hR.held
  · intro mb cmd hm hput
    show mb = (transfer r.val).dst
    rw [hargs.dst]
    rcases hwire mb cmd hm with hm | hm
    · exact hR.put_at mb cmd hm hput
    · exact (hsend mb cmd hm).1 hput
  · intro mb cmd hm hget
    show mb = (transfer r.val).src
    rw [hargs.src]
    rcases hwire mb cmd hm with hm | hm
    · exact hR.get_at mb cmd hm hget
    · exact (hsend mb cmd hm).2.1 hget
  · intro mb cmd hm ht
    refine (hfilters mb).mpr ?_
    rcases hwire mb cmd hm with hm | hm
    · exact hR.toggle_at mb cmd hm ht
    · exact (hsend mb cmd hm).2.2 ht
  · exact fun mb hm => (hfilters mb).mpr (hR.ack_from mb hm)
  · show (transfer r.val).ordered = false → ∀ mb, mb ≠ (transfer r.val).src → _
    rw [hargs.ordered, hargs.src]
    exact hR.raises
  · show (transfer r.val).ordered = false → ∀ mb m, _ → mb = (transfer r.val).src
    rw [hargs.ordered, hargs.src]
    exact hR.reprocess_from

theorem Routed.read (hR : Routed H n) {mb : Middlebox} {cmd : Command} {rest : List Command}
    (hw : n.wire mb = cmd :: rest) : Routed H (answer { n with
      wire := Function.update n.wire mb rest } mb ((n.nf mb).command cmd)) := by
  have hmem : cmd ∈ n.wire mb := by
    rw [hw]
    exact List.mem_cons_self
  have hwire : ∀ mb' cmd', cmd' ∈ Function.update n.wire mb rest mb' → cmd' ∈ n.wire mb' := by
    intro mb' cmd' hm
    by_cases he : mb' = mb
    · subst he
      rw [Function.update_self] at hm
      rw [hw]
      exact List.mem_cons_of_mem _ hm
    · rwa [Function.update_of_ne he] at hm
  have hin : ∀ x, x ∈ n.inFlight ++ ((n.nf mb).command cmd).2.map (fun msg => (mb, msg)) →
      x ∈ n.inFlight ∨ x.1 = mb ∧ x.2 ∈ ((n.nf mb).command cmd).2 := by
    intro x hx
    refine (List.mem_append.mp hx).imp_right fun hx => ?_
    obtain ⟨msg, hm, rfl⟩ := List.mem_map.mp hx
    exact ⟨rfl, hm⟩
  refine ⟨hR.valid, ?_, fun mb' cmd' hm => hR.put_at mb' cmd' (hwire mb' cmd' hm),
    fun mb' cmd' hm => hR.get_at mb' cmd' (hwire mb' cmd' hm),
    fun mb' cmd' hm => hR.toggle_at mb' cmd' (hwire mb' cmd' hm), ?_, ?_, ?_, ?_⟩
  · show (Function.update n.nf mb ((n.nf mb).command cmd).1 (transfer n.op).src).held = H
    by_cases hs : (transfer n.op).src = mb
    · rw [hs, Function.update_self]
      have hheld : (n.nf mb).held = H := hs ▸ hR.held
      rcases (n.nf mb).command_cases cmd with ⟨cls, -, h, -⟩ | ⟨c, -, h⟩ | ⟨-, h, -⟩
      · exact h.trans hheld
      · rw [h]
        exact hheld
      · exact h.trans hheld
    · rw [Function.update_of_ne hs]
      exact hR.held
  · intro mb' hm
    rcases hin _ hm with hm | ⟨hmb, hm⟩
    · exact hR.ack_from mb' hm
    · rcases (n.nf mb).command_cases cmd with ⟨cls, -, -, h⟩ | ⟨c, -, h⟩ | ⟨ht, -, -⟩
      · rw [h] at hm
        exact absurd hm (Holder.eventsAck_not_mem_answerGet _ _)
      · rw [h] at hm
        cases List.mem_singleton.mp hm
      · rw [show mb' = mb from hmb]
        exact hR.toggle_at mb cmd hmem ht
  · intro mb' cls count hm
    rcases hin _ hm with hm | ⟨hmb, hm⟩
    · exact hR.count_eq mb' cls count hm
    · rcases (n.nf mb).command_cases cmd with ⟨cls', hget, -, h⟩ | ⟨c, -, h⟩ | ⟨-, -, h⟩
      · rw [h] at hm
        rcases List.mem_append.mp hm with hm | hm
        · obtain ⟨_, -, he⟩ := List.mem_map.mp hm
          cases he
        · cases List.mem_singleton.mp hm
          have hs : mb = (transfer n.op).src := hR.get_at mb cmd hmem (by simp [hget])
          rw [hs, hR.held]
      · rw [h] at hm
        cases List.mem_singleton.mp hm
      · rw [h] at hm
        cases List.mem_singleton.mp hm
  · intro ho mb' hne
    show (Function.update n.nf mb ((n.nf mb).command cmd).1 mb').raises = false
    by_cases hs : mb' = mb
    · subst hs
      rw [Function.update_self]
      rcases (n.nf mb').command_cases cmd with ⟨cls', hget, -, -⟩ | ⟨c, -, h⟩ | ⟨ht, -, -⟩
      · exact absurd (hR.get_at mb' cmd hmem (by simp [hget])) hne
      · rw [h]
        exact hR.raises ho mb' hne
      · rcases hR.toggle_at mb' cmd hmem ht with ⟨he, -⟩ | ⟨-, he⟩
        · exact absurd he hne
        · rw [show (transfer n.op).ordered = false from ho] at he
          cases he
    · rw [Function.update_of_ne hs]
      exact hR.raises ho mb' hne
  · intro ho mb' m hm
    rcases hin _ hm with hm | ⟨hmb, hm⟩
    · exact hR.reprocess_from ho mb' m hm
    · rcases (n.nf mb).command_cases cmd with ⟨cls', -, -, h⟩ | ⟨c, -, h⟩ | ⟨-, -, h⟩
      · rw [h] at hm
        rcases List.mem_append.mp hm with hm | hm
        · obtain ⟨_, -, he⟩ := List.mem_map.mp hm
          cases he
        · cases List.mem_singleton.mp hm
      · rw [h] at hm
        cases List.mem_singleton.mp hm
      · rw [h] at hm
        cases List.mem_singleton.mp hm

theorem Routed.stimulus (hR : Routed H n) {mb : Middlebox} {m : ReprocessMessage}
    (hraises : (n.nf mb).raises = true) : Routed H (n.answer mb (n.nf mb, [.reprocess m])) := by
  have hin : ∀ mb' msg, (mb', msg) ∈ n.inFlight ++ [(mb, Message.reprocess m)] →
      (mb', msg) ∈ n.inFlight ∨ mb' = mb ∧ msg = .reprocess m := by
    intro mb' msg hm
    exact (List.mem_append.mp hm).imp_right fun hm => Prod.mk.inj (List.mem_singleton.mp hm)
  have hsame : Function.update n.nf mb (n.nf mb) = n.nf := Function.update_eq_self mb n.nf
  refine ⟨hR.valid, ?_, hR.put_at, hR.get_at, hR.toggle_at, ?_, ?_, ?_, ?_⟩
  · show (Function.update n.nf mb (n.nf mb) _).held = H
    rw [hsame]
    exact hR.held
  · intro mb' hm
    rcases hin _ _ hm with hm | ⟨-, he⟩
    · exact hR.ack_from mb' hm
    · cases he
  · intro mb' cls count hm
    rcases hin _ _ hm with hm | ⟨-, he⟩
    · exact hR.count_eq mb' cls count hm
    · cases he
  · show _ → ∀ mb', _ → (Function.update n.nf mb (n.nf mb) mb').raises = false
    rw [hsame]
    exact hR.raises
  · intro ho mb' m' hm
    rcases hin _ _ hm with hm | ⟨rfl, -⟩
    · exact hR.reprocess_from ho mb' m' hm
    · by_contra hne
      rw [hR.raises ho mb' hne] at hraises
      cases hraises

/-- What a handler of a message on the way sends goes where it may. -/
theorem Routed.send_receive (hR : Routed H n) {sched : Schedule} {source : Middlebox} {msg : Message}
    (hm : (source, msg) ∈ n.inFlight)
    (hput : ∀ x ∈ puts (Handlers.receive sched source msg n.op).out, x.1 = (transfer n.op).dst)
    (mb : Middlebox) (cmd : Command)
    (hs : .send mb cmd ∈ (Handlers.receive sched source msg n.op).out) :
    (cmd.putContent ≠ none → mb = (transfer n.op).dst) ∧
      (cmd.getClass ≠ none → mb = (transfer n.op).src) ∧
      (cmd.isToggle = true → Filters (transfer n.op) mb) := by
  refine ⟨fun h => ?_, fun h => ?_, fun h => ?_⟩
  · obtain ⟨c, hc⟩ := Option.ne_none_iff_exists'.mp h
    exact hput _ (mem_puts.mpr ⟨cmd, hs, hc⟩)
  · rcases receive_send sched source msg n.op mb cmd hs with ⟨hput, -⟩ | ⟨-, he, -⟩ | ⟨ht, -⟩
    · exact absurd (Command.of_put hput).1 h
    · exact he
    · exact absurd (Command.of_toggle ht).2 h
  · rcases receive_send sched source msg n.op mb cmd hs with
      ⟨hput, -⟩ | ⟨hget, -⟩ | ⟨-, hdst, hord | ⟨⟨m, rfl⟩, hsource⟩⟩
    · exact absurd (Command.of_toggle h).1 hput
    · exact absurd (Command.of_toggle h).2 hget
    · exact Or.inr ⟨hdst, hord⟩
    · cases hord : (transfer n.op).ordered with
      | true => exact Or.inr ⟨hdst, hord⟩
      | false => exact absurd (hR.reprocess_from hord source m hm) hsource

/-- What holds in every state of a network of a transfer. -/
structure Sound (H : StateClass → List StateMessage) (n : Network σ Holder) : Prop where
  routed : Routed H n
  conserved : Flow.Conserved (contentsOf H) n.flow
  failed : (Handlers.base n.op).failed = true →
    (transfer n.op).ordered = true ∧ (transfer n.op).Complete

/-- The act of the account hands over the same message, or it is silent. -/
def Mirrors (n : Network σ Holder) (a : Act ReprocessMessage) (act : Flow.Act) : Prop :=
  act.Silent ∨ ∃ sched i source msg, a = .deliver sched i ∧
    n.inFlight[i]? = some (source, msg) ∧ act = actOf msg

/-- A step of the network is a step of its account, and keeps what holds. -/
theorem Sound.step (hn : Sound H n) (hH : Flow.Classed (contentsOf H))
    (hne : (transfer n.op).ordered = true → (transfer n.op).src ≠ (transfer n.op).dst)
    {a : Act ReprocessMessage} (h : n.step a = some n') :
    Sound H n' ∧ (transfer n.op).SameArgs (transfer n'.op) ∧
      ∃ act, Mirrors n a act ∧ Flow.Step (contentsOf H) n.flow act n'.flow := by
  obtain ⟨hR, hC, hf⟩ := hn
  cases a with
  | read mb =>
      obtain ⟨cmd, rest, hw, rfl⟩ := step_read h
      obtain ⟨act, hsilent, hs⟩ := hR.step_read hw
      exact ⟨⟨hR.read hw, hC.step hH hs, hf⟩, .refl _, act, Or.inl hsilent, hs⟩
  | deliver sched i =>
      obtain ⟨source, msg, before, behind, hin, -, hi, ⟨hfail, rfl⟩ | ⟨hfail, rfl⟩⟩ := step_deliver h
      · have hflow := flow_drop (hC.settled (hf hfail).2) (classes_ne_nil n.op hR.valid) hin
        refine ⟨⟨hR.congr rfl rfl rfl (mem_inFlight_of_left hin), hflow ▸ hC, hf⟩, .refl _, .idle, Or.inl trivial, ?_⟩
        rw [hflow]
        exact .idle
      · have hm : (source, msg) ∈ n.inFlight := by
          rw [hin]
          simp
        have hcls := inClasses_of_mem hC hH hm
        have hargs : (transfer n.op).SameArgs
            (transfer (Handlers.receive sched source msg n.op).val) := sameArgs_receive hR.valid hcls
        have hs := hR.step_deliver hC hH hne sched hin
        have hC' := hC.step hH hs
        have hput : ∀ x ∈ puts (Handlers.receive sched source msg n.op).out,
            x.1 = (transfer n.op).dst := by
          intro x hx
          have hdst := (hC'.put_dst x (by
            show x ∈ puts (n.log ++ _)
            rw [puts_append]
            exact Multiset.mem_add.mpr (Or.inr hx))).1
          exact hdst.trans hargs.dst
        have hsubset : Routed H { n with inFlight := before ++ behind } :=
          hR.congr rfl rfl rfl (mem_inFlight_of_left hin)
        have hR' := hsubset.record hargs (valid_receive sched source msg n.op hR.valid)
          (hR.send_receive hm hput)
        refine ⟨⟨hR'.congr rfl rfl rfl fun _ h => h, hC', fun hf' => ?_⟩, hargs, actOf msg,
          Or.inr ⟨sched, i, source, msg, rfl, hi, rfl⟩, hs⟩
        obtain ⟨ho, hc⟩ := failed_receive sched source msg n.op hR.valid hfail hf'
        exact ⟨hargs.ordered.trans ho, hc⟩
  | stimulus mb m =>
      obtain ⟨r, hr, rfl⟩ := step_stimulus h
      obtain ⟨hraises, rfl⟩ := Holder.stimulus_cases hr
      have hflow : (n.answer mb (n.nf mb, [.reprocess m])).flow = n.flow :=
        flow_answer fun msg hm => ⟨m, List.mem_singleton.mp hm⟩
      refine ⟨⟨hR.stimulus hraises, hflow ▸ hC, hf⟩, .refl _, .idle, Or.inl trivial, ?_⟩
      rw [hflow]
      exact .idle
  | forward i =>
      obtain ⟨mb, packet, before, behind, -, rfl⟩ := step_forward h
      have hflow : (answer { n with packets := before ++ behind } mb (n.nf mb, [])).flow = n.flow :=
        flow_answer fun msg hm => absurd hm List.not_mem_nil
      refine ⟨⟨hR.congr rfl (Function.update_eq_self mb n.nf) rfl fun x hx => ?_, hflow ▸ hC, hf⟩,
        .refl _, .idle, Or.inl trivial, ?_⟩
      · exact (List.mem_append.mp hx).resolve_right List.not_mem_nil
      · rw [show NetworkFunction.packet (n.nf mb) packet = (n.nf mb, []) from rfl, hflow]
        exact .idle
  | packetIn packet inSwitch inPort =>
      cases step_packetIn h
      obtain ⟨hsend, -⟩ := packet_out packet inSwitch inPort n.op
      have ht := packet_transfer packet inSwitch inPort n.op
      have hflow := flow_record ht hsend
      refine ⟨⟨hR.record (ht.symm ▸ .refl _) (packet_valid _ _ _ _ hR.valid)
        fun mb cmd hm => absurd hm (hsend mb cmd), hflow ▸ hC, fun hf' => ?_⟩, ht.symm ▸ .refl _,
        .idle, Or.inl trivial, ?_⟩
      · have hbase := packet_base packet inSwitch inPort n.op
        show (transfer (Handlers.receivePacket packet inSwitch inPort n.op).val).ordered = true ∧
          (transfer (Handlers.receivePacket packet inSwitch inPort n.op).val).Complete
        rw [ht]
        exact hf (hbase ▸ hf')
      · rw [hflow]
        exact .idle
  | task i =>
      obtain ⟨task, ht, rfl⟩ := step_task h
      obtain ⟨act, hsilent, hs⟩ := step_task_flow hC ht
      have hC' := hC.step hH hs
      have hpool := setPool n.op ((Handlers.base n.op).threadPool.eraseIdx i)
      have hargs : (transfer n.op).SameArgs (transfer (Handlers.setBase n.op
          { Handlers.base n.op with
            threadPool := (Handlers.base n.op).threadPool.eraseIdx i })) := by
        rw [hpool]
        exact ⟨rfl, rfl, rfl, rfl, rfl, rfl, rfl, rfl⟩
      refine ⟨⟨hR.record hargs (setPool_valid _ _ hR.valid) fun mb cmd hm => ?_, hC',
        fun hf' => ?_⟩, hargs, act, Or.inl hsilent, hs⟩
      · rcases Operation.mem_call hm with ⟨mb', putMsg, he⟩ | ⟨event, sw, packet, he⟩
        · obtain ⟨rfl, rfl⟩ := Effect.send.inj he
          refine ⟨fun _ => ?_, fun hget => absurd rfl hget, fun ht => by cases ht⟩
          have hdst := (hC'.put_dst (mb, putMsg.content) (by
            show _ ∈ puts (n.log ++ _)
            rw [puts_append]
            exact Multiset.mem_add.mpr (Or.inr (mem_puts.mpr ⟨_, hm, rfl⟩)))).1
          exact hdst.trans hargs.dst
        · cases he
      · have hf' : (Handlers.base (Handlers.setBase n.op { Handlers.base n.op with
            threadPool := (Handlers.base n.op).threadPool.eraseIdx i })).failed = true := hf'
        rw [Handlers.base_setBase] at hf'
        show (transfer (Handlers.setBase n.op _)).ordered = true ∧
          (transfer (Handlers.setBase n.op _)).Complete
        rw [hpool]
        exact hf hf'

end Network

end OFM.Controller
