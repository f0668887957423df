import OFM.Controller.Lemmas.Rounds

/-!
# The network of a share

What the steps of the network do to the exchange, and that commands, messages and packets stay between the
share and its instances.
-/

namespace OFM.Controller
open OFM.Lib

/-! ## Effects of a share -/

theorem call_puts {chunk : StateChunk} {e : Effect} (h : e ∈ chunk.call.out) :
    ∃ msg dsts putMsg dst, chunk.msg = some msg ∧ chunk.dsts = some dsts ∧ dst ∈ dsts ∧
      putMsg.content = msg.content ∧ e = .send dst (.put putMsg) := by
  rw [StateChunk.call] at h
  split at h
  · rename_i msg dsts hmsg hdsts
    split at h
    · rename_i putMsg hput
      obtain ⟨dst, hdst, rfl⟩ := List.mem_map.mp h
      exact ⟨msg, dsts, putMsg, dst, hmsg, hdsts, hdst, StateMessage.toPut_content hput, rfl⟩
    · cases h
  · cases h

theorem mem_packetsOut {out : List Effect} {z : Middlebox × Packet} (h : z ∈ packetsOut out) :
    ∃ sw, .packetOut z.1 sw z.2 ∈ out := by
  obtain ⟨e, he, hz⟩ := List.mem_filterMap.mp h
  cases e with
  | packetOut src sw packet =>
      cases hz
      exact ⟨sw, he⟩
  | _ => cases hz

/-! ## Commands and answers of a scope -/

theorem Command.about_toggle {cmd : Command} (h : cmd.isToggle = true) {classes : List StateClass} :
    cmd.About classes := by
  obtain ⟨hput, hget⟩ := Command.of_toggle h
  refine ⟨fun cls hcls => ?_, fun c hc => ?_⟩
  · rw [hget] at hcls
    cases hcls
  · rw [hput] at hc
    cases hc

theorem Answers.about {classOf : Int → StateClass} {classes : List StateClass} {cmd : Command}
    {msgs : List Message} (h : Answers classOf cmd msgs) (hcmd : cmd.About classes) :
    ∀ msg ∈ msgs, msg.About classOf classes ∧ msg.isReport = false := by
  intro msg hmsg
  cases h with
  | get hget hcls hnodup =>
      rcases List.mem_append.mp hmsg with hmsg | hmsg
      · obtain ⟨m, hm, rfl⟩ := List.mem_map.mp hmsg
        obtain ⟨hm, hclass⟩ := hcls m hm
        exact ⟨⟨hm ▸ hcmd.get _ hget, hclass.trans hm.symm⟩, rfl⟩
      · rw [List.mem_singleton.mp hmsg]
        exact ⟨hcmd.get _ hget, rfl⟩
  | put hput =>
      rw [List.mem_singleton.mp hmsg]
      exact ⟨hcmd.put _ hput, rfl⟩
  | toggle _ =>
      rw [List.mem_singleton.mp hmsg]
      exact ⟨trivial, rfl⟩

/-! ## Exchanges of networks -/

@[simp] theorem reportless_append (msgs msgs' : List (Middlebox × Message)) :
    reportless (msgs ++ msgs') = reportless msgs ++ reportless msgs' := List.filter_append ..

theorem reportless_singleton (source : Middlebox) (msg : Message) :
    reportless [(source, msg)] = if msg.isReport then [] else [(source, msg)] := by
  cases h : msg.isReport <;> simp [reportless, h]

namespace Exchange

/-- Takes over what a handler leaves behind. -/
def withOp (x : Exchange) (op : ShareOperation) : Exchange :=
  { x with
    base := op.toOperation
    instances := op.instances
    classes := op.scope.classes
    source := op.currentSource
    counters := op.counters }

theorem emit_eq_self (x : Exchange) {out : List Effect} (h : ∀ mb, commandsTo mb out = []) :
    x.emit out = x := by
  unfold emit
  simp only [h, List.append_nil]

end Exchange

namespace Network

section

variable {ν : Type} {n : Network ShareOperation ν} {before behind : List (Middlebox × Message)}
  {source : Middlebox} {msg : Message}

theorem exchange_record (n : Network ShareOperation ν) (r : Emit Effect ShareOperation) :
    (n.record r).exchange = (n.exchange.withOp r.val).emit r.out := by
  simp only [exchange, record, Session.record, commandsTo_append]
  rfl

theorem exchange_read {mb : Middlebox} {rest : List Command} (r : ν × List Message)
    (h : ∀ msg ∈ r.2, msg.isReport = false) :
    (answer { n with wire := Function.update n.wire mb rest } mb r).exchange = n.exchange.read mb rest r.2 := by
  have hanswers : reportless (r.2.map fun msg => (mb, msg)) = r.2.map fun msg => (mb, msg) := by
    rw [reportless, List.filter_eq_self]
    intro z hz
    obtain ⟨msg, hmsg, rfl⟩ := List.mem_map.mp hz
    simp [h msg hmsg]
  simp only [exchange, answer, reportless_append, hanswers]
  rfl

/-- Events are not part of the exchange. -/
theorem exchange_answer {mb : Middlebox} {r : ν × List Message} (h : ∀ msg ∈ r.2, msg.isReport = true) :
    (n.answer mb r).exchange = n.exchange := by
  have hanswers : reportless (r.2.map fun msg => (mb, msg)) = [] := by
    rw [reportless, List.filter_eq_nil_iff]
    intro z hz
    obtain ⟨msg, hmsg, rfl⟩ := List.mem_map.mp hz
    simp [h msg hmsg]
  simp only [exchange, answer, reportless_append, hanswers, List.append_nil]

theorem talk_of_inFlight (hi : n.inFlight = before ++ (source, msg) :: behind) (hmsg : msg.isReport = false) :
    n.exchange.talk = reportless before ++ (source, msg) :: reportless behind := by
  have hsplit : before ++ (source, msg) :: behind = before ++ ([(source, msg)] ++ behind) := rfl
  simp only [exchange, hi, hsplit, reportless_append, reportless_singleton, hmsg]
  rfl

theorem exchange_deliver (r : Emit Effect ShareOperation) (hmsg : msg.isReport = false) :
    ((record { n with inFlight := before ++ behind } r).note source msg).exchange =
      ((n.exchange.hear source msg (reportless before ++ reportless behind)).withOp r.val).emit r.out := by
  simp only [exchange, note, record, Session.record, Session.note, commandsTo_append, reportless_append,
    reportless_singleton, hmsg]
  rfl

theorem exchange_report (hi : n.inFlight = before ++ (source, msg) :: behind) (hmsg : msg.isReport = true)
    (r : Emit Effect ShareOperation) :
    ((record { n with inFlight := before ++ behind } r).note source msg).exchange =
      (n.exchange.withOp r.val).emit r.out := by
  have hsplit : before ++ (source, msg) :: behind = before ++ ([(source, msg)] ++ behind) := rfl
  simp only [exchange, note, record, Session.record, Session.note, commandsTo_append, reportless_append,
    reportless_singleton, hmsg, hi, hsplit, ↓reduceIte, List.append_nil, List.nil_append]
  rfl

end

/-! ## Between the share and its instances -/

variable {ν ι : Type} [Sharer ν ι] {n n' : Network ShareOperation ν} {a : Act ι}

/-- Commands, messages and packets go between the share and its instances, and are about its scope. -/
structure Confined (n : Network ShareOperation ν) : Prop where
  op : n.op.Sound (Sharer.classOf ν)
  nodup : n.op.instances.Nodup
  wire : ∀ mb, ∀ cmd ∈ n.wire mb, mb ∈ n.op.instances ∧ cmd.About n.op.scope.classes
  inFlight : ∀ z ∈ n.inFlight, z.1 ∈ n.op.instances ∧ z.2.About (Sharer.classOf ν) n.op.scope.classes
  packets : ∀ z ∈ n.packets, z.1 ∈ n.op.instances

theorem Confined.exchange (h : n.Confined) : n.exchange.Sound (Sharer.classOf ν) where
  nodup := h.nodup
  classes_nodup := n.op.scope.classes_nodup
  classes_ne := by
    show n.op.scope.classes ≠ []
    cases n.op.scope <;> simp [Scope.classes]
  classes_config := n.op.scope.config_notMem
  wire := h.wire
  talk z hz := h.inFlight z (List.mem_of_mem_filter hz)
  reportless z hz := by simpa using (List.mem_filter.mp hz).2
  pool := h.op.pool
  chunk := h.op.chunk
  dsts := h.op.dsts
  fresh := h.op.fresh

theorem Confined.record (h : n.Confined) {r : Emit Effect ShareOperation}
    (hr : n.op.Keeps (Sharer.classOf ν) r) : (n.record r).Confined := by
  have hinst : r.val.instances = n.op.instances := congrArg (fun args => args.2.2.1) hr.args
  have hscope : r.val.scope = n.op.scope := congrArg (fun args => args.2.2.2) hr.args
  constructor
  · exact hr.sound
  · show r.val.instances.Nodup
    rw [hinst]
    exact h.nodup
  · intro mb cmd hcmd
    show mb ∈ r.val.instances ∧ cmd.About r.val.scope.classes
    rw [hinst, hscope]
    rcases List.mem_append.mp hcmd with hcmd | hcmd
    · exact h.wire mb cmd hcmd
    · exact hr.within _ (mem_commandsTo.mp hcmd)
  · show ∀ z ∈ n.inFlight, z.1 ∈ r.val.instances ∧ z.2.About _ r.val.scope.classes
    rw [hinst, hscope]
    exact h.inFlight
  · intro z hz
    show z.1 ∈ r.val.instances
    rw [hinst]
    rcases List.mem_append.mp hz with hz | hz
    · exact h.packets z hz
    · obtain ⟨sw, hsw⟩ := mem_packetsOut hz
      exact hr.within _ hsw

section

variable {before behind : List (Middlebox × Message)} {source : Middlebox} {msg : Message}

theorem Confined.remove (h : n.Confined) (hi : n.inFlight = before ++ (source, msg) :: behind) :
    ({ n with inFlight := before ++ behind } : Network ShareOperation ν).Confined := by
  refine { h with inFlight := fun z hz => h.inFlight z ?_ }
  rw [hi]
  rcases List.mem_append.mp hz with hz | hz
  · exact List.mem_append_left _ hz
  · exact List.mem_append_right _ (List.mem_cons_of_mem _ hz)

theorem Confined.deliver (h : n.Confined) (hi : n.inFlight = before ++ (source, msg) :: behind)
    {r : Emit Effect ShareOperation} (hr : n.op.Keeps (Sharer.classOf ν) r) :
    ((Network.record { n with inFlight := before ++ behind } r).note source msg).Confined :=
  { (h.remove hi).record hr with }

end

theorem Confined.answer (h : n.Confined) {mb : Middlebox} (hmb : mb ∈ n.op.instances) {r : ν × List Message}
    (hr : ∀ msg ∈ r.2, msg.About (Sharer.classOf ν) n.op.scope.classes) : (n.answer mb r).Confined where
  op := h.op
  nodup := h.nodup
  wire := h.wire
  packets := h.packets
  inFlight z hz := by
    rcases List.mem_append.mp hz with hz | hz
    · exact h.inFlight z hz
    · obtain ⟨msg, hmsg, rfl⟩ := List.mem_map.mp hz
      exact ⟨hmb, hr msg hmsg⟩

theorem Confined.reprocess (h : n.Confined) {mb : Middlebox} (hmb : mb ∈ n.op.instances) {r : ν × List Message}
    (hr : ∀ msg ∈ r.2, ∃ m, msg = .reprocess m) : (n.answer mb r).Confined := by
  refine h.answer hmb fun msg hmsg => ?_
  obtain ⟨m, rfl⟩ := hr msg hmsg
  trivial

section

variable [PacketUtil]

/-- A task puts a chunk to instances. -/
theorem Confined.keeps_task (h : n.Confined) {i : Nat} {task : Task}
    (hi : n.op.threadPool[i]? = some task) :
    n.op.Keeps (Sharer.classOf ν) (.emit
      { n.op with toOperation := { n.op.toOperation with threadPool := n.op.threadPool.eraseIdx i } }
      (n.op.call task)) := by
  refine ⟨rfl, { h.op with pool := fun t ht => h.op.pool t (List.mem_of_mem_eraseIdx ht) }, fun e he => ?_⟩
  obtain ⟨ref, rfl⟩ := h.op.pool task (List.mem_of_getElem? hi)
  obtain ⟨msg, dsts, putMsg, dst, hmsg, hdsts, hdst, hcontent, rfl⟩ := call_puts he
  obtain ⟨src, -, rfl⟩ := h.op.dsts ref dsts hdsts
  refine ⟨List.mem_of_mem_erase hdst, nofun, fun c hc => ?_⟩
  obtain rfl : putMsg.content = c := Option.some.inj hc
  rw [hcontent]
  exact (h.op.chunk ref msg hmsg).2.1

variable [Charset]

theorem Confined.step (h : n.Confined) (hat : n.AtInstances a) (hs : n.step a = some n') :
    n'.Confined ∧ n'.op.args = n.op.args := by
  cases a with
  | read mb =>
      obtain ⟨cmd, rest, hw, rfl⟩ := step_read hs
      obtain ⟨hmb, hcmd⟩ := h.wire mb cmd (hw ▸ List.mem_cons_self ..)
      have hrest : ({ n with wire := Function.update n.wire mb rest } : Network ShareOperation ν).Confined := by
        refine { h with wire := fun j cmd' hcmd' => ?_ }
        have hcmd' : cmd' ∈ Function.update n.wire mb rest j := hcmd'
        by_cases hj : j = mb
        · rw [hj, Function.update_self] at hcmd'
          exact hj ▸ h.wire mb cmd' (hw ▸ List.mem_cons_of_mem cmd hcmd')
        · rw [Function.update_of_ne hj] at hcmd'
          exact h.wire j cmd' hcmd'
      exact ⟨hrest.answer hmb fun msg hmsg => ((Sharer.answers _ cmd).about hcmd msg hmsg).1, rfl⟩
  | deliver sched i =>
      obtain ⟨source, msg, before, behind, hi, -, -, hcase⟩ := step_deliver hs
      have hmsg := h.inFlight (source, msg) (hi ▸ by simp)
      rcases hcase with ⟨-, rfl⟩ | ⟨-, rfl⟩
      · exact ⟨h.remove hi, rfl⟩
      · have hkeeps := h.op.receive hmsg.1 hmsg.2
        exact ⟨h.deliver hi hkeeps, hkeeps.args⟩
  | stimulus mb x =>
      obtain ⟨r, hr, rfl⟩ := step_stimulus hs
      exact ⟨h.reprocess hat (Sharer.stimulus_reprocess _ x r hr), rfl⟩
  | forward i =>
      obtain ⟨mb, packet, before, behind, hp, rfl⟩ := step_forward hs
      have hmb : mb ∈ n.op.instances := h.packets (mb, packet) (hp ▸ by simp)
      have hrest : ({ n with packets := before ++ behind } : Network ShareOperation ν).Confined := by
        refine { h with packets := fun z hz => h.packets z ?_ }
        rw [hp]
        rcases List.mem_append.mp hz with hz | hz
        · exact List.mem_append_left _ hz
        · exact List.mem_append_right _ (List.mem_cons_of_mem _ hz)
      exact ⟨hrest.reprocess hmb (Sharer.packet_reprocess _ packet), rfl⟩
  | packetIn packet inSwitch inPort =>
      cases step_packetIn hs
      exact ⟨h.record h.op.keeps_self, rfl⟩
  | task i =>
      obtain ⟨task, hi, rfl⟩ := step_task hs
      exact ⟨h.record (h.keeps_task hi), rfl⟩

end

/-- A share begins by enabling events at its instances. -/
theorem mem_enableEvents {op : ShareOperation} {e : Effect} (h : e ∈ op.enableEvents) :
    ∃ inst ∈ op.instances, e = .send inst (.enableEvents op.id op.key .drop) := by
  obtain ⟨inst, hinst, rfl⟩ := List.mem_map.mp h
  exact ⟨inst, hinst, rfl⟩

theorem confined_start [PacketUtil] [Charset] {op : ShareOperation} (hop : op.Sound (Sharer.classOf ν))
    (hnodup : op.instances.Nodup) (nf : Middlebox → ν) : (start op nf).Confined := by
  refine ⟨hop, hnodup, fun mb cmd hcmd => ?_, fun z hz => absurd hz List.not_mem_nil, fun z hz => ?_⟩
  · have hcmd : cmd ∈ commandsTo mb op.enableEvents := hcmd
    obtain ⟨inst, hinst, he⟩ := mem_enableEvents (mem_commandsTo.mp hcmd)
    cases he
    exact ⟨hinst, Command.about_toggle rfl⟩
  · have hz : z ∈ packetsOut op.enableEvents := hz
    obtain ⟨sw, hsw⟩ := mem_packetsOut hz
    obtain ⟨inst, -, he⟩ := mem_enableEvents hsw
    cases he

end Network

end OFM.Controller
