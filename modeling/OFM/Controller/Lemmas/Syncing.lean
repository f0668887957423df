import OFM.Controller.Lemmas.Confined

/-!
# The initial synchronisation of a share

Until it is over, filters are being enabled or the state of one instance is on its way to the others. A round
that is finished is followed by the next one, and the last of them by the end.
-/

namespace OFM.Controller
open OFM.Lib

namespace Exchange

variable {classOf : Int → StateClass} {x : Exchange} {op : ShareOperation} {out : List Effect}

/-- No chunk is on its way, except where it has nowhere to go. -/
structure Idle (x : Exchange) : Prop where
  wire : ∀ mb, putsIn (x.wire mb) = 0
  talk : ∀ y ∈ x.talk, ∃ msg, y.2 = .state msg
  still : 2 ≤ x.instances.length → x.talk = []
  puts : ∀ mb ∈ x.instances, chunksFor mb x.heard = putsIn (x.sent mb)

theorem Calm.idle (h : x.Calm) : x.Idle where
  wire mb := by rw [h.wire]; rfl
  talk := h.talk
  still hn := (h.still hn).1
  puts := h.puts

theorem Idle.emit (h : x.Idle) (hout : ∀ mb, putsIn (commandsTo mb out) = 0) : (x.emit out).Idle where
  wire mb := by
    show putsIn (x.wire mb ++ commandsTo mb out) = 0
    rw [putsIn_append, h.wire, hout, add_zero]
  talk := h.talk
  still := h.still
  puts mb hmb := by
    show chunksFor mb x.heard = putsIn (x.sent mb ++ commandsTo mb out)
    rw [putsIn_append, hout, add_zero]
    exact h.puts mb hmb

/-- What a share asks an instance for. -/
theorem asks_gets (hclasses : x.classes = op.scope.classes) (inst : Middlebox) : x.Asks inst (op.gets inst) := by
  have hnil : ∀ mb, mb ≠ inst → commandsTo mb (op.gets inst) = [] := by
    intro mb hmb
    rw [commandsTo, ShareOperation.gets, List.filterMap_filterMap]
    refine List.filterMap_eq_nil_iff.mpr fun cls _ => ?_
    cases cls <;> simp [Ne.symm hmb]
  refine ⟨fun mb => ?_, fun mb => ?_, fun mb cmd hcmd => ?_⟩
  · split
    case isTrue hmb =>
      rw [hclasses, hmb]
      cases hscope : op.scope <;>
        simp [getsIn, commandsTo, ShareOperation.gets, hscope, Scope.classes, Command.getClass]
    case isFalse hmb => rw [hnil mb hmb]; rfl
  · by_cases hmb : mb = inst
    · rw [hmb]
      cases hscope : op.scope <;>
        simp [commandsTo, ShareOperation.gets, hscope, Scope.classes, putsIn, Command.putContent]
    · rw [hnil mb hmb]; rfl
  · have hcmd := mem_commandsTo.mp hcmd
    obtain ⟨cmd', cls, he, hget, -⟩ := ShareOperation.mem_gets hcmd
    cases he
    exact (Command.of_get (hget ▸ Option.some_ne_none cls)).2

/-- What the counters of an operation say about its round. -/
theorem finished_iff : op.instFinished = true ↔ (x.withOp op).Finished := by
  simp only [ShareOperation.instFinished, ShareOperation.acksMatch, List.all_eq_true, Bool.and_eq_true,
    beq_iff_eq]
  rfl

variable [Charset]

/-- Where nothing is on the way the next round begins, or all have been gone through. -/
theorem Calm.syncAllInstances (h : (x.withOp op).Calm) (hlen : op.nextInstIndex ≤ op.instances.length) :
    (∃ inst, op.instances[op.nextInstIndex]? = some inst ∧
      op.syncAllInstances = ⟨{ { op with counters := ShareOperation.roundCounters }.setSource inst with
        nextInstIndex := op.nextInstIndex + 1 }, op.gets inst⟩ ∧
      Round classOf inst (.start op.scope.classes)
        ((x.withOp op.syncAllInstances.val).emit op.syncAllInstances.out)) ∨
    (op.nextInstIndex = op.instances.length ∧ op.syncAllInstances.val.isSyncFinished = true ∧
      ((x.withOp op.syncAllInstances.val).emit op.syncAllInstances.out).Calm) := by
  rcases op.syncAllInstances_cases with ⟨hlast, he⟩ | ⟨inst, hi, he⟩ | ⟨hlt, -⟩
  · refine Or.inr ⟨hlast, ?_⟩
    rw [he]
    rcases ({ op with isSyncFinished := true } : ShareOperation).dequeueEvent_cases with
      ⟨-, hd⟩ | ⟨packet, src, rest, -, ⟨-, hd⟩ | ⟨sw, -, hd⟩⟩ <;> rw [hd]
    · refine ⟨rfl, ?_⟩
      rw [emit_eq_self _ fun _ => rfl]
      exact { h with }
    · refine ⟨rfl, ?_⟩
      rw [emit_eq_self _ fun _ => rfl]
      exact { h with }
    · refine ⟨rfl, ?_⟩
      rw [emit_eq_self _ fun _ => rfl]
      exact { h with }
  · refine Or.inl ⟨inst, hi, he, ?_⟩
    rw [he]
    exact h.start (List.mem_of_getElem? hi) (asks_gets rfl inst)
  · omega

end Exchange

namespace ShareOperation

/-- How far the initial synchronisation has come, and what it asks for. -/
def stage (op : ShareOperation) : Bool × Bool × PerflowKey × Nat :=
  (op.isSyncFinished, op.failed, op.key, op.nextInstIndex)

theorem Keeps.of_args {classOf : Int → StateClass} {op op' : ShareOperation} {r : Emit Effect ShareOperation}
    (h : op'.Keeps classOf r) (hargs : op'.args = op.args) : op.Keeps classOf r := by
  have hinst : op'.instances = op.instances := congrArg (fun args => args.2.2.1) hargs
  have hscope : op'.scope = op.scope := congrArg (fun args => args.2.2.2) hargs
  refine ⟨h.args.trans hargs, h.sound, fun e he => ?_⟩
  rw [← hinst, ← hscope]
  exact h.within e he

end ShareOperation

namespace Network

variable {ν ι : Type} [Sharer ν ι] {n n' : Network ShareOperation ν} {a : Act ι} {key : PerflowKey}

/-- Before the initial synchronisation is over. -/
inductive Phase (n : Network ShareOperation ν) : Prop
  | enabling (hfirst : n.op.nextInstIndex = 0) (h : n.exchange.Enabling n.op.eventAckCount)
  | round {src y} (h : n.exchange.Round (Sharer.classOf ν) src y)

structure Syncing (key : PerflowKey) (n : Network ShareOperation ν) : Prop where
  confined : n.Confined
  unfinished : n.op.isSyncFinished = false
  running : n.op.failed = false
  key : n.op.key = key
  index : n.op.nextInstIndex ≤ n.op.instances.length
  phase : n.Phase
  asked : ∀ inst ∈ n.op.instances.take n.op.nextInstIndex, ∀ e ∈ n.op.gets inst, e ∈ n.log

/-- What a step does to the initial synchronisation: it goes on, the next round begins, or it ends. -/
inductive Advances (key : PerflowKey) (n n' : Network ShareOperation ν) : Prop
  | goes (h : n'.Syncing key)
      (hgets : ∀ mb, getsIn (commandsTo mb n'.log) = getsIn (commandsTo mb n.log))
  | asks (h : n'.Syncing key) (hidle : n'.exchange.Idle)
  | ends (hfin : n'.op.isSyncFinished = true) (hcalm : n'.exchange.Calm)
      (hasked : ∀ inst ∈ n'.op.instances, ∀ e ∈ n.op.gets inst, e ∈ n'.log)

theorem gets_eq {op op' : ShareOperation} (hargs : op'.args = op.args) (hkey : op'.key = op.key)
    (inst : Middlebox) : op'.gets inst = op.gets inst := by
  simp only [ShareOperation.args, Prod.mk.injEq] at hargs
  obtain ⟨hid, hcons, -, hscope⟩ := hargs
  rw [ShareOperation.gets, ShareOperation.gets, hid, hcons, hscope, hkey]

/-- A step that begins no round. -/
theorem Syncing.goes (h : n.Syncing key) (hc : n'.Confined) (hargs : n'.op.args = n.op.args)
    (hstage : n'.op.stage = n.op.stage) (out : List Effect) (hlog : n'.log = n.log ++ out)
    (hout : ∀ mb, getsIn (commandsTo mb out) = 0) (hphase : n'.Phase) : Advances key n n' := by
  simp only [ShareOperation.stage, Prod.mk.injEq] at hstage
  obtain ⟨hfin, hfail, hkey, hindex⟩ := hstage
  have hinst : n'.op.instances = n.op.instances := congrArg (fun args => args.2.2.1) hargs
  refine .goes ⟨hc, hfin.trans h.unfinished, hfail.trans h.running, hkey.trans h.key, ?_, hphase, ?_⟩ ?_
  · rw [hindex, hinst]
    exact h.index
  · intro inst hmem e he
    rw [hindex, hinst] at hmem
    rw [gets_eq hargs hkey] at he
    rw [hlog]
    exact List.mem_append_left _ (h.asked inst hmem e he)
  · intro mb
    rw [hlog, commandsTo_append, getsIn_append, hout, add_zero]

theorem Phase.same (h : n.Phase) (hx : n'.exchange = n.exchange)
    (hindex : n'.op.nextInstIndex = n.op.nextInstIndex)
    (hcount : n'.op.eventAckCount = n.op.eventAckCount) : n'.Phase := by
  cases h with
  | enabling hfirst henabling => exact .enabling (hindex.trans hfirst) (hx ▸ hcount ▸ henabling)
  | round hround => exact .round (hx ▸ hround)

/-! ## Messages -/

section Deliver

variable {before behind : List (Middlebox × Message)} {source : Middlebox} {msg : Message}
  {op' : ShareOperation}

/-- A message is handled in the round, which goes on. -/
theorem Syncing.hear (h : n.Syncing key) (hi : n.inFlight = before ++ (source, msg) :: behind)
    (hmsg : msg.isReport = false) {r : Emit Effect ShareOperation} (hr : n.op.Keeps (Sharer.classOf ν) r)
    (hstage : r.val.stage = n.op.stage) (hout : ∀ mb, getsIn (commandsTo mb r.out) = 0)
    (hround : ∃ src y, Exchange.Round (Sharer.classOf ν) src y
      (((n.exchange.hear source msg (reportless before ++ reportless behind)).withOp r.val).emit r.out)) :
    Advances key n ((record { n with inFlight := before ++ behind } r).note source msg) := by
  obtain ⟨src, y, hround⟩ := hround
  refine h.goes (h.confined.deliver hi hr) hr.args hstage _ rfl hout ?_
  exact .round ((exchange_deliver r hmsg).symm ▸ hround)

variable [Charset]

/-- A message is handled after which nothing is on the way. -/
theorem Syncing.sync (h : n.Syncing key) (hi : n.inFlight = before ++ (source, msg) :: behind)
    (hmsg : msg.isReport = false) (hop : op'.Sound (Sharer.classOf ν)) (hargs : op'.args = n.op.args)
    (hstage : op'.stage = n.op.stage)
    (hcalm : ((n.exchange.hear source msg (reportless before ++ reportless behind)).withOp op').Calm) :
    Advances key n ((record { n with inFlight := before ++ behind } op'.syncAllInstances).note source msg) := by
  have hinst : op'.instances = n.op.instances := congrArg (fun args => args.2.2.1) hargs
  have hkeeps := hop.syncAllInstances.of_args hargs
  have hconfined := h.confined.deliver hi hkeeps
  have hexchange := @exchange_deliver ν n before behind source msg
    op'.syncAllInstances hmsg
  simp only [ShareOperation.stage, Prod.mk.injEq] at hstage
  obtain ⟨hfin, hfail, hkey, hindex⟩ := hstage
  have hlen : op'.nextInstIndex ≤ op'.instances.length := by
    rw [hindex, hinst]
    exact h.index
  rcases hcalm.syncAllInstances hlen with ⟨inst, hi', heq, hround⟩ | ⟨hlast, hfin', hcalm'⟩
  · have hget := List.getElem?_eq_some_iff.mp hi'
    refine .asks ⟨hconfined, ?_, ?_, ?_, ?_, ?_, ?_⟩ ?_
    · show op'.syncAllInstances.val.isSyncFinished = false
      rw [heq]
      exact hfin.trans h.unfinished
    · show op'.syncAllInstances.val.failed = false
      rw [heq]
      exact hfail.trans h.running
    · show op'.syncAllInstances.val.key = key
      rw [heq]
      exact hkey.trans h.key
    · show op'.syncAllInstances.val.nextInstIndex ≤ op'.syncAllInstances.val.instances.length
      rw [heq]
      exact hget.1
    · exact .round (hexchange ▸ hround)
    · intro j hj e he
      have hj : j ∈ op'.syncAllInstances.val.instances.take op'.syncAllInstances.val.nextInstIndex := hj
      have he : e ∈ op'.syncAllInstances.val.gets j := he
      show e ∈ n.log ++ op'.syncAllInstances.out
      rw [heq] at hj he ⊢
      have hj : j ∈ op'.instances.take (op'.nextInstIndex + 1) := hj
      have he : e ∈ op'.gets j := he
      rw [List.take_add_one, hi', List.mem_append] at hj
      rcases hj with hj | hj
      · rw [hinst, hindex] at hj
        rw [gets_eq hargs hkey] at he
        exact List.mem_append_left _ (h.asked j hj e he)
      · obtain rfl : j = inst := by simpa using hj
        exact List.mem_append_right _ he
    · rw [hexchange, heq]
      refine Exchange.Idle.emit { hcalm.idle with } fun mb => ?_
      exact (Exchange.asks_gets (x := n.exchange.withOp op') rfl inst).puts mb
  · refine .ends hfin' ?_ fun inst hmem e he => ?_
    · rw [hexchange]
      exact hcalm'
    · have hmem : inst ∈ op'.syncAllInstances.val.instances := hmem
      have hinst' : op'.syncAllInstances.val.instances = n.op.instances :=
        congrArg (fun args => args.2.2.1) hkeeps.args
      rw [hinst'] at hmem
      refine List.mem_append_left _ (h.asked inst ?_ e he)
      rw [← hindex, hlast, hinst, List.take_length]
      exact hmem

/-- The handler of an ack has counted it, and looks whether the round is finished. -/
theorem Syncing.check (h : n.Syncing key) (hi : n.inFlight = before ++ (source, msg) :: behind)
    (hmsg : msg.isReport = false) (hop : op'.Sound (Sharer.classOf ν)) (hargs : op'.args = n.op.args)
    (hstage : op'.stage = n.op.stage) {src y}
    (hround : ((n.exchange.hear source msg (reportless before ++ reportless behind)).withOp op').Round
      (Sharer.classOf ν) src y) :
    Advances key n
      ((record { n with inFlight := before ++ behind } op'.checkIfInstFinished).note source msg) := by
  have hkeeps : n.op.Keeps (Sharer.classOf ν) ⟨op', []⟩ := hop.keeps_self.of_args hargs
  rcases op'.checkIfInstFinished_cases with ⟨-, he⟩ | ⟨hfin, he⟩
  · rw [he]
    refine h.hear hi hmsg hkeeps hstage (fun _ => rfl) ⟨src, y, ?_⟩
    rw [Exchange.emit_eq_self _ fun _ => rfl]
    exact hround
  · have hsound := (h.confined.deliver hi hkeeps).exchange
    rw [exchange_deliver _ hmsg, Exchange.emit_eq_self _ fun _ => rfl] at hsound
    rw [he]
    exact h.sync hi hmsg hop.flushed hargs hstage
      (hround.calm hsound (Exchange.finished_iff.mp hfin) op'.clearAcked.counters)

theorem Syncing.receiveGetAck (h : n.Syncing key) {cls : StateClass} {count : Int}
    (hi : n.inFlight = before ++ (source, .getAck cls count) :: behind) :
    Advances key n ((record { n with inFlight := before ++ behind }
      (n.op.receiveGetAck cls count)).note source (.getAck cls count)) := by
  have htalk := talk_of_inFlight hi rfl
  have habout := (h.confined.inFlight (source, .getAck cls count) (hi ▸ by simp)).2
  rw [n.op.receiveGetAck_eq count (n.op.scope.ne_config habout)]
  cases h.phase with
  | enabling hfirst henabling => cases (henabling.hear htalk).1
  | round hround =>
      obtain ⟨y', hround⟩ := hround.getAck h.confined.exchange htalk
      exact h.check hi rfl { h.confined.op with } rfl rfl hround

omit [Charset] in
/-- What is counted of a chunk does not touch what it holds. -/
theorem acked_countPutAck (op : ShareOperation) (cls : StateClass) (hashkey : Int) :
    Exchange.Acked op.toOperation hashkey (op.countPutAck cls hashkey).toOperation := by
  have hset : ∀ ref, (op.countPutAck cls hashkey).stateChunks ref =
      if ref = op.obtainStateChunk hashkey then (op.stateChunks ref).incrementAcked
      else op.stateChunks ref := by
    intro ref
    show Function.update op.stateChunks _ _ ref = _
    by_cases href : ref = op.obtainStateChunk hashkey
    · rw [if_pos href, href, Function.update_self]
    · rw [if_neg href, Function.update_of_ne href]
  refine ⟨rfl, rfl, fun ref => ?_, fun ref => ?_, fun ref => ?_⟩
  · rw [hset]
    split <;> rfl
  · rw [hset]
    split <;> rfl
  · rw [hset]
    split <;> rfl

omit [Charset] in
theorem acked_ackChunk (op : ShareOperation) (cls : StateClass) (hashkey : Int) :
    Exchange.Acked op.toOperation hashkey ((op.countPutAck cls hashkey).ackChunk hashkey).toOperation := by
  have hcount := acked_countPutAck op cls hashkey
  have hset : ∀ ref, ((op.countPutAck cls hashkey).ackChunk hashkey).stateChunks ref =
      if ref = op.obtainStateChunk hashkey then
        { (op.countPutAck cls hashkey).stateChunks ref with ack := true }
      else (op.countPutAck cls hashkey).stateChunks ref := by
    intro ref
    show Function.update (op.countPutAck cls hashkey).stateChunks (op.obtainStateChunk hashkey) _ ref = _
    by_cases href : ref = op.obtainStateChunk hashkey
    · rw [if_pos href, href, Function.update_self]
      rfl
    · rw [if_neg href, Function.update_of_ne href]
  refine ⟨rfl, rfl, fun ref => ?_, fun ref => ?_, fun ref => ?_⟩
  · rw [← hcount.msg, hset]
    split <;> rfl
  · rw [← hcount.dsts, hset]
    split <;> rfl
  · rw [← hcount.acked, hset]
    split <;> rfl

variable [PacketUtil]

theorem Syncing.receivePutAck (h : n.Syncing key) {cls : StateClass} {hashkey : Int}
    (hi : n.inFlight = before ++ (source, .putAck cls hashkey) :: behind) :
    Advances key n ((record { n with inFlight := before ++ behind }
      (n.op.receivePutAck cls hashkey)).note source (.putAck cls hashkey)) := by
  have htalk := talk_of_inFlight hi rfl
  have habout := (h.confined.inFlight (source, .putAck cls hashkey) (hi ▸ by simp)).2
  have hcount := h.confined.op.countPutAck cls hashkey
  rw [n.op.receivePutAck_eq hashkey (n.op.scope.ne_config habout)]
  cases h.phase with
  | enabling hfirst henabling => cases (henabling.hear htalk).1
  | @round src _ hround =>
      rcases ShareOperation.receivePutAckOf_cases h.confined.op.bare cls hashkey with ⟨-, he⟩ | ⟨-, he⟩
      · rw [he]
        obtain ⟨y', hround⟩ := hround.putAck h.confined.exchange htalk (acked_countPutAck n.op cls hashkey)
        refine h.hear hi rfl (hcount.keeps_self.of_args rfl) rfl (fun _ => rfl) ⟨src, y', ?_⟩
        rw [Exchange.emit_eq_self _ fun _ => rfl]
        exact hround
      · rw [he]
        obtain ⟨y', hround⟩ := hround.putAck h.confined.exchange htalk (acked_ackChunk n.op cls hashkey)
        exact h.check hi rfl (hcount.ackChunk hashkey) rfl rfl hround

omit [PacketUtil] in
theorem Syncing.receiveEventsAck (h : n.Syncing key)
    (hi : n.inFlight = before ++ (source, .eventsAck) :: behind) :
    Advances key n ((record { n with inFlight := before ++ behind }
      n.op.receiveEventsAck).note source .eventsAck) := by
  have htalk := talk_of_inFlight hi rfl
  have hop : ({ n.op with eventAckCount := n.op.eventAckCount + 1 } : ShareOperation).Sound
      (Sharer.classOf ν) := { h.confined.op with }
  have hkeeps := @ShareOperation.Keeps.of_args _ n.op _ _ hop.keeps_self rfl
  cases h.phase with
  | round hround => exact absurd (htalk ▸ by simp) (hround.eventsAcks source)
  | enabling hfirst henabling =>
      have hnext := (henabling.hear htalk).2
      unfold ShareOperation.receiveEventsAck
      dsimp only
      split
      · rename_i hlast
        have hsound := (h.confined.deliver hi hkeeps).exchange
        rw [exchange_deliver _ rfl, Exchange.emit_eq_self _ fun _ => rfl] at hsound
        rw [show n.op.eventAckCount + 1 = (n.exchange.hear source .eventsAck
          (reportless before ++ reportless behind)).instances.length from hlast] at hnext
        exact h.sync hi rfl hop rfl rfl (Exchange.Enabling.calm hnext hsound)
      · refine h.goes (h.confined.deliver hi hkeeps) rfl rfl _ rfl (fun _ => rfl) (.enabling hfirst ?_)
        rw [exchange_deliver _ rfl, Exchange.emit_eq_self _ fun _ => rfl]
        exact hnext

omit [PacketUtil] [Charset] in
theorem Syncing.receiveState (h : n.Syncing key) {m : StateMessage}
    (hi : n.inFlight = before ++ (source, .state m) :: behind) :
    Advances key n ((record { n with inFlight := before ++ behind }
      (n.op.receiveState m)).note source (.state m)) := by
  have htalk := talk_of_inFlight hi rfl
  have habout : m.About (Sharer.classOf ν) n.op.scope.classes :=
    (h.confined.inFlight (source, .state m) (hi ▸ by simp)).2
  have hkeeps := h.confined.op.receiveState habout
  obtain ⟨putMsg, hput, hcontent⟩ := m.exists_toPut (n.op.scope.ne_config habout.1)
  cases h.phase with
  | enabling hfirst henabling => cases (henabling.hear htalk).1
  | @round src _ hround =>
      have hsource : n.op.currentSource = some src := hround.source
      unfold ShareOperation.receiveState at hkeeps ⊢
      rw [hput] at hkeeps ⊢
      cases hcons : n.op.consistency with
      | strong =>
        -- The chunk is left to the thread pool.
        simp only [hcons] at hkeeps ⊢
        have hdsts : n.op.instancesExcludingSource = some (n.op.instances.erase src) := by
          rw [h.confined.op.excluding, hsource]
          rfl
        let chunk : StateChunk :=
          { n.op.stateChunks (n.op.obtainStateChunk m.hashkey) with
            msg := some m
            dsts := n.op.instancesExcludingSource }
        have hmsg : chunk.msg = some m := rfl
        obtain ⟨y', hround⟩ := hround.submit h.confined.exchange htalk hmsg hdsts rfl
        refine h.hear hi rfl hkeeps rfl (fun _ => rfl) ⟨src, y', ?_⟩
        rw [Exchange.emit_eq_self _ fun _ => rfl]
        exact hround
      | strict =>
        -- The chunk is put at once.
        simp only [hcons] at hkeeps ⊢
        have hout : n.op.putState putMsg =
            (n.op.instances.erase src).map fun dst => .send dst (.put putMsg) := by
          rw [ShareOperation.putState, hsource, h.confined.nodup.erase_eq_filter]
          simp [bne, beq_eq_decide]
        have hputs : n.exchange.PutsOut src putMsg (n.op.putState putMsg) := by
          rw [hout]
          exact h.confined.exchange.putsOut src putMsg
        have hgets : ∀ mb, getsIn (commandsTo mb (n.op.putState putMsg)) = 0 := by
          intro mb
          rw [hputs mb]
          split <;> rfl
        obtain ⟨y', hround⟩ := hround.put h.confined.exchange htalk hcontent hputs
        exact h.hear hi rfl hkeeps rfl hgets ⟨src, y', hround⟩

/-- An event is noted. -/
theorem Syncing.receiveReprocess (h : n.Syncing key) {m : ReprocessMessage}
    (hi : n.inFlight = before ++ (source, .reprocess m) :: behind) :
    Advances key n ((record { n with inFlight := before ++ behind }
      (n.op.receiveReprocess m source)).note source (.reprocess m)) := by
  have hsource : source ∈ n.op.instances := (h.confined.inFlight (source, .reprocess m) (hi ▸ by simp)).1
  have hkeeps := h.confined.op.receiveReprocess m hsource
  have hnone : ∀ e mb, commandsTo mb [Effect.thrown e] = [] := fun _ _ => rfl
  rcases n.op.receiveReprocess_cases m source with ⟨e, -, he⟩ | ⟨pkt, -, ⟨-, he⟩ | ⟨hfin, -⟩ | ⟨hfin, -⟩⟩
  · rw [he] at hkeeps ⊢
    refine h.goes (h.confined.deliver hi hkeeps) rfl rfl _ rfl (fun _ => rfl) (h.phase.same ?_ rfl rfl)
    rw [exchange_report hi rfl, Exchange.emit_eq_self _ (hnone e)]
    rfl
  · rw [he] at hkeeps ⊢
    refine h.goes (h.confined.deliver hi hkeeps) rfl rfl _ rfl (fun _ => rfl) (h.phase.same ?_ rfl rfl)
    rw [exchange_report hi rfl, Exchange.emit_eq_self _ fun _ => rfl]
    rfl
  · rw [h.unfinished] at hfin
    cases hfin
  · rw [h.unfinished] at hfin
    cases hfin

end Deliver

/-! ## Steps -/

/-- A network function answers with events only. -/
theorem Syncing.reports (h : n.Syncing key) {n₀ : Network ShareOperation ν} (hx : n₀.exchange = n.exchange)
    (hop : n₀.op = n.op) (hlog : n₀.log = n.log) {mb : Middlebox} {r : ν × List Message}
    (hr : ∀ msg ∈ r.2, ∃ m, msg = .reprocess m) (hc : (n₀.answer mb r).Confined) :
    Advances key n (n₀.answer mb r) := by
  have hreport : ∀ msg ∈ r.2, msg.isReport = true := by
    intro msg hmsg
    obtain ⟨m, rfl⟩ := hr msg hmsg
    rfl
  have hop' : (n₀.answer mb r).op = n.op := hop
  refine h.goes hc (congrArg _ hop') (congrArg _ hop') [] (hlog.trans (List.append_nil _).symm)
    (fun _ => rfl) (h.phase.same ?_ ?_ ?_)
  · rw [exchange_answer hreport]
    exact hx
  · rw [hop']
  · rw [hop']

variable [PacketUtil] [Charset]

/-- Each step before the end takes the synchronisation further. -/
theorem Syncing.step (h : n.Syncing key) (hat : n.AtInstances a) (hs : n.step a = some n') :
    Advances key n n' := by
  obtain ⟨hc, hargs⟩ := h.confined.step hat hs
  cases a with
  | read mb =>
      obtain ⟨cmd, rest, hw, rfl⟩ := step_read hs
      have hans := Sharer.answers (n.nf mb) cmd
      have hx := @exchange_read ν n mb rest
        (NetworkFunction.command (n.nf mb) cmd)
        fun msg hmsg => (hans.about (h.confined.wire mb cmd (hw ▸ List.mem_cons_self ..)).2 msg hmsg).2
      refine h.goes hc rfl rfl [] (List.append_nil _).symm (fun _ => rfl) ?_
      cases h.phase with
      | enabling hfirst henabling =>
          have htoggle := henabling.wire mb cmd (by rw [show n.exchange.wire mb = _ from hw]; simp)
          rw [Sharer.command_toggle _ _ htoggle] at hx
          exact .enabling hfirst (hx ▸ henabling.read h.confined.exchange hw)
      | round hround =>
          obtain ⟨y', hround⟩ := hround.read h.confined.exchange hw hans
          exact .round (hx ▸ hround)
  | deliver sched i =>
      obtain ⟨source, msg, before, behind, hi, -, -, ⟨hf, -⟩ | ⟨-, rfl⟩⟩ := step_deliver hs
      · have hf : n.op.failed = true := hf
        rw [h.running] at hf
        cases hf
      · cases msg with
        | state m => exact h.receiveState hi
        | getAck cls count => exact h.receiveGetAck hi
        | putAck cls hashkey => exact h.receivePutAck hi
        | eventsAck => exact h.receiveEventsAck hi
        | reprocess m => exact h.receiveReprocess hi
  | stimulus mb x =>
      obtain ⟨r, hr, rfl⟩ := step_stimulus hs
      exact h.reports rfl rfl rfl (Sharer.stimulus_reprocess _ x r hr) hc
  | forward i =>
      obtain ⟨mb, packet, before, behind, hp, rfl⟩ := step_forward hs
      exact @Syncing.reports ν ι _ n key h { n with packets := before ++ behind } rfl rfl rfl _ _
        (Sharer.packet_reprocess _ packet) hc
  | packetIn packet inSwitch inPort =>
      cases step_packetIn hs
      refine h.goes hc rfl rfl [] rfl (fun _ => rfl) (h.phase.same ?_ rfl rfl)
      exact (exchange_record n _).trans (Exchange.emit_eq_self _ fun _ => rfl)
  | task i =>
      obtain ⟨task, hi, rfl⟩ := step_task hs
      have hi : n.op.threadPool[i]? = some task := hi
      obtain ⟨ref, rfl⟩ := h.confined.op.pool task (List.mem_of_getElem? hi)
      have hgets : ∀ mb, getsIn (commandsTo mb (n.op.stateChunks ref).call.out) = 0 := by
        intro mb
        refine (Multiset.coe_eq_zero _).mpr (List.filterMap_eq_nil_iff.mpr fun cmd hcmd => ?_)
        obtain ⟨_, _, putMsg, _, _, _, _, _, he⟩ := call_puts (mem_commandsTo.mp hcmd)
        cases he
        rfl
      refine h.goes hc rfl rfl _ rfl hgets ?_
      cases h.phase with
      | enabling hfirst henabling =>
          have hpool : n.op.threadPool = [] := henabling.pool
          rw [hpool] at hi
          cases hi
      | @round src _ hround =>
          obtain ⟨y', hround⟩ := hround.task h.confined.exchange hi
          refine @Phase.round ν ι _ _ src y' ?_
          rw [exchange_record]
          exact hround

end Network

end OFM.Controller
