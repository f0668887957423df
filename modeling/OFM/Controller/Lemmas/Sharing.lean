import OFM.Controller.Lemmas.Dequeue
import OFM.Controller.Theorems.InitialSync

/-!
# A share from its start to its end

When the initial synchronisation is over, either the state of one instance is on its way to the others, or a packet
has been given back whose echo has not come, or there is no packet to give back. What is said here of every moment
of a run holds where an event is taken for an echo only while there is a packet it can be the echo of.
-/

namespace OFM.Controller
open OFM.Lib

/-! ## What a log says -/

/-- An instance is asked for its state, or a packet is given back. -/
def Effect.Opens : Effect → Prop
  | .send _ cmd => cmd.getClass ≠ none
  | .packetOut .. => True
  | _ => False

/-- The packet that has been given back last, if nobody has been asked for state since. -/
def outstandingAfter (last : Option Packet) : List Effect → Option Packet
  | [] => last
  | .packetOut _ _ packet :: out => outstandingAfter (some packet) out
  | .send _ cmd :: out => outstandingAfter (if cmd.getClass = none then last else none) out
  | _ :: out => outstandingAfter last out

abbrev outstanding (log : List Effect) : Option Packet := outstandingAfter none log

/-- A packet is given back only where none is outstanding. -/
def Serial (log : List Effect) : Prop :=
  ∀ before src sw packet behind, log = before ++ .packetOut src sw packet :: behind → outstanding before = none

theorem outstandingAfter_append (last : Option Packet) (log out : List Effect) :
    outstandingAfter last (log ++ out) = outstandingAfter (outstandingAfter last log) out := by
  induction log generalizing last with
  | nil => rfl
  | cons e log ih => cases e <;> exact ih _

theorem outstandingAfter_of_not_opens {last : Option Packet} {out : List Effect} (h : ∀ e ∈ out, ¬ e.Opens) :
    outstandingAfter last out = last := by
  induction out generalizing last with
  | nil => rfl
  | cons e out ih =>
      obtain ⟨he, hout⟩ := List.forall_mem_cons.mp h
      cases e with
      | packetOut => exact absurd trivial he
      | send mb cmd =>
          have hcmd : cmd.getClass = none := not_not.mp he
          rw [outstandingAfter, if_pos hcmd]
          exact ih hout
      | _ => exact ih hout

theorem outstandingAfter_of_gets {last : Option Packet} {out : List Effect} (hne : out ≠ [])
    (h : ∀ e ∈ out, ∃ mb cmd, e = .send mb cmd ∧ cmd.getClass ≠ none) : outstandingAfter last out = none := by
  induction out generalizing last with
  | nil => exact absurd rfl hne
  | cons e out ih =>
      obtain ⟨⟨mb, cmd, rfl, hcmd⟩, hout⟩ := List.forall_mem_cons.mp h
      rw [outstandingAfter, if_neg hcmd]
      cases out with
      | nil => rfl
      | cons e' out => exact ih (List.cons_ne_nil e' out) hout

theorem serial_nil : Serial [] := by
  intro before src sw packet behind h
  simp at h

theorem Serial.append {log out : List Effect} (h : Serial log)
    (hout : ∀ src sw packet, .packetOut src sw packet ∉ out) : Serial (log ++ out) := by
  intro before src sw packet behind heq
  rcases List.append_eq_append_iff.mp heq with ⟨rest, rfl, hrest⟩ | ⟨rest, rfl, hrest⟩
  · exact absurd (by rw [hrest]; simp) (hout src sw packet)
  · cases rest with
    | nil =>
        have hrest : .packetOut src sw packet :: behind = out := hrest
        exact absurd (hrest ▸ List.mem_cons_self ..) (hout src sw packet)
    | cons e rest =>
        obtain ⟨rfl, -⟩ := List.cons.inj hrest
        exact h before src sw packet rest rfl

theorem Serial.give {log : List Effect} (h : Serial log) (hlast : outstanding log = none) (src : Middlebox)
    (sw : Nat) (packet : Packet) : Serial (log ++ [.packetOut src sw packet]) := by
  intro before src' sw' packet' behind heq
  rcases List.eq_nil_or_concat behind with rfl | ⟨rest, e, rfl⟩
  · obtain ⟨rfl, -⟩ := List.append_inj' heq rfl
    exact hlast
  · rw [List.concat_eq_append, ← List.cons_append, ← List.append_assoc] at heq
    exact h before src' sw' packet' rest (List.append_inj' heq rfl).1

/-! ## Where a share can stand -/

namespace ShareOperation

/-- What the messages of a round leave alone. -/
def course (op : ShareOperation) :
    Bool × Bool × Nat × Bool × Option Packet × LinkedHashMap JavaString Middlebox :=
  (op.isSyncFinished, op.failed, op.nextInstIndex, op.callFromReprocess, op.lastPacket, op.originalEvents)

/-- A share and its exchange; `last` is the packet that is outstanding. -/
inductive Stands (classOf : Int → StateClass) (op : ShareOperation) (last : Option Packet) (x : Exchange) : Prop
  | enabling (hfirst : op.nextInstIndex = 0) (hfin : op.isSyncFinished = false)
      (hcalled : op.callFromReprocess = false) (hlast : last = none)
      (hacks : op.eventAckCount = op.instances.length → op.instances = []) (h : x.Enabling op.eventAckCount)
  | round {src y} (hcalled : op.callFromReprocess = false) (hlast : last = none) (hopen : ¬ x.Finished)
      (h : x.Round classOf src y)
  | released {packet} (hfin : op.isSyncFinished = true) (hcalled : op.callFromReprocess = false)
      (hlast : last = some packet) (hpacket : op.lastPacket = some packet) (h : x.Calm)
  | waiting (hfin : op.isSyncFinished = true) (hcalled : op.callFromReprocess = true) (hlast : last = none)
      (hevents : op.originalEvents = []) (h : x.Calm)
  | failed (hfailed : op.failed = true)

end ShareOperation

namespace Exchange

/-- A round is not finished while an instance has still to ack a chunk that another one has acked. -/
theorem Round.not_finished {classOf : Int → StateClass} {x : Exchange} {src : Middlebox}
    {y : Scatter Middlebox StateClass Content (StateClass × Int)} (h : Round classOf src y x)
    (hs : x.Sound classOf) (hashkey : Int) (hpos : 0 < x.numAcked hashkey)
    (hmore : x.numAcked hashkey + 1 ≠ x.instances.length) : ¬ x.Finished := by
  intro hfin
  obtain ⟨-, -, hmissing⟩ := h.over hs hfin
  have hacks : x.numAcked hashkey =
      (x.sinks src).card * (y.given.map Content.ackKey).countP fun key => key.2 = hashkey := by
    rw [h.chunkAcks, (h.conserved.acks_eq_iff fun key => key.2 = hashkey).mpr]
    intro j hj
    rw [hmissing j hj]
    rfl
  -- A hashkey tells the class, so that there is one chunk with it at most.
  have hcount : (y.given.map Content.ackKey).countP (fun key => key.2 = hashkey) ≤ 1 := by
    have hkey : ∀ key ∈ y.given.map Content.ackKey, (key.2 = hashkey) = ((classOf hashkey, hashkey) = key) := by
      intro key hkey
      obtain ⟨c, hc, rfl⟩ := Multiset.mem_map.mp hkey
      refine propext ⟨fun hk => ?_, fun hk => by rw [← hk]⟩
      have hk : c.hashkey = hashkey := hk
      rw [← hk, h.classed c hc]
      rfl
    rw [Multiset.countP_congr rfl hkey]
    exact Multiset.nodup_iff_count_le_one.mp h.conserved.nodup _
  have hcard := card_sinks hs h.mem
  rcases Nat.le_one_iff_eq_zero_or_eq_one.mp hcount with hone | hone <;> rw [hone] at hacks
  · omega
  · omega

/-- A round in which nothing is on the way any more is finished. -/
theorem Round.finished {classOf : Int → StateClass} {x : Exchange} {src : Middlebox}
    {y : Scatter Middlebox StateClass Content (StateClass × Int)} (h : Round classOf src y x)
    (hs : x.Sound classOf) (hwire : ∀ mb, x.wire mb = []) (htalk : x.talk = [])
    (hpool : x.base.threadPool = []) : x.Finished := by
  have hasking : y.asking = 0 := by
    have hgets := h.asking src
    rw [if_pos rfl, hwire] at hgets
    exact hgets.symm
  have hanswered : y.answered = 0 := by
    rw [← h.answered, htalk]
    rfl
  have hmissing : ∀ j ∈ x.sinks src, y.missing Content.ackKey j = 0 := by
    intro j hj
    have hcard := card_sinks hs h.mem
    have hpos := Finset.card_pos.mpr ⟨j, hj⟩
    have hn : 2 ≤ x.instances.length := by omega
    refine Scatter.missing_eq_zero.mpr ⟨?_, ?_, ?_, ?_⟩
    · rw [← h.arriving hn, htalk]
      rfl
    · rw [← h.waits hn, waiting, hpool]
      rfl
    · rw [← h.putting, hwire]
      rfl
    · rw [← h.acking, htalk]
      rfl
  intro cls hcls
  have hcounted : cls ∈ y.counted := by
    have hasks := h.conserved.asks
    rw [hasking, hanswered, zero_add, zero_add] at hasks
    rw [hasks]
    exact hcls
  refine ⟨(h.counted cls).mp hcounted, ?_⟩
  have hacks := (h.conserved.acks_eq_iff fun key => key.1 = cls).mpr fun j hj => by
    rw [hmissing j hj]
    rfl
  rw [h.getCount cls hcounted, h.putAcks, hacks, ← card_sinks hs h.mem, mul_comm, Nat.cast_mul]
  rfl

end Exchange

/-- The packet of an event, with its flag. -/
def Message.report [PacketUtil] : Message → Option Packet
  | .reprocess m => (ShareOperation.flagged m).toOption
  | _ => none

theorem Message.report_reprocess [PacketUtil] {m : ReprocessMessage} {packet : Packet} :
    (Message.reprocess m).report = some packet ↔ ShareOperation.flagged m = .ok packet := by
  rw [report]
  cases ShareOperation.flagged m <;> simp [Except.toOption]

namespace Network

/-- What holds at every moment. -/
structure Shares {ν ι : Type} [Sharer ν ι] (n : Network ShareOperation ν) : Prop where
  confined : n.Confined
  index : n.op.nextInstIndex ≤ n.op.instances.length
  synced : n.op.isSyncFinished = true → n.op.nextInstIndex = n.op.instances.length
  serial : Serial n.log
  stands : n.op.Stands (Sharer.classOf ν) (outstanding n.log) n.exchange

/-- The packet of the event that is handled next, and the instance it comes from. -/
def reported {ν : Type} [PacketUtil] (n : Network ShareOperation ν) (i : Nat) : Option (Middlebox × Packet) :=
  (n.inFlight[i]?).bind fun z => z.2.report.map fun packet => (z.1, packet)

theorem reported_of_event {ν : Type} [PacketUtil] {n : Network ShareOperation ν} {i : Nat} {source : Middlebox}
    {m : ReprocessMessage} (h : n.inFlight[i]? = some (source, .reprocess m)) {packet : Packet}
    (hpacket : ShareOperation.flagged m = .ok packet) : (source, packet) ∈ n.reported i := by
  rw [reported, h, Option.bind_some, Message.report_reprocess.mpr hpacket]
  rfl

/-- An event is taken for an echo only while the packet is outstanding. -/
def InPlace {ν ι : Type} [PacketUtil] (n : Network ShareOperation ν) : Act ι → Prop
  | .stimulus mb _ => mb ∈ n.op.instances
  | .deliver _ i => ∀ z ∈ n.reported i, n.op.lastPacket = some z.2 → outstanding n.log = some z.2
  | _ => True

instance decidableInPlace {ν ι : Type} [PacketUtil] (n : Network ShareOperation ν) :
    (a : Act ι) → Decidable (n.InPlace a)
  | .stimulus mb _ => inferInstanceAs (Decidable (mb ∈ n.op.instances))
  | .deliver _ i => inferInstanceAs (Decidable (∀ z ∈ n.reported i, _ → _))
  | .read _ | .forward _ | .packetIn .. | .task _ => .isTrue trivial

variable {ν ι : Type} [Sharer ν ι] {n n' : Network ShareOperation ν} {a : Act ι}

/-- A step that sends `out`. When it asks for state or gives a packet back no chunk is on its way. -/
structure Moves (n n' : Network ShareOperation ν) (out : List Effect) : Prop where
  shares : n'.Shares
  log : n'.log = n.log ++ out
  idle : (∃ e ∈ out, e.Opens) → n'.exchange.Idle

/-- A step that opens nothing. -/
theorem Shares.goes (h : n.Shares) (hc : n'.Confined) (hargs : n'.op.args = n.op.args)
    (hfin : n'.op.isSyncFinished = n.op.isSyncFinished) (hindex : n'.op.nextInstIndex = n.op.nextInstIndex)
    {out : List Effect} (hlog : n'.log = n.log ++ out) (hout : ∀ e ∈ out, ¬ e.Opens)
    (hstands : n'.op.Stands (Sharer.classOf ν) (outstanding n.log) n'.exchange) : Moves n n' out := by
  have hinst : n'.op.instances = n.op.instances := congrArg (fun args => args.2.2.1) hargs
  have hlast : outstanding n'.log = outstanding n.log := by
    rw [hlog, outstanding, outstandingAfter_append, outstandingAfter_of_not_opens hout]
  refine ⟨⟨hc, ?_, ?_, ?_, hlast ▸ hstands⟩, hlog, fun ⟨e, he, hopens⟩ => absurd hopens (hout e he)⟩
  · rw [hindex, hinst]
    exact h.index
  · rw [hfin, hindex, hinst]
    exact h.synced
  · rw [hlog]
    exact h.serial.append fun src sw packet hmem => hout _ hmem trivial

end Network

namespace ShareOperation

variable {classOf : Int → StateClass} {op op' : ShareOperation} {last : Option Packet} {x x' : Exchange}

/-- Where a share stands it stays if its course and its exchange do. -/
theorem Stands.same (h : op.Stands classOf last x) (hargs : op'.args = op.args) (hcourse : op'.course = op.course)
    (hacks : op'.eventAckCount = op.eventAckCount) (hx : x' = x) : op'.Stands classOf last x' := by
  simp only [course, Prod.mk.injEq] at hcourse
  obtain ⟨hfin, hfail, hindex, hcalled, hpacket, hevents⟩ := hcourse
  have hinst : op'.instances = op.instances := congrArg (fun args => args.2.2.1) hargs
  subst hx
  cases h with
  | enabling hfirst hfin' hcalled' hlast hno h =>
      refine .enabling (hindex.trans hfirst) (hfin.trans hfin') (hcalled.trans hcalled') hlast ?_ (hacks ▸ h)
      rw [hacks, hinst]
      exact hno
  | round hcalled' hlast hopen h => exact .round (hcalled.trans hcalled') hlast hopen h
  | released hfin' hcalled' hlast hpacket' h =>
      exact .released (hfin.trans hfin') (hcalled.trans hcalled') hlast (hpacket.trans hpacket') h
  | waiting hfin' hcalled' hlast hevents' h =>
      exact .waiting (hfin.trans hfin') (hcalled.trans hcalled') hlast (hevents.trans hevents') h
  | failed hfailed => exact .failed (hfail.trans hfailed)

/-! ## Where nothing is on the way -/

/-- What a handler leaves behind that begins a round or gives a packet back. -/
structure Begins (classOf : Int → StateClass) (log : List Effect) (x : Exchange) (r : Emit Effect ShareOperation) :
    Prop where
  index : r.val.nextInstIndex ≤ r.val.instances.length
  synced : r.val.isSyncFinished = true → r.val.nextInstIndex = r.val.instances.length
  serial : Serial (log ++ r.out)
  stands : r.val.Stands classOf (outstanding (log ++ r.out)) ((x.withOp r.val).emit r.out)
  idle : ((x.withOp r.val).emit r.out).Idle

variable {log : List Effect} [Charset]

theorem begins_dequeueEvent (hfin : op.isSyncFinished = true) (hindex : op.nextInstIndex = op.instances.length)
    (hcalled : op.callFromReprocess = false) (hserial : Serial log) (hlast : outstanding log = none)
    (hcalm : (x.withOp op).Calm) : Begins classOf log x op.dequeueEvent := by
  have hx : ∀ {out : List Effect} (y : Exchange), (∀ mb, commandsTo mb out = []) → y.emit out = y :=
    fun y hout => y.emit_eq_self hout
  rcases op.dequeueEvent_cases with ⟨hnil, he⟩ | ⟨key, src, rest, -, ⟨-, he⟩ | ⟨sw, -, he⟩⟩ <;> rw [he]
  · refine ⟨hindex.le, fun _ => hindex, by rwa [List.append_nil], ?_, ?_⟩
    · rw [hx _ fun _ => rfl, List.append_nil]
      exact .waiting hfin rfl hlast hnil { hcalm with }
    · rw [hx _ fun _ => rfl]
      exact { hcalm.idle with }
  · refine ⟨hindex.le, fun _ => hindex, hserial.append fun _ _ _ h => ?_, .failed rfl, ?_⟩
    · cases List.mem_singleton.mp h
    · rw [hx _ fun _ => rfl]
      exact { hcalm.idle with }
  · refine ⟨hindex.le, fun _ => hindex, hserial.give hlast src sw _, ?_, ?_⟩
    · rw [hx _ fun _ => rfl, outstanding, outstandingAfter_append]
      exact .released hfin hcalled rfl rfl { hcalm with }
    · rw [hx _ fun _ => rfl]
      exact { hcalm.idle with }

omit [Charset] in
/-- The gets of a round are sent to one instance, and there are some. -/
theorem gets_open (op : ShareOperation) (inst : Middlebox) : op.gets inst ≠ [] ∧
    ∀ e ∈ op.gets inst, ∃ mb cmd, e = .send mb cmd ∧ cmd.getClass ≠ none := by
  constructor
  · cases hscope : op.scope <;> simp [gets, hscope, Scope.classes]
  · intro e he
    obtain ⟨cmd, cls, rfl, hget, -⟩ := mem_gets he
    exact ⟨inst, cmd, rfl, hget ▸ Option.some_ne_none cls⟩

omit [Charset] in
theorem begins_round {inst : Middlebox} (hinst : inst ∈ op.instances)
    (hindex : op'.nextInstIndex ≤ op'.instances.length)
    (hsynced : op'.isSyncFinished = true → op'.nextInstIndex = op'.instances.length)
    (hcalled : op.callFromReprocess = false) (hserial : Serial log) (hcalm : (x.withOp op).Calm)
    (hop' : op' = { ({ op with counters := roundCounters } : ShareOperation).setSource inst with
      nextInstIndex := op'.nextInstIndex }) :
    Begins classOf log x ⟨op', op.gets inst⟩ := by
  obtain ⟨hne, hgets⟩ := op.gets_open inst
  have hasks : (x.withOp op).Asks inst (op.gets inst) := Exchange.asks_gets rfl inst
  have hround : Exchange.Round classOf inst (.start op.scope.classes) ((x.withOp op').emit (op.gets inst)) := by
    rw [hop']
    exact hcalm.start hinst hasks
  have hopen : ¬ ((x.withOp op').emit (op.gets inst)).Finished := by
    intro hfin
    rw [hop'] at hfin
    have hne : op.scope.classes ≠ [] := by cases op.scope <;> simp [Scope.classes]
    obtain ⟨cls, hcls⟩ := List.exists_mem_of_ne_nil _ hne
    exact absurd (hfin cls hcls).1 (by simp [Exchange.emit, Exchange.withOp, setSource, roundCounters])
  refine ⟨hindex, hsynced, hserial.append (not_mem_gets op inst), ?_, ?_⟩
  · rw [outstanding, outstandingAfter_append, outstandingAfter_of_gets hne hgets]
    refine .round ?_ rfl hopen hround
    rw [hop']
    exact hcalled
  · rw [hop']
    exact Exchange.Idle.emit { hcalm.idle with } hasks.puts

theorem begins_syncAllInstances (hindex : op.nextInstIndex ≤ op.instances.length)
    (hsynced : op.isSyncFinished = true → op.nextInstIndex = op.instances.length)
    (hcalled : op.callFromReprocess = false) (hserial : Serial log) (hlast : outstanding log = none)
    (hcalm : (x.withOp op).Calm) : Begins classOf log x op.syncAllInstances := by
  rcases op.syncAllInstances_cases with ⟨hend, he⟩ | ⟨inst, hi, he⟩ | ⟨hlt, -⟩
  · rw [he]
    exact begins_dequeueEvent rfl hend hcalled hserial hlast { hcalm with }
  · have hlt := (List.getElem?_eq_some_iff.mp hi).1
    rw [he]
    refine begins_round (List.mem_of_getElem? hi) hlt (fun hfin => ?_) hcalled hserial hcalm rfl
    exact absurd (hsynced hfin) (Nat.ne_of_lt hlt)
  · omega

end ShareOperation

namespace Network

variable {ν ι : Type} [Sharer ν ι] {n n' : Network ShareOperation ν} {a : Act ι}

/-! ## Messages -/

section Deliver

variable {before behind : List (Middlebox × Message)} {source : Middlebox} {msg : Message}
  {op' : ShareOperation}

/-- A message is handled, and nothing is opened. -/
theorem Shares.hear (h : n.Shares) (hi : n.inFlight = before ++ (source, msg) :: behind)
    {r : Emit Effect ShareOperation} (hr : n.op.Keeps (Sharer.classOf ν) r)
    (hfin : r.val.isSyncFinished = n.op.isSyncFinished) (hindex : r.val.nextInstIndex = n.op.nextInstIndex)
    (hout : ∀ e ∈ r.out, ¬ e.Opens) {x : Exchange}
    (hx : ((record { n with inFlight := before ++ behind } r).note source msg).exchange =
      (x.withOp r.val).emit r.out)
    (hstands : r.val.Stands (Sharer.classOf ν) (outstanding n.log) ((x.withOp r.val).emit r.out)) :
    Moves n ((record { n with inFlight := before ++ behind } r).note source msg) r.out :=
  h.goes (h.confined.deliver hi hr) hr.args hfin hindex rfl hout (hx.symm ▸ hstands)

/-- A message is handled that opens something. -/
theorem Shares.opens (h : n.Shares) (hi : n.inFlight = before ++ (source, msg) :: behind)
    {r : Emit Effect ShareOperation} (hr : n.op.Keeps (Sharer.classOf ν) r) {x : Exchange}
    (hx : ((record { n with inFlight := before ++ behind } r).note source msg).exchange =
      (x.withOp r.val).emit r.out)
    (hbegins : ShareOperation.Begins (Sharer.classOf ν) n.log x r) :
    Moves n ((record { n with inFlight := before ++ behind } r).note source msg) r.out :=
  ⟨⟨h.confined.deliver hi hr, hbegins.index, hbegins.synced, hbegins.serial, hx ▸ hbegins.stands⟩, rfl,
    fun _ => hx ▸ hbegins.idle⟩

variable [Charset]

/-- Where nothing is on the way any more. -/
theorem Shares.sync (h : n.Shares) (hi : n.inFlight = before ++ (source, msg) :: behind)
    (hmsg : msg.isReport = false) (hop : op'.Sound (Sharer.classOf ν)) (hargs : op'.args = n.op.args)
    (hcourse : op'.course = n.op.course) (hcalled : n.op.callFromReprocess = false)
    (hlast : outstanding n.log = none)
    (hcalm : ((n.exchange.hear source msg (reportless before ++ reportless behind)).withOp op').Calm) :
    Moves n ((record { n with inFlight := before ++ behind } op'.syncAllInstances).note source msg)
      op'.syncAllInstances.out := by
  have hinst : op'.instances = n.op.instances := congrArg (fun args => args.2.2.1) hargs
  simp only [ShareOperation.course, Prod.mk.injEq] at hcourse
  obtain ⟨hfin, -, hindex, hcalled', -, -⟩ := hcourse
  refine h.opens hi (hop.syncAllInstances.of_args hargs) (exchange_deliver _ hmsg) ?_
  refine ShareOperation.begins_syncAllInstances ?_ ?_ (hcalled'.trans hcalled) h.serial hlast hcalm
  · rw [hindex, hinst]
    exact h.index
  · rw [hindex, hinst, hfin]
    exact h.synced

/-- An ack has been counted in a round. -/
theorem Shares.check (h : n.Shares) (hi : n.inFlight = before ++ (source, msg) :: behind)
    (hmsg : msg.isReport = false) (hop : op'.Sound (Sharer.classOf ν)) (hargs : op'.args = n.op.args)
    (hcourse : op'.course = n.op.course) (hcalled : n.op.callFromReprocess = false)
    (hlast : outstanding n.log = none) {src y}
    (hround : ((n.exchange.hear source msg (reportless before ++ reportless behind)).withOp op').Round
      (Sharer.classOf ν) src y) :
    Moves n ((record { n with inFlight := before ++ behind } op'.checkIfInstFinished).note source msg)
      op'.checkIfInstFinished.out := by
  have hkeeps : n.op.Keeps (Sharer.classOf ν) ⟨op', []⟩ := hop.keeps_self.of_args hargs
  have hcalled' : op'.callFromReprocess = false := by
    simp only [ShareOperation.course, Prod.mk.injEq] at hcourse
    exact hcourse.2.2.2.1.trans hcalled
  rcases op'.checkIfInstFinished_cases with ⟨hfin, he⟩ | ⟨hfin, he⟩ <;> rw [he]
  · have hcourse := hcourse
    simp only [ShareOperation.course, Prod.mk.injEq] at hcourse
    refine h.hear hi hkeeps hcourse.1 hcourse.2.2.1 (fun _ hmem => absurd hmem List.not_mem_nil)
      (exchange_deliver _ hmsg) ?_
    rw [Exchange.emit_eq_self _ fun _ => rfl]
    refine .round hcalled' hlast (fun hfin' => ?_) hround
    rw [Exchange.finished_iff.mpr hfin'] at hfin
    cases hfin
  · have hsound := (h.confined.deliver hi hkeeps).exchange
    rw [exchange_deliver _ hmsg, Exchange.emit_eq_self _ fun _ => rfl] at hsound
    exact h.sync hi hmsg hop.flushed hargs hcourse hcalled hlast
      (hround.calm hsound (Exchange.finished_iff.mp hfin) op'.clearAcked.counters)

omit [Charset] in
/-- An ack comes in a round only. -/
theorem Shares.round_of_ack (h : n.Shares) (hrun : n.op.failed = false)
    (hi : n.inFlight = before ++ (source, msg) :: behind) (hmsg : msg.isReport = false)
    (hstate : ∀ m, msg ≠ .state m) (hacks : msg ≠ .eventsAck) :
    n.op.callFromReprocess = false ∧ outstanding n.log = none ∧ ¬ n.exchange.Finished ∧
      ∃ src y, n.exchange.Round (Sharer.classOf ν) src y := by
  have htalk := talk_of_inFlight hi hmsg
  have hcalm : ¬ n.exchange.Calm := by
    intro hcalm
    obtain ⟨m, rfl⟩ := hcalm.state htalk
    exact hstate m rfl
  cases h.stands with
  | enabling _ _ _ _ _ henabling => exact absurd (henabling.hear htalk).1 hacks
  | round hcalled hlast hopen hround => exact ⟨hcalled, hlast, hopen, _, _, hround⟩
  | released _ _ _ _ h => exact absurd h hcalm
  | waiting _ _ _ _ h => exact absurd h hcalm
  | failed hfailed =>
      rw [hrun] at hfailed
      cases hfailed

theorem Shares.receiveGetAck (h : n.Shares) (hrun : n.op.failed = false) {cls : StateClass} {count : Int}
    (hi : n.inFlight = before ++ (source, .getAck cls count) :: behind) :
    Moves n ((record { n with inFlight := before ++ behind }
      (n.op.receiveGetAck cls count)).note source (.getAck cls count)) (n.op.receiveGetAck cls count).out := by
  have habout := (h.confined.inFlight (source, .getAck cls count) (hi ▸ by simp)).2
  obtain ⟨hcalled, hlast, -, src, y, hround⟩ :=
    h.round_of_ack hrun hi rfl (fun _ => Message.noConfusion) Message.noConfusion
  obtain ⟨y', hround⟩ := hround.getAck h.confined.exchange (talk_of_inFlight hi rfl)
  rw [n.op.receiveGetAck_eq count (n.op.scope.ne_config habout)]
  exact h.check hi rfl { h.confined.op with } rfl rfl hcalled hlast hround

variable [PacketUtil]

theorem Shares.receivePutAck (h : n.Shares) (hrun : n.op.failed = false) {cls : StateClass} {hashkey : Int}
    (hi : n.inFlight = before ++ (source, .putAck cls hashkey) :: behind) :
    Moves n ((record { n with inFlight := before ++ behind }
      (n.op.receivePutAck cls hashkey)).note source (.putAck cls hashkey))
      (n.op.receivePutAck cls hashkey).out := by
  have htalk := talk_of_inFlight hi rfl
  have habout := (h.confined.inFlight (source, .putAck cls hashkey) (hi ▸ by simp)).2
  have hcount := h.confined.op.countPutAck cls hashkey
  have hkeeps := @ShareOperation.Keeps.of_args _ n.op _ _ hcount.keeps_self rfl
  obtain ⟨hcalled, hlast, -, src, y, hround⟩ :=
    h.round_of_ack hrun hi rfl (fun _ => Message.noConfusion) Message.noConfusion
  rw [n.op.receivePutAck_eq hashkey (n.op.scope.ne_config habout)]
  rcases ShareOperation.receivePutAckOf_cases h.confined.op.bare cls hashkey with ⟨hmore, he⟩ | ⟨-, he⟩ <;> rw [he]
  · have hacked := acked_countPutAck n.op cls hashkey
    obtain ⟨y', hround⟩ := hround.putAck h.confined.exchange htalk hacked
    refine h.hear hi hkeeps rfl rfl (fun _ hmem => absurd hmem List.not_mem_nil) (exchange_deliver _ rfl) ?_
    have hsound := (h.confined.deliver hi hkeeps).exchange
    rw [exchange_deliver _ rfl] at hsound
    rw [Exchange.emit_eq_self _ fun _ => rfl] at hsound ⊢
    -- Another instance has still to ack the chunk.
    have hacks := hacked.acked (n.op.obtainStateChunk hashkey)
    rw [if_pos rfl] at hacks
    refine .round hcalled hlast (hround.not_finished hsound hashkey ?_ ?_) hround
    · show 0 < ((n.op.countPutAck cls hashkey).stateChunks (n.op.obtainStateChunk hashkey)).numAckedInstances
      omega
    · show ((n.op.countPutAck cls hashkey).stateChunks (n.op.obtainStateChunk hashkey)).numAckedInstances + 1 ≠
        n.op.instances.length
      omega
  · obtain ⟨y', hround⟩ := hround.putAck h.confined.exchange htalk (acked_ackChunk n.op cls hashkey)
    exact h.check hi rfl (hcount.ackChunk hashkey) rfl rfl hcalled hlast hround

omit [PacketUtil] in
theorem Shares.receiveEventsAck (h : n.Shares) (hrun : n.op.failed = false)
    (hi : n.inFlight = before ++ (source, .eventsAck) :: behind) :
    Moves n ((record { n with inFlight := before ++ behind }
      n.op.receiveEventsAck).note source .eventsAck) n.op.receiveEventsAck.out := by
  have htalk := talk_of_inFlight hi rfl
  have hop : ({ n.op with eventAckCount := n.op.eventAckCount + 1 } : ShareOperation).Sound
      (Sharer.classOf ν) := { h.confined.op with }
  have hkeeps := @ShareOperation.Keeps.of_args _ n.op _ _ hop.keeps_self rfl
  have hcalm : ¬ n.exchange.Calm := by
    intro hcalm
    obtain ⟨m, hm⟩ := hcalm.state htalk
    cases hm
  cases h.stands with
  | enabling hfirst hfin hcalled hlast hacks henabling =>
      have hnext := (henabling.hear htalk).2
      unfold ShareOperation.receiveEventsAck
      dsimp only
      split
      · rename_i hall
        have hsound := (h.confined.deliver hi hkeeps).exchange
        rw [exchange_deliver _ rfl, Exchange.emit_eq_self _ fun _ => rfl] at hsound
        rw [show n.op.eventAckCount + 1 = (n.exchange.hear source .eventsAck
          (reportless before ++ reportless behind)).instances.length from hall] at hnext
        exact h.sync hi rfl hop rfl rfl hcalled hlast (Exchange.Enabling.calm hnext hsound)
      · rename_i hmore
        refine h.hear hi hkeeps rfl rfl (fun _ hmem => absurd hmem List.not_mem_nil) (exchange_deliver _ rfl) ?_
        rw [Emit.pure_out, Exchange.emit_eq_self _ fun _ => rfl]
        exact .enabling hfirst hfin hcalled hlast (fun hall => absurd hall hmore) hnext
  | round _ _ _ hround => exact absurd (htalk ▸ by simp) (hround.eventsAcks source)
  | released _ _ _ _ h => exact absurd h hcalm
  | waiting _ _ _ _ h => exact absurd h hcalm
  | failed hfailed =>
      rw [hrun] at hfailed
      cases hfailed

omit [PacketUtil] [Charset] in
/-- A chunk opens nothing, and leaves the course of a share alone. -/
theorem putState_opens (op : ShareOperation) (putMsg : PutMessage) : ∀ e ∈ op.putState putMsg, ¬ e.Opens := by
  intro e he
  unfold ShareOperation.putState at he
  split at he
  · obtain ⟨inst, -, rfl⟩ := List.mem_map.mp he
    exact fun h => h rfl
  · split at he
    · cases he
    · rw [List.mem_singleton.mp he]
      exact id

omit [PacketUtil] [Charset] in
/-- Where there is one instance only its chunks have nowhere to go. -/
theorem Shares.receiveState_calm (h : n.Shares) {m : StateMessage}
    (hi : n.inFlight = before ++ (source, .state m) :: behind) (hcalm : n.exchange.Calm) :
    (((n.exchange.hear source (.state m) (reportless before ++ reportless behind)).withOp
      (n.op.receiveState m).val).emit (n.op.receiveState m).out).Calm := by
  have htalk := talk_of_inFlight hi rfl
  have hsingle := hcalm.single htalk
  have hself := hcalm.hear h.confined.exchange htalk (b := n.op.toOperation) fun _ => rfl
  unfold ShareOperation.receiveState
  split
  · rw [Emit.pure_out, Exchange.emit_eq_self _ fun _ => rfl]
    exact hself
  · rename_i putMsg _
    split
    · rw [Emit.pure_out, Exchange.emit_eq_self _ fun _ => rfl]
      refine hcalm.hear h.confined.exchange htalk fun hashkey => ?_
      show (Function.update n.op.stateChunks (n.op.obtainStateChunk m.hashkey) _
        (n.op.obtainStateChunk hashkey)).numAckedInstances =
          (n.op.stateChunks (n.op.obtainStateChunk hashkey)).numAckedInstances
      by_cases hkey : n.op.obtainStateChunk hashkey = n.op.obtainStateChunk m.hashkey
      · rw [hkey, Function.update_self]
      · rw [Function.update_of_ne hkey]
    · have hnone : ∀ mb, commandsTo mb (n.op.putState putMsg) = [] := by
        intro mb
        unfold ShareOperation.putState
        split
        · rename_i src hsrc
          have hall : n.op.instances.filter (· ≠ src) = [] := by
            refine List.filter_eq_nil_iff.mpr fun inst hinst => ?_
            have heq := Exchange.eq_of_single hsingle hinst (h.confined.op.source src hsrc)
            simpa using heq
          rw [hall]
          rfl
        · split <;> rfl
      rw [Emit.emit_out, Exchange.emit_eq_self _ hnone]
      exact hself

omit [PacketUtil] [Charset] in
/-- In a round a chunk is left to the thread pool, or put at once. -/
theorem Shares.receiveState_round (h : n.Shares) {m : StateMessage}
    (hi : n.inFlight = before ++ (source, .state m) :: behind) {src y}
    (hround : n.exchange.Round (Sharer.classOf ν) src y) :
    ∃ y', (((n.exchange.hear source (.state m) (reportless before ++ reportless behind)).withOp
      (n.op.receiveState m).val).emit (n.op.receiveState m).out).Round (Sharer.classOf ν) src y' := by
  have htalk := talk_of_inFlight hi rfl
  have habout : m.About (Sharer.classOf ν) n.op.scope.classes :=
    (h.confined.inFlight (source, .state m) (hi ▸ by simp)).2
  obtain ⟨putMsg, hput, hcontent⟩ := m.exists_toPut (n.op.scope.ne_config habout.1)
  have hsource : n.op.currentSource = some src := hround.source
  unfold ShareOperation.receiveState
  rw [hput]
  cases hcons : n.op.consistency with
  | strong =>
      have hdsts : n.op.instancesExcludingSource = some (n.op.instances.erase src) := by
        rw [h.confined.op.excluding, hsource]
        rfl
      let chunk : StateChunk :=
        { n.op.stateChunks (n.op.obtainStateChunk m.hashkey) with
          msg := some m
          dsts := n.op.instancesExcludingSource }
      have hmsg : chunk.msg = some m := rfl
      obtain ⟨y', hround⟩ := hround.submit h.confined.exchange htalk hmsg hdsts rfl
      refine ⟨y', ?_⟩
      rw [Emit.pure_out, Exchange.emit_eq_self _ fun _ => rfl]
      exact hround
  | strict =>
      have hout : n.op.putState putMsg =
          (n.op.instances.erase src).map fun dst => .send dst (.put putMsg) := by
        rw [ShareOperation.putState, hsource, h.confined.nodup.erase_eq_filter]
        simp [bne, beq_eq_decide]
      have hputs : n.exchange.PutsOut src putMsg (n.op.putState putMsg) := by
        rw [hout]
        exact h.confined.exchange.putsOut src putMsg
      exact hround.put h.confined.exchange htalk hcontent hputs

omit [PacketUtil] [Charset] in
theorem Shares.receiveState (h : n.Shares) (hrun : n.op.failed = false) {m : StateMessage}
    (hi : n.inFlight = before ++ (source, .state m) :: behind) :
    Moves n ((record { n with inFlight := before ++ behind }
      (n.op.receiveState m)).note source (.state m)) (n.op.receiveState m).out := by
  have htalk := talk_of_inFlight hi rfl
  have habout : m.About (Sharer.classOf ν) n.op.scope.classes :=
    (h.confined.inFlight (source, .state m) (hi ▸ by simp)).2
  have hkeeps := h.confined.op.receiveState habout
  have hcourse : (n.op.receiveState m).val.course = n.op.course ∧
      (n.op.receiveState m).val.counters = n.op.counters ∧ ∀ e ∈ (n.op.receiveState m).out, ¬ e.Opens := by
    unfold ShareOperation.receiveState
    split
    · exact ⟨rfl, rfl, fun _ he => absurd he List.not_mem_nil⟩
    · split
      · exact ⟨rfl, rfl, fun _ he => absurd he List.not_mem_nil⟩
      · exact ⟨rfl, rfl, putState_opens n.op _⟩
  obtain ⟨hcourse, hcounters, hout⟩ := hcourse
  have hinst : (n.op.receiveState m).val.instances = n.op.instances :=
    congrArg (fun args => args.2.2.1) hkeeps.args
  have hscope : (n.op.receiveState m).val.scope = n.op.scope := congrArg (fun args => args.2.2.2) hkeeps.args
  simp only [ShareOperation.course, Prod.mk.injEq] at hcourse
  obtain ⟨hfin, -, hindex, hcalled, hpacket, hevents⟩ := hcourse
  refine h.hear hi hkeeps hfin hindex hout (exchange_deliver _ rfl) ?_
  cases h.stands with
  | enabling _ _ _ _ _ henabling => cases (henabling.hear htalk).1
  | round hcalled' hlast hopen hround =>
      obtain ⟨y', hround⟩ := h.receiveState_round hi hround
      refine .round (hcalled.trans hcalled') hlast (fun hfinished => hopen ?_) hround
      simp only [Exchange.Finished, Exchange.emit, Exchange.withOp, hcounters, hinst, hscope] at hfinished
      exact hfinished
  | released hfin' hcalled' hlast hpacket' hcalm =>
      exact .released (hfin.trans hfin') (hcalled.trans hcalled') hlast (hpacket.trans hpacket')
        (h.receiveState_calm hi hcalm)
  | waiting hfin' hcalled' hlast hevents' hcalm =>
      exact .waiting (hfin.trans hfin') (hcalled.trans hcalled') hlast (hevents.trans hevents')
        (h.receiveState_calm hi hcalm)
  | failed hfailed =>
      rw [hrun] at hfailed
      cases hfailed

/-- An event is noted, taken for the echo of the packet that is outstanding, or gives its packet back at once. -/
theorem Shares.receiveReprocess (h : n.Shares) (hrun : n.op.failed = false) {m : ReprocessMessage}
    (hi : n.inFlight = before ++ (source, .reprocess m) :: behind)
    (hplace : ∀ packet, ShareOperation.flagged m = .ok packet → n.op.lastPacket = some packet →
      outstanding n.log = some packet) :
    Moves n ((record { n with inFlight := before ++ behind }
      (n.op.receiveReprocess m source)).note source (.reprocess m)) (n.op.receiveReprocess m source).out := by
  have hsource : source ∈ n.op.instances := (h.confined.inFlight (source, .reprocess m) (hi ▸ by simp)).1
  have hkeeps := h.confined.op.receiveReprocess m hsource
  have hx := fun r => @exchange_report ν n before behind source (.reprocess m) hi rfl r
  have hself : n.exchange.withOp n.op = n.exchange := rfl
  rcases n.op.receiveReprocess_cases m source with ⟨e, -, he⟩ | ⟨packet, hpacket, ⟨hfin, he⟩ |
    ⟨hfin, hlast, op', rfl, he⟩ | ⟨hfin, hlast, op', rfl, he⟩⟩
  · rw [he] at hkeeps ⊢
    refine h.hear hi hkeeps rfl rfl (fun e' he' => ?_) (hx _) ?_
    · rw [List.mem_singleton.mp he']
      exact id
    · rw [Exchange.emit_eq_self _ fun _ => rfl]
      exact h.stands
  · rw [he] at hkeeps ⊢
    refine h.hear hi hkeeps rfl rfl (fun _ he' => absurd he' List.not_mem_nil) (hx _) ?_
    rw [Exchange.emit_eq_self _ fun _ => rfl]
    cases h.stands with
    | enabling hfirst hfin hcalled hlast hacks henabling =>
        exact .enabling hfirst hfin hcalled hlast hacks henabling
    | round hcalled hlast hopen hround => exact .round hcalled hlast hopen hround
    | released hfin' | waiting hfin' =>
        rw [hfin] at hfin'
        cases hfin'
    | failed hfailed => exact .failed hfailed
  · have hlog := hplace packet hpacket hlast
    have hreleased : n.op.callFromReprocess = false ∧ n.exchange.Calm := by
      cases h.stands with
      | enabling _ _ _ hlast' | round _ hlast' | waiting _ _ hlast' =>
          rw [hlog] at hlast'
          cases hlast'
      | released _ hcalled _ _ hcalm => exact ⟨hcalled, hcalm⟩
      | failed hfailed =>
          rw [hrun] at hfailed
          cases hfailed
    obtain ⟨hcalled, hcalm⟩ := hreleased
    rcases he with ⟨e, -, he⟩ | ⟨fields, -, he⟩ <;> rw [he] at hkeeps ⊢
    · refine h.hear hi hkeeps rfl rfl (fun e' he' => ?_) (hx _) ?_
      · rw [List.mem_singleton.mp he']
        exact id
      · rw [Exchange.emit_eq_self _ fun _ => rfl]
        exact .released hfin hcalled hlog hlast { hcalm with }
    · have hkey : source ∈ ({ n.op with
          originalEvents := n.op.originalEvents.remove (Charset.newString packet)
          key := .fromOFMatch fields } : ShareOperation).instances := hsource
      refine h.opens hi hkeeps (hx _) ?_
      exact ShareOperation.begins_round hkey h.index h.synced hcalled h.serial { hcalm with } rfl
  · rcases he with ⟨hcalled, he⟩ | ⟨hcalled, he⟩ <;> rw [he] at hkeeps ⊢
    · refine h.hear hi hkeeps rfl rfl (fun _ he' => absurd he' List.not_mem_nil) (hx _) ?_
      rw [Exchange.emit_eq_self _ fun _ => rfl]
      cases h.stands with
      | enabling hfirst hfin hcalled hlast hacks henabling =>
          exact .enabling hfirst hfin hcalled hlast hacks henabling
      | round hcalled hlast hopen hround => exact .round hcalled hlast hopen hround
      | released hfin hcalled hlast hpacket' hcalm => exact .released hfin hcalled hlast hpacket' { hcalm with }
      | waiting _ hcalled' =>
          rw [hcalled] at hcalled'
          cases hcalled'
      | failed hfailed => exact .failed hfailed
    · have hwaiting : outstanding n.log = none ∧ n.exchange.Calm := by
        cases h.stands with
        | enabling _ _ hcalled' | round hcalled' | released _ hcalled' =>
            rw [hcalled] at hcalled'
            cases hcalled'
        | waiting _ _ hlast' _ hcalm => exact ⟨hlast', hcalm⟩
        | failed hfailed =>
            rw [hrun] at hfailed
            cases hfailed
      refine h.opens hi hkeeps (hx _) ?_
      exact ShareOperation.begins_dequeueEvent hfin (h.synced hfin) rfl h.serial hwaiting.1 { hwaiting.2 with }

end Deliver

/-! ## Steps -/

/-- A network function answers with events only. -/
theorem Shares.reports (h : n.Shares) {n₀ : Network ShareOperation ν} (hx : n₀.exchange = n.exchange)
    (hop : n₀.op = n.op) (hlog : n₀.log = n.log) {mb : Middlebox} {r : ν × List Message}
    (hr : ∀ msg ∈ r.2, ∃ m, msg = .reprocess m) (hc : (n₀.answer mb r).Confined) :
    Moves n (n₀.answer mb r) [] := by
  have hreport : ∀ msg ∈ r.2, msg.isReport = true := by
    intro msg hmsg
    obtain ⟨m, rfl⟩ := hr msg hmsg
    rfl
  have hop' : (n₀.answer mb r).op = n.op := hop
  refine h.goes hc (congrArg _ hop') (congrArg _ hop') (congrArg _ hop') (hlog.trans (List.append_nil _).symm)
    (fun _ he => absurd he List.not_mem_nil) ?_
  rw [exchange_answer hreport, hx, hop']
  exact h.stands

/-- A task of a share with one instance puts its chunk nowhere. -/
theorem Shares.task_calm (h : n.Shares) {i : Nat} {ref : ChunkRef}
    (hi : n.op.threadPool[i]? = some (.chunk ref)) (hcalm : n.exchange.Calm) :
    (({ n.exchange with base := { n.exchange.base with threadPool := n.exchange.base.threadPool.eraseIdx i } } :
      Exchange).emit (n.op.stateChunks ref).call.out).Calm := by
  have hsingle : ¬ 2 ≤ n.op.instances.length := by
    intro hn
    have hpool : n.op.threadPool = [] := (hcalm.still hn).2
    rw [hpool] at hi
    cases hi
  have hout : (n.op.stateChunks ref).call.out = [] := by
    refine List.eq_nil_iff_forall_not_mem.mpr fun e he => ?_
    obtain ⟨_, dsts, _, dst, _, hdsts, hdst, -, -⟩ := call_puts he
    obtain ⟨src, hsrc, rfl⟩ := h.confined.op.dsts ref dsts hdsts
    have heq := Exchange.eq_of_single hsingle (List.mem_of_mem_erase hdst) hsrc
    exact (h.confined.nodup.not_mem_erase) (heq ▸ hdst)
  rw [hout, Exchange.emit_eq_self _ fun _ => rfl]
  exact hcalm.task hi

variable [PacketUtil] [Charset]

omit [Sharer ν ι] [Charset] in
theorem InPlace.atInstances (h : n.InPlace a) : n.AtInstances a := by
  cases a with
  | stimulus mb x => exact h
  | _ => trivial

/-- Each step, where echoes are in their place. -/
theorem Shares.step (h : n.Shares) (hat : n.InPlace a) (hs : n.step a = some n') : ∃ out, Moves n n' out := by
  obtain ⟨hc, hargs⟩ := h.confined.step hat.atInstances hs
  cases a with
  | read mb =>
      obtain ⟨cmd, rest, hw, rfl⟩ := step_read hs
      have hans := Sharer.answers (n.nf mb) cmd
      have hx := @exchange_read ν n mb rest
        (NetworkFunction.command (n.nf mb) cmd)
        fun msg hmsg => (hans.about (h.confined.wire mb cmd (hw ▸ List.mem_cons_self ..)).2 msg hmsg).2
      have hbusy : ¬ n.exchange.Calm := by
        intro hcalm
        rw [show n.wire mb = [] from hcalm.wire mb] at hw
        cases hw
      refine ⟨[], h.goes hc rfl rfl rfl (List.append_nil _).symm (fun _ he => absurd he List.not_mem_nil) ?_⟩
      rw [hx]
      cases h.stands with
      | enabling hfirst hfin hcalled hlast hacks henabling =>
          have htoggle := henabling.wire mb cmd (by rw [show n.exchange.wire mb = _ from hw]; simp)
          rw [Sharer.command_toggle _ _ htoggle]
          exact .enabling hfirst hfin hcalled hlast hacks (henabling.read h.confined.exchange hw)
      | round hcalled hlast hopen hround =>
          obtain ⟨y', hround⟩ := hround.read h.confined.exchange hw hans
          exact .round hcalled hlast hopen hround
      | released _ _ _ _ hcalm => exact absurd hcalm hbusy
      | waiting _ _ _ _ hcalm => exact absurd hcalm hbusy
      | failed hfailed => exact .failed hfailed
  | deliver sched i =>
      obtain ⟨source, msg, before, behind, hi, -, hmem, ⟨hf, rfl⟩ | ⟨hf, rfl⟩⟩ := step_deliver hs
      · refine ⟨[], h.goes hc rfl rfl rfl (List.append_nil _).symm (fun _ he => ?_) (.failed hf)⟩
        cases he
      · cases msg with
        | state m => exact ⟨_, h.receiveState hf hi⟩
        | getAck cls count => exact ⟨_, h.receiveGetAck hf hi⟩
        | putAck cls hashkey => exact ⟨_, h.receivePutAck hf hi⟩
        | eventsAck => exact ⟨_, h.receiveEventsAck hf hi⟩
        | reprocess m =>
            refine ⟨_, h.receiveReprocess hf hi fun packet hpacket => ?_⟩
            exact hat _ (reported_of_event hmem hpacket)
  | stimulus mb x =>
      obtain ⟨r, hr, rfl⟩ := step_stimulus hs
      exact ⟨[], h.reports rfl rfl rfl (Sharer.stimulus_reprocess _ x r hr) hc⟩
  | forward i =>
      obtain ⟨mb, packet, before, behind, hp, rfl⟩ := step_forward hs
      exact ⟨[], @Shares.reports ν ι _ n h { n with packets := before ++ behind } rfl rfl rfl _ _
        (Sharer.packet_reprocess _ packet) hc⟩
  | packetIn packet inSwitch inPort =>
      cases step_packetIn hs
      refine ⟨[], h.goes hc rfl rfl rfl rfl (fun _ he => absurd he List.not_mem_nil) ?_⟩
      rw [exchange_record, Exchange.emit_eq_self _ fun _ => rfl]
      exact h.stands
  | task i =>
      obtain ⟨task, hi, rfl⟩ := step_task hs
      have hi : n.op.threadPool[i]? = some task := hi
      obtain ⟨ref, rfl⟩ := h.confined.op.pool task (List.mem_of_getElem? hi)
      have hout : ∀ e ∈ (n.op.stateChunks ref).call.out, ¬ e.Opens := by
        intro e he
        obtain ⟨_, _, putMsg, _, _, _, _, _, rfl⟩ := call_puts he
        exact fun hopens => hopens rfl
      refine ⟨_, h.goes hc rfl rfl rfl rfl hout ?_⟩
      rw [exchange_record]
      cases h.stands with
      | enabling hfirst hfin hcalled hlast hacks henabling =>
          have hpool : n.op.threadPool = [] := henabling.pool
          rw [hpool] at hi
          cases hi
      | round hcalled hlast hopen hround =>
          obtain ⟨y', hround⟩ := hround.task h.confined.exchange hi
          exact .round hcalled hlast hopen hround
      | released hfin hcalled hlast hpacket hcalm =>
          exact .released hfin hcalled hlast hpacket (h.task_calm hi hcalm)
      | waiting hfin hcalled hlast hevents hcalm =>
          exact .waiting hfin hcalled hlast hevents (h.task_calm hi hcalm)
      | failed hfailed => exact .failed hfailed

end Network

end OFM.Controller
