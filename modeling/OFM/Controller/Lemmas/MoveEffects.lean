import OFM.Controller.Lemmas.Move

/-!
# What a move emits

Every effect of a handler of a move, with the reason for it: the state before, the message, and the
state after.
-/

namespace OFM.Controller.MoveOperation
open OFM.Lib MoveArguments

theorem get_of_mem_issueGet {op : MoveOperation} {e : Effect} (h : e ∈ op.issueGet.out) :
    ∃ cmd cls, e = .send op.src cmd ∧ cmd.getClass = some cls := by
  unfold issueGet at h
  simp only [Emit.emit_out, List.mem_append] at h
  rcases h with h | h <;> split at h <;> cases h <;> first
    | contradiction
    | exact ⟨_, _, rfl, rfl⟩

/-- What a move sends when it is executed: a filter for the events of `src`, or the gets. -/
theorem send_of_mem_execute {op : MoveOperation} {e : Effect} (h : e ∈ op.execute.out) :
    e = .send op.src (.enableEvents op.id op.key .drop) ∨
      ∃ cmd cls, e = .send op.src cmd ∧ cmd.getClass = some cls := by
  unfold execute at h
  split at h
  · exact Or.inl (by simpa [enableEventGeneration] using h)
  · exact Or.inr (get_of_mem_issueGet h)

variable [PacketUtil]

/-- Why a move emits an effect while it handles a message. -/
inductive Emits (op : MoveOperation) (source : Middlebox) (msg : Message) (after : MoveOperation) :
    Effect → Prop
  | event {event sw packet} : Emits op source msg after (.eventOut event sw packet)
  | put {mb putMsg cls count} (hm : msg = .getAck cls count) :
      Emits op source msg after (.send mb (.put putMsg))
  | get {cmd cls} (hm : msg = .eventsAck) (hs : source = op.src) (hget : cmd.getClass = some cls) :
      Emits op source msg after (.send op.src cmd)
  | route {sw} (hg : op.guarantee ≠ .orderPreserving) (hc : after.completed = true)
      (hroute : op.Routable) (hsw : op.dst.sw = some sw) :
      Emits op source msg after (.installRule sw op.inPort [op.dst.switchPort] op.key)
  | buffer (hg : op.guarantee = .orderPreserving) (hc : after.completed = true) :
      Emits op source msg after (.send op.dst (.enableEvents op.id op.key .buffer))
  | disable {m last} (hm : msg = .reprocess m) (hs : source ≠ op.src)
      (hl : op.lastPacket = some last)
      (hp : PacketUtil.setFlag (ReprocessEvent.base64Decode m.packet) PacketUtil.flagNone =
        .ok (some last)) :
      Emits op source msg after (.send op.dst (.disableEvents op.id op.key))
  | finishRouted (hm : msg.isAck = true)
      (hb : op.buffersStates → ∃ cls hashkey, msg = .putAck cls hashkey)
      (hg : op.guarantee ≠ .orderPreserving) (hc : after.completed = true) (hroute : ¬ op.RouteThrows) :
      Emits op source msg after .operationFinished
  | finishAcked (hm : msg = .eventsAck) (hs : source ≠ op.src) (hb : op.bufferingEnabled = true) :
      Emits op source msg after .operationFinished
  | fail (hg : op.guarantee = .orderPreserving) : Emits op source msg after .operationFailed
  | thrown {e} : Emits op source msg after (.thrown e)

variable {op : MoveOperation} {sched : Schedule} {source : Middlebox} {msg : Message} {e : Effect}

theorem event_of_mem_sent {events : List ReprocessEvent} {after : MoveOperation}
    (h : e ∈ events.flatMap ReprocessEvent.sent) : Emits op source msg after e := by
  obtain ⟨event, -, sw, packet, rfl⟩ := eventOut_of_mem_flatMap_sent h
  exact .event

theorem checkIfStateMoved_completed (op : MoveOperation) (sched : Schedule) :
    (op.checkIfStateMoved sched).val.completed = op.completed := by
  have hscope : (op.checkIfStateMoved sched).val.scope = op.scope :=
    congrArg (fun u => u.1.1.scope) (checkIfStateMoved_frame op sched)
  rw [completed, completed, checkIfStateMoved_counters, hscope]

theorem emits_of_mem_check (hmsg : msg.isAck = true)
    (hb : op.buffersStates → ∃ cls hashkey, msg = .putAck cls hashkey)
    (h : e ∈ (op.checkIfStateMoved sched).out) :
    Emits op source msg (op.checkIfStateMoved sched).val e := by
  have hafter := checkIfStateMoved_completed op sched
  rcases op.checkIfStateMoved_cases sched with
    ⟨-, he⟩ | ⟨hc, hg, -, he⟩ | ⟨hc, hg, pre, event, rest, -, -, he⟩ | ⟨hc, hg, rules, hrules, he⟩ |
    ⟨-, -, x, -, he⟩
  · rw [he] at h; cases h
  · simp only [he, List.mem_cons] at h
    rcases h with rfl | h
    · exact .buffer hg (hafter.trans hc)
    · exact event_of_mem_sent h
  · simp only [he, List.mem_cons, List.mem_append, List.not_mem_nil, or_false] at h
    rcases h with rfl | h | rfl
    · exact .buffer hg (hafter.trans hc)
    · exact event_of_mem_sent h
    · exact .fail hg
  · simp only [he, List.mem_append, List.mem_singleton] at h
    rcases h with h | h | rfl
    · obtain ⟨sw, hsw, hroute, rfl⟩ := mem_updateForwardingToDst hrules h
      exact .route hg (hafter.trans hc) hroute hsw
    · exact event_of_mem_sent h
    · exact .finishRouted hmsg hb hg (hafter.trans hc) (not_routeThrows_iff.mpr ⟨rules, hrules⟩)
  · rw [he, List.mem_singleton] at h
    subst h
    exact .thrown

/-- The reasons only look at the arguments and at what no handler writes before it emits. -/
theorem Emits.congr {op' after : MoveOperation} (h : Emits op' source msg after e)
    (hargs : op'.toMoveArguments = op.toMoveArguments) (hid : op'.id = op.id)
    (hlast : op'.lastPacket = op.lastPacket) (hbuf : op'.bufferingEnabled = op.bufferingEnabled) :
    Emits op source msg after e := by
  cases h with
  | event => exact .event
  | put hm => exact .put hm
  | get hm hs hget => rw [hargs] at hs ⊢; exact .get hm hs hget
  | route hg hc hroute hsw => rw [hargs] at hg hroute hsw ⊢; exact .route hg hc hroute hsw
  | buffer hg hc => rw [hargs] at hg; rw [hargs, hid]; exact .buffer hg hc
  | disable hm hs hl hp =>
      rw [hargs] at hs; rw [hlast] at hl; rw [hargs, hid]
      exact .disable hm hs hl hp
  | finishRouted hm hb hg hc hroute =>
      rw [hargs] at hb hg hroute
      exact .finishRouted hm hb hg hc hroute
  | finishAcked hm hs hb =>
      rw [hargs] at hs; rw [hbuf] at hb
      exact .finishAcked hm hs hb
  | fail hg => rw [hargs] at hg; exact .fail hg
  | thrown => exact .thrown

theorem emits_of_mem_putAck {cls : StateClass} {hashkey hashkey' : Int}
    (h : e ∈ (op.receivePutAckOf sched hashkey).out) :
    Emits op source (.putAck cls hashkey') (op.receivePutAckOf sched hashkey).val e := by
  obtain ⟨_, _, rfl, rfl, ⟨-, op', hop', he⟩ | ⟨_, _, _, _, -, -, he⟩⟩ :=
    op.receivePutAckOf_cases sched hashkey
  · rw [he] at h ⊢
    rcases List.mem_append.mp h with h | h
    · exact event_of_mem_sent h
    · exact (emits_of_mem_check rfl (fun _ => ⟨_, _, rfl⟩) h).congr (by rw [hop']; rfl) (by rw [hop']; rfl)
        (by rw [hop']; rfl) (by rw [hop']; rfl)
  · rw [he] at h ⊢
    simp only [List.mem_append, List.mem_singleton] at h
    rcases h with h | rfl
    · exact event_of_mem_sent h
    · exact .thrown

theorem emits_of_mem_getAck {cls other cls' : StateClass} {count count' : Int}
    (h : e ∈ (op.receiveGetAckOf sched cls other count).out) :
    Emits op source (.getAck cls' count') (op.receiveGetAckOf sched cls other count).val e := by
  unfold receiveGetAckOf at h ⊢
  dsimp only at h ⊢
  split
  · rename_i hb
    rw [if_pos hb] at h
    split
    · rename_i hw; rw [if_pos hw] at h; cases h
    · rename_i hw
      rw [if_neg hw] at h
      obtain ⟨ref, -, hm⟩ := List.mem_flatMap.mp h
      obtain ⟨mb, putMsg, rfl⟩ := StateChunk.put_of_mem_call hm
      exact .put rfl
  · rename_i hb
    rw [if_neg hb] at h
    have hput : op.buffersStates → ∃ cls hashkey, Message.getAck cls' count' = .putAck cls hashkey :=
      fun hb' => absurd hb' hb
    exact (emits_of_mem_check rfl (by exact hput) h).congr rfl rfl rfl rfl

theorem emits_of_mem_eventsAck {after : MoveOperation} (h : e ∈ (op.receiveEventsAck source).out) :
    Emits op source .eventsAck after e := by
  rcases op.receiveEventsAck_cases source with ⟨hs, he⟩ | ⟨-, -, he⟩ | ⟨hs, hb, he⟩
  · rw [he] at h
    obtain ⟨cmd, cls, rfl, hget⟩ := get_of_mem_issueGet h
    exact .get rfl hs hget
  · rw [he] at h
    cases List.mem_singleton.mp h
    exact .thrown
  · rw [he] at h
    cases List.mem_singleton.mp h
    exact .finishAcked rfl hs hb

theorem emits_of_mem_reprocess {m : ReprocessMessage} {after : MoveOperation}
    (h : e ∈ (op.receiveReprocess m source).out) : Emits op source (.reprocess m) after e := by
  unfold receiveReprocess at h
  split at h
  · cases h
  · split at h
    · unfold receiveSrcReprocess at h
      dsimp only at h
      split at h
      · cases h
      · split at h
        · cases h
        · split at h
          · cases h
          · rename_i hack
            simp only [StateChunk.receivedReprocess, hack, Bool.false_eq_true, ↓reduceIte] at h
            cases h
    · rename_i hs
      unfold receiveDstReprocess at h
      split at h
      · cases h
      · rename_i last hl
        split at h
        · cases List.mem_singleton.mp h; exact .thrown
        · rename_i packet hp
          split at h
          · rename_i heq
            cases List.mem_singleton.mp h
            exact .disable rfl hs hl (hp.trans (by rw [heq]))
          · cases h

/-- Whatever a handler of a move emits, it has a reason to. -/
theorem emits_of_mem_receive (h : e ∈ (receive sched source msg op).out) :
    Emits op source msg (receive sched source msg op).val e := by
  cases msg with
  | state msg => cases msg <;> simp only [receive, receiveState, receiveStateMessage] at h <;>
      (try split at h) <;> cases h
  | getAck cls count =>
      cases cls with
      | perflow => exact emits_of_mem_getAck h
      | multiflow => exact emits_of_mem_getAck h
      | allflows => cases h
      | config => cases h
  | putAck cls hashkey =>
      cases cls with
      | perflow => exact (emits_of_mem_putAck h).congr rfl rfl rfl rfl
      | multiflow => exact (emits_of_mem_putAck h).congr rfl rfl rfl rfl
      | allflows => cases h
      | config => cases h
  | eventsAck => exact emits_of_mem_eventsAck h
  | reprocess m => exact emits_of_mem_reprocess h

end OFM.Controller.MoveOperation
