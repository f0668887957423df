import OFM.Controller.Theorems.OrderPreserving
import OFM.Controller.Transfer

/-!
# Events that are released once

A move with a guarantee as a relay of the events of `src` that loses none of them and lets none out twice: when each
event can be let out, and no ack is handled once the list of the events has been let out.
-/

namespace OFM.Controller
open OFM.Lib OFM.Lib.Relay

/-- The input is an ack. -/
def Input.isAck : Input → Bool
  | .message _ _ msg => msg.isAck
  | _ => false

section Release

variable [PacketUtil] {event : ReprocessEvent} {events : List ReprocessEvent}

/-- The event goes out through the switch when it is called. -/
def ReprocessEvent.GoesOut (event : ReprocessEvent) : Prop := event.sendDirect = false ∧ event.Releases

theorem ReprocessEvent.GoesOut.eventsOut_sent (h : event.GoesOut) : eventsOut event.sent = [event] := by
  obtain ⟨hd, out, hcall⟩ := h
  obtain ⟨sw, packet, rfl⟩ := event.call_viaSwitch hd hcall
  rw [ReprocessEvent.sent_of_call hcall]
  rfl

theorem released_eq (h : ∀ event ∈ events, event.GoesOut) : released events = events := by
  induction events with
  | nil => rfl
  | cons event events ih =>
      obtain ⟨hevent, hrest⟩ := List.forall_mem_cons.mp h
      rw [released, List.flatMap_cons, eventsOut_append, hevent.eventsOut_sent]
      exact congrArg (event :: ·) (ih hrest)

theorem ReprocessMessage.Deliverable.goesOut {args : MoveArguments} {msg : ReprocessMessage}
    (h : msg.Deliverable args.dst) (n : Nat) : (MoveOperation.srcEvent args n msg).GoesOut := by
  obtain ⟨hsw, hpacket⟩ := h
  exact ⟨rfl, (ReprocessEvent.releases_iff rfl).mpr ⟨hpacket, hsw⟩⟩

end Release

namespace MoveOperation

namespace EventState

/-- What waits at a place: the list of a move that is not order-preserving is not cleared when it is let out. -/
def kept (st : EventState) : Place → List ReprocessEvent
  | .list => if st.immediate then [] else st.list
  | p => st.queueAt p

theorem kept_of_ne (st : EventState) {p : Place} (h : p ≠ .list) : st.kept p = st.queueAt p := by
  cases p with
  | list => exact absurd rfl h
  | pool => rfl
  | chunk ref => rfl

theorem kept_list (st : EventState) (h : st.immediate = true → st.list = []) : st.kept .list = st.list := by
  rw [kept]
  split
  · rename_i hi
    exact (h hi).symm
  · rfl

theorem kept_pool (st : EventState) (pool : List ReprocessEvent) :
    ({ st with pool := pool } : EventState).kept = Function.update st.kept .pool pool := by
  funext p
  cases p <;> simp [kept, queueAt]

theorem kept_ackChunk (st : EventState) (ref : ChunkRef) (rest : List ReprocessEvent) :
    (st.ackChunk ref rest).kept = Function.update st.kept (.chunk ref) rest := by
  funext p
  by_cases hp : p = .list
  · subst hp
    rw [Function.update_of_ne (by simp)]
    rfl
  · rw [kept_of_ne _ hp, queueAt_ackChunk]
    by_cases hq : p = .chunk ref
    · subst hq
      simp
    · rw [Function.update_of_ne hq, Function.update_of_ne hq, kept_of_ne _ hp]

/-- The list has been let out. -/
theorem kept_immediate (st : EventState) (list : List ReprocessEvent) :
    ({ st with list := list, immediate := true } : EventState).kept = Function.update st.kept .list [] := by
  funext p
  cases p <;> simp [kept, queueAt]

theorem kept_arrive (st : EventState) (early : Prop) [Decidable early] (ref : ChunkRef) (event : ReprocessEvent) :
    (st.arrive early ref event).kept =
      Function.update st.kept (st.place early ref) (st.kept (st.place early ref) ++ [event]) := by
  funext p
  have hqueue := congrFun (st.queueAt_arrive early ref event) p
  by_cases hp : p = .list
  · subst hp
    have himm := st.arrive_immediate early ref event
    have hlist : (st.arrive early ref event).list = (st.arrive early ref event).queueAt .list := rfl
    by_cases hplace : Place.list = st.place early ref
    · have hno : st.immediate = false := by
        by_contra hi
        rw [place, if_pos (eq_true_of_ne_false hi)] at hplace
        cases hplace
      rw [hplace, Function.update_self] at hqueue ⊢
      rw [← hplace] at hqueue ⊢
      rw [kept, kept, himm, hno, hlist, hqueue]
      rfl
    · rw [Function.update_of_ne hplace] at hqueue ⊢
      rw [kept, himm, hlist, hqueue]
      rfl
  · rw [kept_of_ne _ hp, hqueue]
    by_cases hplace : p = st.place early ref
    · subst hplace
      rw [Function.update_self, Function.update_self, kept_of_ne _ hp]
    · rw [Function.update_of_ne hplace, Function.update_of_ne hplace, kept_of_ne _ hp]

theorem arrive_acked (st : EventState) (early : Prop) [Decidable early] (ref : ChunkRef) (event : ReprocessEvent) :
    (st.arrive early ref event).acked = st.acked := by
  unfold arrive
  dsimp only
  split
  · rfl
  · split
    · rfl
    · split <;> rfl

theorem of_place_eq_chunk {st : EventState} {early : Prop} [Decidable early] {ref ref' : ChunkRef}
    (h : st.place early ref = .chunk ref') : ref = ref' ∧ early ∧ st.acked ref' = false := by
  unfold place at h
  split at h
  · cases h
  · split at h
    · cases h
    · rename_i hearly
      split at h
      · cases h
      · rename_i hacked
        cases h
        exact ⟨rfl, not_not.mp hearly, eq_false_of_ne_true hacked⟩

end EventState

/-! ## The account -/

/-- The move as a relay that accounts for all events of `src`. Only under early release events wait with their
chunks, until these are acked. -/
structure Accounts [PacketUtil] (args : MoveArguments) (st : EventState) (outs arrived : List ReprocessEvent)
    (r : Relay Place ReprocessEvent) : Prop where
  arrived_eq : r.arrived = arrived
  out_eq : r.out = outs
  queues : ∀ p, st.kept p = queue p r.waiting
  count : st.count = arrived.length
  accounted : r.Accounted
  goesOut : ∀ event ∈ arrived, event.GoesOut
  cleared : args.guarantee = .orderPreserving → st.immediate = true → st.list = []
  filed : ∀ ref, st.queue ref ≠ [] → args.optimization = .pzLlEr ∧ st.acked ref = false

namespace Accounts

variable [PacketUtil] {args : MoveArguments} {st st' : EventState} {outs arrived : List ReprocessEvent}
  {r : Relay Place ReprocessEvent} {op : MoveOperation} {called : List ReprocessEvent}

/-- What waits has arrived. -/
theorem waits (h : Accounts args st outs arrived r) (p : Place) : ∀ event ∈ st.kept p, event.GoesOut := by
  intro event hmem
  rw [h.queues] at hmem
  refine h.goesOut event (h.arrived_eq ▸ h.accounted.subset ?_)
  exact List.mem_append_right _ (List.mem_map_of_mem (mem_queue.mp hmem))

/-- A place lets some of its events out. -/
theorem advance (h : Accounts args st outs arrived r) {p : Place} {rest : List ReprocessEvent}
    (hq : (st.kept p).Perm (called ++ rest)) (hst : st'.kept = Function.update st.kept p rest)
    (hcount : st'.count = st.count)
    (hcleared : args.guarantee = .orderPreserving → st'.immediate = true → st'.list = [])
    (hfiled : ∀ ref, st'.queue ref ≠ [] → args.optimization = .pzLlEr ∧ st'.acked ref = false) :
    Accounts args st' (outs ++ released called) arrived (r.advance p rest called) := by
  have hout : released called = called :=
    released_eq fun event hmem => h.waits p event (hq.symm.subset (List.mem_append_left _ hmem))
  rw [h.queues] at hq
  have hwaiting : r.waiting.Perm
      (called.map (fun e => (p, e)) ++ (rest.map (fun e => (p, e)) ++ others p r.waiting)) := by
    rw [← List.append_assoc, ← List.map_append]
    exact perm_queue_append_others.symm.trans ((hq.map _).append_right _)
  refine ⟨h.arrived_eq, by rw [hout, ← h.out_eq]; rfl, fun q => ?_, hcount.trans h.count,
    h.accounted.serve hwaiting (by simp [Function.comp_def]), h.goesOut, hcleared, hfiled⟩
  rw [hst, queue_advance]
  by_cases hqp : q = p
  · subst hqp
    simp
  · simp [hqp, h.queues]

/-- An event of `src` arrives. -/
theorem arrive (h : Accounts args st outs arrived r) {ref : ChunkRef} {event : ReprocessEvent}
    (hevent : event.GoesOut) :
    Accounts args (st.arrive (args.optimization = .pzLlEr) ref event) outs (arrived ++ [event])
      (r.arrive (st.place (args.optimization = .pzLlEr) ref) event) := by
  refine ⟨by rw [← h.arrived_eq]; rfl, h.out_eq, fun p => ?_, ?_, h.accounted.arrive _ _, ?_, ?_, ?_⟩
  · rw [EventState.kept_arrive, h.queues]
    by_cases hp : p = st.place (args.optimization = .pzLlEr) ref
    · subst hp
      simp [Relay.arrive]
    · simp [Relay.arrive, hp, queue_cons_of_ne (Ne.symm hp), h.queues]
  · rw [EventState.arrive_count, h.count, List.length_append, List.length_singleton]
  · exact List.forall_mem_append.mpr ⟨h.goesOut, List.forall_mem_singleton.mpr hevent⟩
  · intro hord hi
    rw [EventState.arrive_immediate] at hi
    have hlist : (st.arrive (args.optimization = .pzLlEr) ref event).list = st.list := by
      rw [EventState.arrive, if_pos (show _ = true from hi)]
    exact hlist.trans (h.cleared hord hi)
  · intro ref' hne
    rw [EventState.arrive_acked]
    by_cases hplace : Place.chunk ref' = st.place (args.optimization = .pzLlEr) ref
    · obtain ⟨rfl, hearly, hacked⟩ := EventState.of_place_eq_chunk hplace.symm
      exact ⟨hearly, hacked⟩
    · have hqueue := congrFun (st.queueAt_arrive (args.optimization = .pzLlEr) ref event) (.chunk ref')
      rw [Function.update_of_ne hplace] at hqueue
      have hsame : (st.arrive (args.optimization = .pzLlEr) ref event).queue ref' = st.queue ref' := hqueue
      rw [hsame] at hne
      exact h.filed ref' hne

/-- A check lets all events of the list out, if they have not been let out before. -/
theorem checked (h : Accounts args st outs arrived r) (hargs : op.toMoveArguments = args) (hev : op.events = st)
    (hlist : st.immediate = true → st.list = []) (hc : Checked op st' called) :
    ∃ r', Accounts args st' (outs ++ released called) arrived r' := by
  subst hargs hev
  have hkept := EventState.kept_list _ hlist
  cases hc with
  | notYet _ | threw _ _ _ =>
      refine ⟨r, ?_⟩
      rw [show released [] = [] from rfl, List.append_nil]
      exact h
  | inOrder _ _ _ =>
      have hq : (op.events.kept .list).Perm (op.eventsList ++ []) := by
        rw [hkept, List.append_nil]
        exact .refl _
      exact ⟨_, h.advance hq (EventState.kept_immediate _ _) rfl (fun _ _ => rfl) h.filed⟩
  | @stopped pre event rest _ _ hl hn =>
      have hmem : event ∈ op.events.kept .list := by
        rw [hkept, show op.events.list = _ from hl]
        exact List.mem_append_right _ List.mem_cons_self
      exact absurd (h.waits _ event hmem).2 hn
  | atOnce _ hg hp =>
      have hq : (op.events.kept .list).Perm (called ++ []) := by
        rw [hkept, List.append_nil]
        exact hp.symm
      exact ⟨_, h.advance hq (EventState.kept_immediate _ _) rfl (fun hord => absurd hord hg) h.filed⟩

/-- A further check lets the events of the list out again, and changes nothing else. -/
theorem checked_again (h : Accounts args st outs arrived r) (hargs : op.toMoveArguments = args) (hev : op.events = st)
    (hi : st.immediate = true) (hne : st.list ≠ []) (hc : Checked op st' called) : st' = st := by
  subst hargs hev
  cases hc with
  | notYet _ | threw _ _ _ => rfl
  | inOrder _ hord _ => exact absurd (h.cleared hord hi) hne
  | stopped _ hord _ _ => exact absurd (h.cleared hord hi) hne
  | atOnce _ _ _ => rw [← hi]

end Accounts

/-! ## Runs -/

/-- An event of `src` can be let out, and no ack is handled once the list of the events has been let out, unless it is
empty. -/
def Releasable [PacketUtil] (s : Session MoveOperation) (a : Input) : Prop :=
  s.op.failed = false →
    (∀ sched msg, a = .message sched s.op.src (.reprocess msg) → msg.Deliverable s.op.dst) ∧
    (a.isAck = true → s.op.guarantee = .lossFree → s.op.immediateRelease = true → s.op.eventsList = [])

section Run

variable [PacketUtil] {id : Int} {args : MoveArguments} {as : List Input} {s s' : Session MoveOperation} {a : Input}

/-- Only acks let the list out: any other input lets no event out, or takes it from the pool. -/
theorem eventsOut_of_not_ack (hs : s.step a = some s') (hack : a.isAck = false) :
    eventsOut s'.log = eventsOut s.log ∨ s'.op.events.pool.length < s.op.events.pool.length := by
  cases a with
  | message sched source msg =>
      left
      rcases Session.step_message hs with ⟨-, rfl⟩ | ⟨-, rfl⟩
      · rfl
      · have hout : eventsOut (receive sched source msg s.op).out = [] := by
          cases msg with
          | state msg => exact eventsOut_receiveState s.op msg
          | getAck cls count => cases hack
          | putAck cls hashkey => cases hack
          | eventsAck => exact eventsOut_receiveEventsAck s.op source
          | reprocess msg => exact eventsOut_receiveReprocess s.op msg source
        rw [Session.note, Session.record, eventsOut_append]
        exact (congrArg (eventsOut s.log ++ ·) hout).trans (List.append_nil _)
  | packet packet inSwitch inPort =>
      left
      cases Session.step_packet hs
      rw [Session.record, eventsOut_append]
      exact (congrArg (eventsOut s.log ++ ·) (eventsOut_receivePacket s.op packet inSwitch inPort)).trans
        (List.append_nil _)
  | task i =>
      obtain ⟨task, ht, rfl⟩ := Session.step_task hs
      cases task with
      | chunk ref =>
          left
          rw [Session.record, eventsOut_append]
          exact (congrArg (eventsOut s.log ++ ·) (eventsOut_call_chunk s.op ref)).trans (List.append_nil _)
      | event event =>
          right
          obtain ⟨before, behind, hp, he⟩ := poolEvents_eraseIdx_event ht
          show (poolEvents ((Handlers.base s.op).threadPool.eraseIdx i)).length <
            (poolEvents (Handlers.base s.op).threadPool).length
          rw [hp, he]
          simp

omit [PacketUtil] in
theorem filed_ackChunk {st : EventState} {early : Prop} {ref : ChunkRef}
    (h : ∀ ref, st.queue ref ≠ [] → early ∧ st.acked ref = false) :
    ∀ ref', (st.ackChunk ref []).queue ref' ≠ [] → early ∧ (st.ackChunk ref []).acked ref' = false := by
  intro ref' hne
  have hother : ref' ≠ ref := by
    rintro rfl
    exact hne (by simp [EventState.ackChunk])
  rw [EventState.ackChunk] at hne ⊢
  dsimp only at hne ⊢
  rw [Function.update_of_ne hother] at hne ⊢
  exact h ref' hne

/-- The session accounts for all events. -/
def AccountsFor (args : MoveArguments) (s : Session MoveOperation) : Prop :=
  s.op.toMoveArguments = args ∧ ∃ r, Accounts args s.op.events (eventsOut s.log) (received args s.handled) r

theorem AccountsFor.step (hg : args.guarantee ≠ .noGuarantee) (h : AccountsFor args s) (hok : Releasable s a)
    (hs : s.step a = some s') : AccountsFor args s' := by
  obtain ⟨rfl, r, h⟩ := h
  have hargs : s'.op.toMoveArguments = s.op.toMoveArguments := congrArg Prod.fst (step_constants hs)
  refine ⟨hargs, ?_⟩
  -- An ack finds the list as it is to be let out.
  have hlist : s.op.failed = false → a.isAck = true → s.op.events.immediate = true → s.op.events.list = [] := by
    intro hf hack hi
    cases hguarantee : s.op.guarantee with
    | noGuarantee => exact absurd hguarantee hg
    | lossFree => exact (hok hf).2 hack hguarantee hi
    | orderPreserving => exact h.cleared hguarantee hi
  cases eventStep_of_step hg hs with
  | still hst hout hrec =>
      rw [hst, hout, hrec]
      exact ⟨r, h⟩
  | @arrive sched msg ha hf hst hout hrec =>
      have hcount : (received s.op.toMoveArguments s.handled).length = s.op.srcEventCount := h.count.symm
      rw [hst, hout, hrec, received_append_of_some (fromSrc_eq_some.mpr rfl), hcount]
      exact ⟨_, h.arrive (((hok hf).1 sched msg ha).goesOut _)⟩
  | check op' called hf hev hargs' hst hout hrec =>
      rw [hrec]
      by_cases hfirst : s.op.events.immediate = true → s.op.events.list = []
      · rw [hout]
        exact h.checked hargs' hev hfirst hst
      · -- Only an ack lets the list out again.
        have hack : a.isAck = false := eq_false_of_ne_true fun hack => hfirst (hlist hf hack)
        obtain ⟨hi, hne⟩ := Classical.not_imp.mp hfirst
        have hsame : s'.op.events = s.op.events := h.checked_again hargs' hev hi hne hst
        rcases eventsOut_of_not_ack hs hack with hlog | hpool
        · rw [hsame, hlog]
          exact ⟨r, h⟩
        · rw [hsame] at hpool
          exact absurd hpool (lt_irrefl _)
  | @putAck sched source cls hashkey op' called ha hf hr hev hargs' hst hout hrec =>
      rw [hout, hrec, ← List.append_assoc]
      have hq : (s.op.events.kept (.chunk (s.op.obtainStateChunk hashkey))).Perm
          (s.op.events.queue (s.op.obtainStateChunk hashkey) ++ []) := by
        rw [List.append_nil]
        exact .refl _
      have hacked := h.advance hq (EventState.kept_ackChunk _ _ _)
        rfl h.cleared (filed_ackChunk h.filed)
      exact hacked.checked hargs' hev (hlist hf (by rw [ha]; rfl)) hst
  | @putAckStopped sched source cls hashkey pre event rest ha hf hl hn hst hout hrec =>
      have hmem : event ∈ s.op.events.kept (.chunk (s.op.obtainStateChunk hashkey)) := by
        rw [show s.op.events.kept (.chunk _) = _ from hl]
        exact List.mem_append_right _ List.mem_cons_self
      exact absurd (h.waits _ event hmem).2 hn
  | @run event before behind hp hst hout hrec =>
      rw [hst, hout, hrec]
      have hq : (s.op.events.kept .pool).Perm ([event] ++ (before ++ behind)) := by
        rw [show s.op.events.kept .pool = _ from hp]
        exact List.perm_middle
      exact ⟨_, h.advance hq (EventState.kept_pool _ _) rfl h.cleared h.filed⟩

theorem accountsFor_session (id : Int) (args : MoveArguments) : AccountsFor args (session id args) := by
  have hout : eventsOut (session id args).log = [] := by
    refine eventsOut_eq_nil fun event sw packet hm => ?_
    obtain ⟨mb, cmd, he⟩ := mem_log_session hm
    cases he
  refine ⟨rfl, Relay.empty, rfl, hout.symm, fun p => ?_, rfl, .refl _, ?_, ?_, ?_⟩
  · cases p <;> rfl
  · intro event hmem
    cases hmem
  · intro _ hi
    cases hi
  · intro ref hne
    exact absurd rfl hne

theorem AccountsFor.run (hg : args.guarantee ≠ .noGuarantee)
    (hok : Machine.Along Session.step Releasable (session id args) as)
    (hr : Machine.run Session.step (session id args) as = some s) : AccountsFor args s :=
  Machine.run_invariant (accountsFor_session id args) (fun _ _ _ h hat hs => h.step hg hat hs) hok hr

/-- A report of a frame to the host with the given last byte. -/
def sampleReport (host : UInt8) : ReprocessMessage := ⟨-1, [], ReprocessEvent.encodeBytes (plainFrame host)⟩

omit [PacketUtil] in
theorem sampleReport_deliverable (host : UInt8) :
    letI := plainFrames
    (sampleReport host).Deliverable sampleDst := by
  let _ := plainFrames
  refine ⟨by decide, ?_⟩
  rw [sampleReport]
  exact ⟨_, rfl⟩

omit [PacketUtil] in
/-- One event waits for the end of the transfer, another one comes after it. -/
theorem releasable_sample :
    letI := plainFrames
    ∀ as, (∀ s, Machine.Along Session.step Releasable s as) →
      Machine.Along Session.step Releasable (session 1 (sampleMove .perflow .lossFree .pzLl))
        (.message .inOrder sampleSrc (.reprocess (sampleReport 2)) ::
          .message .inOrder sampleSrc (.getAck .perflow 0) ::
          .message .inOrder sampleSrc (.reprocess (sampleReport 3)) :: as) := by
  let _ := plainFrames
  intro as has
  refine Machine.along_cons.mpr ⟨fun _ => ⟨?_, ?_⟩, ?_⟩
  · rintro _ _ ⟨⟩
    exact sampleReport_deliverable 2
  · rintro ⟨⟩
  · rintro t ⟨⟩
    refine Machine.along_cons.mpr ⟨fun _ => ⟨?_, ?_⟩, ?_⟩
    · rintro _ _ ⟨⟩
    · rintro _ _ ⟨⟩
    · rintro t ⟨⟩
      refine Machine.along_cons.mpr ⟨fun _ => ⟨?_, ?_⟩, fun t _ => has t⟩
      · rintro _ _ ⟨⟩
        exact sampleReport_deliverable 3
      · rintro ⟨⟩

/-- Each event that has been received from `src` has been let out once, or waits at one place. -/
theorem released_or_kept (hg : args.guarantee ≠ .noGuarantee)
    (hok : Machine.Along Session.step Releasable (session id args) as)
    (hr : Machine.run Session.step (session id args) as = some s) :
    ∃ waiting : List (Place × ReprocessEvent), (∀ p, s.op.events.kept p = queue p waiting) ∧
      (eventsOut s.log ++ waiting.map Prod.snd).Perm (received args s.handled) := by
  obtain ⟨-, r, h⟩ := AccountsFor.run hg hok hr
  have hperm := h.accounted
  rw [Relay.Accounted, h.out_eq, h.arrived_eq] at hperm
  exact ⟨r.waiting, h.queues, hperm⟩

omit [PacketUtil] in
theorem released_or_kept_sample :
    letI := plainFrames
    ∃ s, Machine.run Session.step (session 1 (sampleMove .perflow .lossFree .pzLl))
        [.message .inOrder sampleSrc (.reprocess (sampleReport 2)), .message .inOrder sampleSrc (.getAck .perflow 0),
          .message .inOrder sampleSrc (.reprocess (sampleReport 3))] = some s ∧
      ∃ waiting : List (Place × ReprocessEvent), (∀ p, s.op.events.kept p = queue p waiting) ∧
        (eventsOut s.log ++ waiting.map Prod.snd).Perm
          (received (sampleMove .perflow .lossFree .pzLl) s.handled) := by
  let _ := plainFrames
  exact ⟨_, rfl, released_or_kept (by decide) (releasable_sample [] fun _ => Machine.along_nil) rfl⟩

/-- Once the list has been let out, no event is in the thread pool and, under early release, each chunk with events
has been acked, exactly the events of `src` have been let out, each once. -/
theorem all_released (hg : args.guarantee ≠ .noGuarantee)
    (hok : Machine.Along Session.step Releasable (session id args) as)
    (hr : Machine.run Session.step (session id args) as = some s) (hreleased : s.op.immediateRelease = true)
    (hpool : ∀ event, .event event ∉ s.op.threadPool)
    (hacked : args.optimization = .pzLlEr → ∀ ref, (s.op.stateChunks ref).eventsList ≠ [] →
      (s.op.stateChunks ref).isAcked = true) :
    (eventsOut s.log).Perm (received args s.handled) := by
  obtain ⟨-, r, h⟩ := AccountsFor.run hg hok hr
  have hkept : ∀ p, s.op.events.kept p = [] := by
    intro p
    cases p with
    | pool =>
        refine List.filterMap_eq_nil_iff.mpr fun task hmem => ?_
        cases task with
        | chunk ref => rfl
        | event event => exact absurd hmem (hpool event)
    | list => exact if_pos hreleased
    | chunk ref =>
        by_contra hne
        obtain ⟨hearly, hunacked⟩ := h.filed ref hne
        have := hacked hearly ref hne
        rw [show (s.op.stateChunks ref).isAcked = s.op.events.acked ref from rfl, hunacked] at this
        cases this
  have hwaiting : r.waiting = [] := by
    refine List.eq_nil_iff_forall_not_mem.mpr fun x hx => ?_
    have hmem := mem_queue.mpr (show (x.1, x.2) ∈ r.waiting from hx)
    rw [← h.queues, hkept] at hmem
    cases hmem
  have hperm := h.accounted
  rw [Relay.Accounted, h.out_eq, h.arrived_eq, hwaiting] at hperm
  rwa [List.map_nil, List.append_nil] at hperm

omit [PacketUtil] in
theorem all_released_sample :
    letI := plainFrames
    ∃ s, Machine.run Session.step (session 1 (sampleMove .perflow .lossFree .pzLl))
        [.message .inOrder sampleSrc (.reprocess (sampleReport 2)), .message .inOrder sampleSrc (.getAck .perflow 0),
          .message .inOrder sampleSrc (.reprocess (sampleReport 3)), .task 0] = some s ∧
      (eventsOut s.log).Perm (received (sampleMove .perflow .lossFree .pzLl) s.handled) := by
  let _ := plainFrames
  have htask : ∀ s : Session MoveOperation, Machine.Along Session.step Releasable s [.task 0] := by
    refine fun s => Machine.along_cons.mpr ⟨fun _ => ⟨?_, ?_⟩, fun _ _ => Machine.along_nil⟩
    · rintro _ _ ⟨⟩
    · rintro ⟨⟩
  have hr : Machine.run Session.step (session 1 (sampleMove .perflow .lossFree .pzLl))
      [.message .inOrder sampleSrc (.reprocess (sampleReport 2)), .message .inOrder sampleSrc (.getAck .perflow 0),
        .message .inOrder sampleSrc (.reprocess (sampleReport 3)), .task 0] = some _ := rfl
  refine ⟨_, hr, all_released (by decide) (releasable_sample _ htask) hr ?_ ?_ ?_⟩
  · decide
  · rintro event ⟨⟩
  · rintro ⟨⟩

omit [PacketUtil] in
/-- A second ack of the get lets the list of a loss-free move out again. -/
theorem released_twice :
    letI := plainFrames
    ∃ s, Machine.run Session.step (session 1 (sampleMove .perflow .lossFree .pzLl))
        [.message .inOrder sampleSrc (.reprocess (sampleReport 2)), .message .inOrder sampleSrc (.getAck .perflow 0),
          .message .inOrder sampleSrc (.getAck .perflow 0)] = some s ∧
      ¬ (eventsOut s.log).Subperm (received (sampleMove .perflow .lossFree .pzLl) s.handled) := by
  let _ := plainFrames
  refine ⟨_, rfl, fun h => ?_⟩
  exact absurd h.length_le (by decide)

end Run

end MoveOperation
end OFM.Controller
