import OFM.Controller.ReprocessEvent
import OFM.Controller.Lemmas.MoveEvents
import OFM.Lib.Relay

/-!
# The order of released events

When an order-preserving move lets the events of `src` out in the order in which it received them: the
move is a relay of them, and each place it serves has to be in front.
-/

namespace OFM.Controller.MoveOperation
open OFM.Lib OFM.Lib.Relay

/-- Where an event waits. -/
inductive Place
  | pool | list | chunk (ref : ChunkRef)
  deriving DecidableEq

namespace EventState

def queueAt (st : EventState) : Place → List ReprocessEvent
  | .pool => st.pool
  | .list => st.list
  | .chunk ref => st.queue ref

theorem queueAt_list (st : EventState) (list : List ReprocessEvent) (immediate : Bool) :
    ({ st with list := list, immediate := immediate } : EventState).queueAt =
      Function.update st.queueAt .list list := by
  funext p
  cases p <;> simp [queueAt]

theorem queueAt_pool (st : EventState) (pool : List ReprocessEvent) :
    ({ st with pool := pool } : EventState).queueAt = Function.update st.queueAt .pool pool := by
  funext p
  cases p <;> simp [queueAt]

theorem queueAt_ackChunk (st : EventState) (ref : ChunkRef) (rest : List ReprocessEvent) :
    (st.ackChunk ref rest).queueAt = Function.update st.queueAt (.chunk ref) rest := by
  funext p
  cases p with
  | pool => rfl
  | list => rfl
  | chunk ref' =>
      by_cases h : ref' = ref
      · subst h; simp [queueAt, ackChunk]
      · simp [queueAt, ackChunk, h]

/-- The place at which an event of the chunk is kept. -/
def place (st : EventState) (early : Prop) [Decidable early] (ref : ChunkRef) : Place :=
  if st.immediate then .pool
  else if ¬ early then .list
  else if st.acked ref then .pool
  else .chunk ref

theorem queueAt_arrive (st : EventState) (early : Prop) [Decidable early] (ref : ChunkRef)
    (event : ReprocessEvent) :
    (st.arrive early ref event).queueAt =
      Function.update st.queueAt (st.place early ref) (st.queueAt (st.place early ref) ++ [event]) := by
  unfold arrive place
  dsimp only
  split
  · exact queueAt_pool _ _
  · split
    · exact queueAt_list _ _ st.immediate
    · split
      · exact queueAt_pool _ _
      · funext p
        cases p with
        | pool => rfl
        | list => rfl
        | chunk ref' =>
            by_cases h : ref' = ref
            · subst h; simp [queueAt]
            · simp [queueAt, h]

theorem arrive_count (st : EventState) (early : Prop) [Decidable early] (ref : ChunkRef)
    (event : ReprocessEvent) : (st.arrive early ref event).count = st.count + 1 := by
  unfold arrive
  dsimp only
  split
  · rfl
  · split
    · rfl
    · split <;> rfl

theorem arrive_immediate (st : EventState) (early : Prop) [Decidable early] (ref : ChunkRef)
    (event : ReprocessEvent) : (st.arrive early ref event).immediate = st.immediate := by
  unfold arrive
  dsimp only
  split
  · rfl
  · split
    · rfl
    · split <;> rfl

end EventState

/-! ## The invariant -/

/-- The move as a relay. At most one event is in the pool, and nothing waits longer than it; without
early release all events wait in the list, or else they go straight to the pool. -/
structure InOrder (early : Prop) (st : EventState) (outs arrived : List ReprocessEvent)
    (r : Relay Place ReprocessEvent) : Prop where
  arrived_eq : r.arrived = arrived
  out_eq : r.out = outs
  queues : ∀ p, st.queueAt p = queue p r.waiting
  count : st.count = arrived.length
  ordered : r.Ordered
  single : st.pool = [] ∨ ∃ event rest, r.waiting = (.pool, event) :: rest ∧ queue .pool rest = []
  wholesale : ¬ early → ∀ x ∈ r.waiting,
    (x.1 = .list ∧ st.immediate = false) ∨ (x.1 = .pool ∧ st.immediate = true)
  early : early → ∀ x ∈ r.waiting, x.1 ≠ .list

namespace InOrder

variable {early : Prop} {st st' : EventState} {outs arrived : List ReprocessEvent}
  {r : Relay Place ReprocessEvent}

theorem waiting_eq_nil (h : InOrder early st outs arrived r)
    (hnone : ∀ p, st.queueAt p = []) : r.waiting = [] := by
  refine List.eq_nil_iff_forall_not_mem.mpr fun x hx => ?_
  have hm := mem_queue.mpr (show (x.1, x.2) ∈ r.waiting from hx)
  rw [← h.queues, hnone] at hm
  cases hm

theorem front_list (h : InOrder early st outs arrived r) : Front .list r.waiting := by
  by_cases he : early
  · refine front_of_queue_eq_nil (queue_eq_nil.mpr fun e hm => ?_)
    exact h.early he _ hm rfl
  · cases hi : st.immediate with
    | false =>
        refine front_of_forall fun x hx => ?_
        rcases h.wholesale he x hx with ⟨hp, -⟩ | ⟨-, ht⟩
        · exact hp
        · rw [hi] at ht; cases ht
    | true =>
        refine front_of_queue_eq_nil (queue_eq_nil.mpr fun e hm => ?_)
        rcases h.wholesale he _ hm with ⟨-, hf⟩ | ⟨hp, -⟩
        · rw [hi] at hf; cases hf
        · cases hp

/-- Serving a place in front. -/
theorem advance (h : InOrder early st outs arrived r) {p : Place}
    {taken rest sent : List ReprocessEvent} (hf : Front p r.waiting)
    (hq : st.queueAt p = taken ++ rest) (hs : sent.Sublist taken)
    (hpool : p = .pool → rest = [])
    (hst : st'.queueAt = Function.update st.queueAt p rest) (hcount : st'.count = st.count)
    (himm : st'.immediate = st.immediate ∨ p = .list ∧ rest = [] ∧ st'.immediate = true) :
    InOrder early st' (outs ++ sent) arrived (r.advance p rest sent) := by
  rw [h.queues] at hq
  have hmem : ∀ x ∈ (r.advance p rest sent).waiting, x ∈ r.waiting :=
    fun x hx => mem_of_mem_advance hq hx
  refine ⟨h.arrived_eq, by rw [← h.out_eq]; rfl, ?_, hcount.trans h.count,
    h.ordered.advance hf hq hs, ?_, ?_, fun he x hx => h.early he x (hmem x hx)⟩
  · intro q
    rw [hst, queue_advance]
    by_cases hqp : q = p
    · subst hqp; simp
    · simp [hqp, h.queues]
  · have hpool' : st'.pool = if p = .pool then rest else st.pool := by
      have := congrFun hst .pool
      by_cases hp : p = .pool
      · subst hp; simpa [EventState.queueAt] using this
      · simpa [EventState.queueAt, hp, Function.update_of_ne (Ne.symm hp)] using this
    by_cases hp : p = .pool
    · exact Or.inl (by rw [hpool', if_pos hp, hpool hp])
    · rw [if_neg hp] at hpool'
      rcases h.single with hnil | ⟨event, tail, hw, hnone⟩
      · exact Or.inl (hpool'.trans hnil)
      · have hempty : queue p r.waiting = [] := by
          rw [hw] at hf ⊢
          exact queue_eq_nil_of_front hf (Ne.symm hp)
        obtain ⟨-, rfl⟩ := List.append_eq_nil_iff.mp (hq.symm.trans hempty)
        have hsame : (r.advance p [] sent).waiting = r.waiting := others_of_queue_eq_nil hempty
        exact Or.inr ⟨event, tail, hsame.trans hw, hnone⟩
  · rintro he ⟨q, event⟩ hx
    rcases himm with himm | ⟨rfl, rfl, himm⟩
    · rw [himm]
      exact h.wholesale he _ (hmem _ hx)
    · rcases h.wholesale he _ (hmem _ hx) with ⟨hl, -⟩ | ⟨hp, -⟩
      · cases hl
        rw [← mem_queue, queue_advance, if_pos rfl] at hx
        cases hx
      · exact Or.inr ⟨hp, himm⟩

/-- An event joins the relay at its place; it goes to the pool only when no event waits. -/
theorem arrive [Decidable early] (h : InOrder early st outs arrived r) {ref : ChunkRef}
    {event : ReprocessEvent} (hpool : st.place early ref = .pool → ∀ p, st.queueAt p = []) :
    InOrder early (st.arrive early ref event) outs (arrived ++ [event])
      (r.arrive (st.place early ref) event) := by
  refine ⟨by rw [← h.arrived_eq]; rfl, h.out_eq, ?_, ?_, h.ordered.arrive _ _, ?_, ?_, ?_⟩
  · intro q
    rw [EventState.queueAt_arrive, h.queues]
    by_cases hq : q = st.place early ref
    · subst hq; simp [Relay.arrive]
    · simp [Relay.arrive, hq, queue_cons_of_ne (Ne.symm hq), h.queues]
  · rw [EventState.arrive_count, h.count, List.length_append, List.length_singleton]
  · by_cases hp : st.place early ref = .pool
    · have hw := h.waiting_eq_nil (hpool hp)
      refine Or.inr ⟨event, [], ?_, rfl⟩
      simp [Relay.arrive, hw, hp]
    · have hsame : (st.arrive early ref event).pool = st.pool := by
        have := congrFun (EventState.queueAt_arrive st early ref event) .pool
        rwa [Function.update_of_ne (Ne.symm hp)] at this
      rcases h.single with hnil | ⟨first, tail, hw, hnone⟩
      · exact Or.inl (hsame.trans hnil)
      · refine Or.inr ⟨first, tail ++ [(st.place early ref, event)], ?_, ?_⟩
        · simp [Relay.arrive, hw]
        · rw [queue_append, hnone, queue_cons_of_ne hp]
          rfl
  · intro he x hx
    rw [EventState.arrive_immediate]
    rcases List.mem_append.mp hx with hx | hx
    · exact h.wholesale he x hx
    · rw [List.mem_singleton.mp hx]
      cases hi : st.immediate with
      | true => exact Or.inr ⟨by simp [EventState.place, hi], rfl⟩
      | false => exact Or.inl ⟨by simp [EventState.place, hi, he], rfl⟩
  · intro he x hx
    rcases List.mem_append.mp hx with hx | hx
    · exact h.early he x hx
    · rw [List.mem_singleton.mp hx]
      simp only [EventState.place, he, not_true_eq_false, ↓reduceIte]
      split
      · simp
      · split <;> simp

/-- A check of an order-preserving move serves the list. -/
theorem checked [PacketUtil] (h : InOrder early st outs arrived r) {op : MoveOperation}
    {called : List ReprocessEvent} (hg : op.guarantee = .orderPreserving) (hev : op.events = st)
    (hc : Checked op st' called) :
    ∃ r', InOrder early st' (outs ++ released called) arrived r' := by
  subst hev
  cases hc with
  | notYet hc =>
      refine ⟨r, ?_⟩
      rw [show released [] = [] from rfl, List.append_nil]
      exact h
  | inOrder hc hg' hr =>
      exact ⟨_, h.advance h.front_list (List.append_nil _).symm (released_sublist _) nofun
        (EventState.queueAt_list _ _ _) rfl (Or.inr ⟨rfl, rfl, rfl⟩)⟩
  | @stopped _ event rest hc hg' hl hn =>
      have hsub : (released called).Sublist (called ++ [event]) :=
        (released_sublist called).trans (List.sublist_append_left _ _)
      exact ⟨_, h.advance h.front_list (by rw [List.append_assoc]; exact hl) hsub nofun
        (EventState.queueAt_list _ _ op.events.immediate) rfl (Or.inl rfl)⟩
  | atOnce _ hg' _ | threw _ hg' _ => exact absurd hg hg'

end InOrder

/-! ## Order preservation -/

/-- The event is kept in the operation. -/
def Waiting (op : MoveOperation) (event : ReprocessEvent) : Prop :=
  ∃ p, event ∈ op.events.queueAt p

/-- An event is handed to the pool only when no other event waits; under early release a put-ack
releases events only that are older than all that wait elsewhere. -/
def HandsOverInOrder (s : Session MoveOperation) : Input → Prop
  | .message _ source (.reprocess msg) =>
      s.op.failed = false → source = s.op.src →
      s.op.events.place (s.op.optimization = .pzLlEr) (s.op.obtainStateChunk msg.hashkey) = .pool →
      ∀ event, ¬ s.op.Waiting event
  | .message _ _ (.putAck _ hashkey) =>
      s.op.failed = false → s.op.optimization = .pzLlEr →
      ∀ event ∈ s.op.events.queue (s.op.obtainStateChunk hashkey), ∀ p event',
        p ≠ .chunk (s.op.obtainStateChunk hashkey) → event' ∈ s.op.events.queueAt p →
        event.eventId < event'.eventId
  | _ => True

variable [PacketUtil]
variable {id : Int} {args : MoveArguments} {as : List Input} {s s' : Session MoveOperation}

/-- The session is in order. -/
def InOrderSession (s : Session MoveOperation) : Prop :=
  ∃ r, InOrder (s.op.optimization = .pzLlEr) s.op.events (eventsOut s.log)
    (received s.op.toMoveArguments s.handled) r

omit [PacketUtil] in
theorem InOrder.front_chunk {st : EventState} {outs : List ReprocessEvent} {handled}
    {early : Prop} {r : Relay Place ReprocessEvent} {ref : ChunkRef}
    (h : InOrder early st outs (received args handled) r)
    (hold : early → ∀ event ∈ st.queue ref, ∀ p event', p ≠ .chunk ref → event' ∈ st.queueAt p →
      event.eventId < event'.eventId) : Front (.chunk ref) r.waiting := by
  by_cases he : early
  · have hnum : r.waiting.Pairwise fun x y => x.2.eventId < y.2.eventId := by
      have hsub : (r.waiting.map Prod.snd).Sublist (received args handled) := by
        rw [← h.arrived_eq]
        exact (List.sublist_append_right _ _).trans h.ordered
      have hpair := (pairwise_received args handled).sublist hsub
      rwa [List.pairwise_map] at hpair
    refine front_of_numbered hnum ?_
    rintro event hevent ⟨p, event'⟩ hx
    have hne : p ≠ .chunk ref := by
      rintro rfl
      rw [← mem_queue, queue_others] at hx
      cases hx
    rw [← h.queues] at hevent
    refine hold he event hevent p event' hne ?_
    rw [h.queues]
    exact mem_queue.mpr (mem_of_mem_others hx)
  · refine front_of_queue_eq_nil (queue_eq_nil.mpr fun event hm => ?_)
    rcases h.wholesale he _ hm with ⟨hp, -⟩ | ⟨hp, -⟩ <;> cases hp

theorem inOrder_step (hg : s.op.guarantee = .orderPreserving) (h : InOrderSession s) {a : Input}
    (hok : HandsOverInOrder s a) (hs : s.step a = some s') : InOrderSession s' := by
  obtain ⟨r, h⟩ := h
  have hargs : s'.op.toMoveArguments = s.op.toMoveArguments :=
    congrArg Prod.fst (step_constants hs)
  unfold InOrderSession
  rw [hargs]
  cases eventStep_of_step (by rw [hg]; decide) hs with
  | still hst hout hrec =>
      rw [hst, hout, hrec]
      exact ⟨r, h⟩
  | arrive ha hf hst hout hrec =>
      rename_i sched msg
      subst ha
      have hlen : (received s.op.toMoveArguments s.handled).length = s.op.srcEventCount :=
        h.count.symm
      rw [hst, hout, hrec, received_append_of_some (fromSrc_eq_some.mpr rfl), hlen]
      refine ⟨_, h.arrive fun hp p => ?_⟩
      have hnone := hok hf rfl hp
      exact List.eq_nil_iff_forall_not_mem.mpr fun event he => hnone event ⟨p, he⟩
  | check op' called hf hev hargs' hst hout hrec =>
      rw [hout, hrec]
      exact h.checked (by rw [hargs']; exact hg) hev hst
  | putAck op' called ha hf hr hev hargs' hst hout hrec =>
      rename_i sched source cls hashkey
      subst ha
      rw [hout, hrec, ← List.append_assoc]
      have hfront := h.front_chunk (hok hf)
      have hacked : InOrder _ (s.op.events.ackChunk (s.op.obtainStateChunk hashkey) []) _ _ _ :=
        h.advance hfront (List.append_nil _).symm (released_sublist _) nofun
          (EventState.queueAt_ackChunk _ _ _) rfl (Or.inl rfl)
      exact hacked.checked (by rw [hargs']; exact hg) hev hst
  | putAckStopped ha hf hl hn hst hout hrec =>
      rename_i sched source cls hashkey pre event rest
      subst ha
      rw [hst, hout, hrec]
      have hfront := h.front_chunk (hok hf)
      have hsub : (released pre).Sublist (pre ++ [event]) :=
        (released_sublist pre).trans (List.sublist_append_left _ _)
      exact ⟨_, h.advance hfront (by rw [List.append_assoc]; exact hl) hsub nofun
        (EventState.queueAt_ackChunk _ _ _) rfl (Or.inl rfl)⟩
  | run hp hst hout hrec =>
      rename_i event before behind
      rw [hst, hout, hrec]
      have hone : before = [] ∧ behind = [] ∧ Front .pool r.waiting := by
        have hq : queue .pool r.waiting = before ++ event :: behind := by rw [← h.queues]; exact hp
        rcases h.single with hnil | ⟨first, tail, hw, hnone⟩
        · exact absurd (hp.symm.trans hnil) (by simp)
        · rw [hw, queue_cons_self, hnone] at hq
          have hb : before = [] ∧ behind = [] := by
            cases before with
            | nil => simp_all
            | cons b bs => simp at hq
          refine ⟨hb.1, hb.2, ?_⟩
          rw [hw, Front, queue_cons_self, others_cons_self, hnone, others_of_queue_eq_nil hnone]
          rfl
      obtain ⟨rfl, rfl, hfront⟩ := hone
      have hone : s.op.events.queueAt .pool = [event] ++ [] := hp
      exact ⟨_, h.advance hfront hone (released_sublist _) (fun _ => rfl)
        (EventState.queueAt_pool _ _) rfl (Or.inl rfl)⟩

theorem inOrder_session (id : Int) (args : MoveArguments) : InOrderSession (session id args) := by
  have hout : eventsOut (session id args).log = [] := by
    refine eventsOut_eq_nil fun event sw packet hm => ?_
    obtain ⟨mb, cmd, he⟩ := mem_log_session hm
    cases he
  refine ⟨Relay.empty, rfl, hout.symm, ?_, rfl, .refl _, Or.inl rfl, nofun, nofun⟩
  intro p
  cases p <;> rfl

/-- An order-preserving move releases events in the order in which it received them, in every run that
hands them over in order. -/
theorem released_in_order (hg : args.guarantee = .orderPreserving)
    (hok : Machine.Along Session.step HandsOverInOrder (session id args) as)
    (hr : Machine.run Session.step (session id args) as = some s) :
    (eventsOut s.log).Sublist (received args s.handled) := by
  have hinv : s.op.toMoveArguments = args ∧ InOrderSession s := by
    refine Machine.run_invariant (I := fun s => s.op.toMoveArguments = args ∧ InOrderSession s)
      ⟨rfl, ?_⟩ ?_ hok hr
    · exact inOrder_session id args
    · rintro t a t' ⟨hta, ht⟩ hoka hs
      exact ⟨(congrArg Prod.fst (step_constants hs)).trans hta,
        inOrder_step (by rw [hta]; exact hg) ht hoka hs⟩
  obtain ⟨hargs, r, h⟩ := hinv
  have hsub := h.ordered.out_sublist
  rwa [h.out_eq, h.arrived_eq, hargs] at hsub

omit [PacketUtil] in
theorem released_in_order_sample :
    letI := plainFrames
    ∃ s, Machine.run Session.step (session 1 (sampleMove .perflow .orderPreserving .pzLl))
        [.message .inOrder sampleSrc (.getAck .perflow 0),
          .message .inOrder sampleSrc (.reprocess ⟨-1, [], ReprocessEvent.encodeBytes (plainFrame 2)⟩), .task 0,
          .message .inOrder sampleSrc (.reprocess ⟨-1, [], ReprocessEvent.encodeBytes (plainFrame 3)⟩), .task 0] = some s ∧
      (eventsOut s.log).Sublist
        (received (sampleMove .perflow .orderPreserving .pzLl) s.handled) := by
  let _ := plainFrames
  have hok : Machine.Along Session.step HandsOverInOrder
      (session 1 (sampleMove .perflow .orderPreserving .pzLl))
      [.message .inOrder sampleSrc (.getAck .perflow 0),
        .message .inOrder sampleSrc (.reprocess ⟨-1, [], ReprocessEvent.encodeBytes (plainFrame 2)⟩), .task 0,
        .message .inOrder sampleSrc (.reprocess ⟨-1, [], ReprocessEvent.encodeBytes (plainFrame 3)⟩), .task 0] := by
    refine Machine.along_cons.mpr ⟨trivial, ?_⟩
    rintro t ⟨⟩
    refine Machine.along_cons.mpr ⟨?_, ?_⟩
    · rintro _ _ _ event ⟨p, hm⟩
      cases p <;> cases hm
    · rintro t ⟨⟩
      refine Machine.along_cons.mpr ⟨trivial, ?_⟩
      rintro t ⟨⟩
      refine Machine.along_cons.mpr ⟨?_, ?_⟩
      · rintro _ _ _ event ⟨p, hm⟩
        cases p <;> cases hm
      · rintro t ⟨⟩
        exact Machine.along_cons.mpr ⟨trivial, fun _ _ => Machine.along_nil⟩
  have hr : Machine.run Session.step (session 1 (sampleMove .perflow .orderPreserving .pzLl))
      [.message .inOrder sampleSrc (.getAck .perflow 0),
        .message .inOrder sampleSrc (.reprocess ⟨-1, [], ReprocessEvent.encodeBytes (plainFrame 2)⟩), .task 0,
        .message .inOrder sampleSrc (.reprocess ⟨-1, [], ReprocessEvent.encodeBytes (plainFrame 3)⟩), .task 0] = some _ := rfl
  exact ⟨_, hr, released_in_order rfl hok hr⟩

omit [PacketUtil] in
/-- A move without any state: two events that `src` raises after the get go to the pool, which runs
the second one first. -/
theorem released_out_of_order :
    letI := plainFrames
    (sampleMove .perflow .orderPreserving .pzLl).Admitted ∧
      ∃ s, Machine.run Session.step (session 1 (sampleMove .perflow .orderPreserving .pzLl))
        [.message .inOrder sampleSrc (.getAck .perflow 0),
          .message .inOrder sampleSrc (.reprocess ⟨-1, [], ReprocessEvent.encodeBytes (plainFrame 2)⟩),
          .message .inOrder sampleSrc (.reprocess ⟨-1, [], ReprocessEvent.encodeBytes (plainFrame 3)⟩),
          .task 1, .task 0] = some s ∧
        ¬ (eventsOut s.log).Sublist
          (received (sampleMove .perflow .orderPreserving .pzLl) s.handled) := by
  let _ := plainFrames
  refine ⟨by decide, _, rfl, ?_⟩
  decide

end OFM.Controller.MoveOperation
