import OFM.Controller.Lemmas.MoveRun

/-!
# The events of a move

Where the events of `src` wait in a move, and what each input does to them.
-/

namespace OFM.Controller
open OFM.Lib MoveArguments

/-- The events whose packet-outs are in a log. -/
def eventsOut (log : List Effect) : List ReprocessEvent :=
  log.filterMap fun
    | .eventOut event _ _ => some event
    | _ => none

@[simp] theorem eventsOut_nil : eventsOut [] = [] := rfl

@[simp] theorem eventsOut_append (log log' : List Effect) :
    eventsOut (log ++ log') = eventsOut log ++ eventsOut log' := List.filterMap_append

theorem eventsOut_eq_nil {log : List Effect} (h : ∀ event sw packet, .eventOut event sw packet ∉ log) :
    eventsOut log = [] := by
  refine List.filterMap_eq_nil_iff.mpr fun e he => ?_
  split
  · exact absurd he (h _ _ _)
  · rfl

/-- The events of a pool that have not been run. -/
def poolEvents (pool : List Task) : List ReprocessEvent :=
  pool.filterMap fun
    | .event event => some event
    | .chunk _ => none

@[simp] theorem poolEvents_append_event (pool : List Task) (event : ReprocessEvent) :
    poolEvents (pool ++ [.event event]) = poolEvents pool ++ [event] := by
  simp [poolEvents]

@[simp] theorem poolEvents_append_chunk (pool : List Task) (ref : ChunkRef) :
    poolEvents (pool ++ [.chunk ref]) = poolEvents pool := by
  simp [poolEvents]

theorem poolEvents_eraseIdx_chunk {pool : List Task} {i : Nat} {ref : ChunkRef}
    (h : pool[i]? = some (.chunk ref)) : poolEvents (pool.eraseIdx i) = poolEvents pool := by
  obtain ⟨hi, hx⟩ := List.getElem?_eq_some_iff.mp h
  conv_rhs => rw [← List.take_append_drop i pool, List.drop_eq_getElem_cons hi, hx]
  simp [poolEvents, List.eraseIdx_eq_take_drop_succ]

theorem poolEvents_eraseIdx_event {pool : List Task} {i : Nat} {event : ReprocessEvent}
    (h : pool[i]? = some (.event event)) :
    ∃ l₁ l₂, poolEvents pool = l₁ ++ event :: l₂ ∧ poolEvents (pool.eraseIdx i) = l₁ ++ l₂ := by
  obtain ⟨hi, hx⟩ := List.getElem?_eq_some_iff.mp h
  refine ⟨poolEvents (pool.take i), poolEvents (pool.drop (i + 1)), ?_, ?_⟩
  · conv_lhs => rw [← List.take_append_drop i pool, List.drop_eq_getElem_cons hi, hx]
    simp [poolEvents]
  · simp [poolEvents, List.eraseIdx_eq_take_drop_succ]

section
variable [PacketUtil]

/-- The events of a list that are seen to go out when all of them are called. -/
def released (events : List ReprocessEvent) : List ReprocessEvent :=
  eventsOut (events.flatMap ReprocessEvent.sent)

theorem eventsOut_sent_sublist (event : ReprocessEvent) :
    (eventsOut event.sent).Sublist [event] := by
  cases hd : event.sendDirect with
  | true =>
      have hs : event.sent = [] := by
        simp only [ReprocessEvent.sent, ReprocessEvent.call, hd, ReprocessEvent.sendDirectly,
          ↓reduceIte]
        cases PacketUtil.setFlag (ReprocessEvent.base64Decode event.packet)
          PacketUtil.flagDoNotBuffer <;> rfl
      rw [hs]; exact List.nil_sublist _
  | false =>
      unfold ReprocessEvent.sent
      split
      · rename_i out hc
        obtain ⟨sw, packet, rfl⟩ := ReprocessEvent.call_viaSwitch hd hc
        exact .refl _
      · exact List.nil_sublist _

theorem released_sublist (events : List ReprocessEvent) : (released events).Sublist events := by
  induction events with
  | nil => exact .refl _
  | cons event events ih =>
      have h := (eventsOut_sent_sublist event).append ih
      simpa [released, List.flatMap_cons] using h

end

namespace MoveOperation

/-! ## Where events wait -/

/-- The event side of a move: the queues, the chunks that have been acked, the number of events seen,
and whether events go straight to the pool. -/
structure EventState where
  pool : List ReprocessEvent
  list : List ReprocessEvent
  queue : ChunkRef → List ReprocessEvent
  acked : ChunkRef → Bool
  count : Nat
  immediate : Bool

def events (op : MoveOperation) : EventState where
  pool := poolEvents op.threadPool
  list := op.eventsList
  queue ref := (op.stateChunks ref).eventsList
  acked ref := (op.stateChunks ref).ack
  count := op.srcEventCount
  immediate := op.immediateRelease

namespace EventState

/-- An event arrives: it goes to the pool, to the list of all events, or to its chunk. -/
def arrive (st : EventState) (early : Prop) [Decidable early] (ref : ChunkRef)
    (event : ReprocessEvent) : EventState :=
  let st := { st with count := st.count + 1 }
  if st.immediate then { st with pool := st.pool ++ [event] }
  else if ¬ early then { st with list := st.list ++ [event] }
  else if st.acked ref then { st with pool := st.pool ++ [event] }
  else { st with queue := Function.update st.queue ref (st.queue ref ++ [event]) }

/-- The chunk is acked, and of its events only `rest` are left. -/
def ackChunk (st : EventState) (ref : ChunkRef) (rest : List ReprocessEvent) : EventState :=
  { st with acked := Function.update st.acked ref true, queue := Function.update st.queue ref rest }

end EventState

/-- The event that `src` sent as its `n`-th. -/
def srcEvent (args : MoveArguments) (n : Nat) (msg : ReprocessMessage) : ReprocessEvent :=
  { ReprocessEvent.new msg args.dst false with eventId := n }

/-- The report of an event by `src`. -/
def fromSrc (src : Middlebox) : Middlebox × Message → Option ReprocessMessage
  | (source, .reprocess msg) => if source = src then some msg else none
  | _ => none

/-- The events received from `src`, in the order of their messages. -/
def received (args : MoveArguments) (handled : List (Middlebox × Message)) : List ReprocessEvent :=
  (handled.filterMap (fromSrc args.src)).mapIdx fun i msg => srcEvent args (i + 1) msg

theorem received_append_of_none {args : MoveArguments} {handled : List (Middlebox × Message)}
    {x : Middlebox × Message} (h : fromSrc args.src x = none) :
    received args (handled ++ [x]) = received args handled := by
  simp [received, List.filterMap_append, h]

theorem received_append_of_some {args : MoveArguments} {handled : List (Middlebox × Message)}
    {x : Middlebox × Message} {msg : ReprocessMessage} (h : fromSrc args.src x = some msg) :
    received args (handled ++ [x]) =
      received args handled ++ [srcEvent args ((received args handled).length + 1) msg] := by
  simp [received, List.filterMap_append, h, List.mapIdx_append]

theorem pairwise_received (args : MoveArguments) (handled : List (Middlebox × Message)) :
    (received args handled).Pairwise fun e e' => e.eventId < e'.eventId := by
  unfold received
  rw [List.pairwise_iff_getElem]
  intro i j hi hj hij
  simp only [List.getElem_mapIdx, srcEvent]
  omega

/-- No message has been received but an event of `src`. -/
theorem fromSrc_eq_some {src : Middlebox} {x : Middlebox × Message} {msg : ReprocessMessage} :
    fromSrc src x = some msg ↔ x = (src, .reprocess msg) := by
  obtain ⟨source, m⟩ := x
  cases m with
  | reprocess m' =>
      by_cases hs : source = src
      · simp [fromSrc, hs]
      · simp [fromSrc, hs]
  | _ => simp [fromSrc]

/-! ## What the handlers do to them -/

theorem events_withTask_event (op : MoveOperation) (event : ReprocessEvent) :
    (op.withTask (.event event)).events =
      { op.events with pool := op.events.pool ++ [event] } := by
  simp [events, withTask, Operation.submit]

theorem events_withChunk (op : MoveOperation) (ref : ChunkRef) (chunk : StateChunk) :
    (op.withChunk ref chunk).events =
      { op.events with
        queue := Function.update op.events.queue ref chunk.eventsList
        acked := Function.update op.events.acked ref chunk.ack } := by
  simp only [events, withChunk, Operation.setChunk, EventState.mk.injEq, and_true, true_and]
  constructor <;>
  · funext r
    by_cases hr : r = ref
    · subst hr; simp
    · simp [Function.update_of_ne hr]

theorem events_receiveState (op : MoveOperation) (msg : StateMessage) :
    (op.receiveState msg).val.events = op.events := by
  have hstore : ∀ msg : StateMessage, (op.withChunk (op.obtainStateChunk msg.hashkey)
      ((op.stateChunks (op.obtainStateChunk msg.hashkey)).storeStateMessage msg [op.dst])).events =
        op.events := by
    intro msg
    rw [events_withChunk]
    simp [StateChunk.storeStateMessage, events]
  have hreceive : ∀ msg : StateMessage, (op.receiveStateMessage msg).val.events = op.events := by
    intro msg
    unfold receiveStateMessage
    dsimp only
    split
    · exact hstore msg
    · simp only [Emit.pure_val]
      rw [← hstore msg]
      simp [events, withTask, Operation.submit]
  cases msg with
  | perflow => exact hreceive _
  | multiflow => exact hreceive _
  | allflows => rfl
  | config => rfl

theorem events_receiveEventsAck (op : MoveOperation) (source : Middlebox) :
    (op.receiveEventsAck source).val.events = op.events := by
  rcases op.receiveEventsAck_cases source with ⟨-, h⟩ | ⟨-, -, h⟩ | ⟨-, -, h⟩ <;>
  exact congrArg (fun r => events (Emit.val r)) h

theorem events_receivePacket [PacketUtil] (op : MoveOperation) (packet : Packet) (inSwitch : Nat)
    (inPort : Int) : (op.receivePacket packet inSwitch inPort).val.events = op.events := by
  rcases op.receivePacket_cases packet inSwitch inPort with
    ⟨-, h⟩ | ⟨-, -, ⟨_, -, h⟩ | ⟨_, -, ⟨_, -, h⟩ | ⟨_, -, -, h⟩⟩⟩ <;>
  exact congrArg (fun r => events (Emit.val r)) h

variable [PacketUtil]
variable {op : MoveOperation}

theorem receiveSrcReprocess_out (op : MoveOperation) (msg : ReprocessMessage) :
    (op.receiveSrcReprocess msg).out = [] := by
  unfold receiveSrcReprocess
  dsimp only
  split
  · rfl
  · split
    · rfl
    · split
      · rfl
      · rename_i hack
        simp only [StateChunk.receivedReprocess, hack, Bool.false_eq_true, ↓reduceIte]
        rfl

theorem events_receiveSrcReprocess (op : MoveOperation) (msg : ReprocessMessage) :
    (op.receiveSrcReprocess msg).val.events =
      op.events.arrive (op.optimization = .pzLlEr) (op.obtainStateChunk msg.hashkey)
        (srcEvent op.toMoveArguments (op.srcEventCount + 1) msg) := by
  unfold receiveSrcReprocess EventState.arrive
  dsimp only
  by_cases hi : op.immediateRelease = true
  · rw [if_pos hi, if_pos (show op.events.immediate = true from hi)]
    simp only [Emit.pure_val, events_withTask_event]
    rfl
  · rw [if_neg hi, if_neg (show ¬ op.events.immediate = true from hi)]
    by_cases ho : op.optimization = .pzLlEr
    · rw [if_neg (not_not.mpr ho), if_neg (not_not.mpr ho)]
      by_cases ha : (op.stateChunks (op.obtainStateChunk msg.hashkey)).isAcked = true
      · rw [if_pos (show (op.stateChunks _).isAcked = true from ha),
          if_pos (show op.events.acked (op.obtainStateChunk msg.hashkey) = true from ha)]
        simp only [Emit.pure_val, events_withTask_event]
        rfl
      · rw [if_neg (show ¬ (op.stateChunks _).isAcked = true from ha),
          if_neg (show ¬ op.events.acked (op.obtainStateChunk msg.hashkey) = true from ha)]
        simp only [StateChunk.receivedReprocess, ha, Bool.false_eq_true, ↓reduceIte, Emit.bind_val,
          Emit.pure_val, events_withChunk]
        simp [events, srcEvent]
    · rw [if_pos ho, if_pos ho]
      rfl

/-- What a check does to the events, and which of them it calls. -/
inductive Checked (op : MoveOperation) : EventState → List ReprocessEvent → Prop
  | notYet (hc : op.completed = false) : Checked op op.events []
  | inOrder (hc : op.completed = true) (hg : op.guarantee = .orderPreserving)
      (hr : ∀ event ∈ op.eventsList, event.Releases) :
      Checked op { op.events with list := [], immediate := true } op.eventsList
  | stopped {pre event rest} (hc : op.completed = true) (hg : op.guarantee = .orderPreserving)
      (hl : op.eventsList = pre ++ event :: rest) (hn : ¬ event.Releases) :
      Checked op { op.events with list := rest } pre
  | atOnce {called} (hc : op.completed = true) (hg : op.guarantee ≠ .orderPreserving)
      (hp : called.Perm op.eventsList) : Checked op { op.events with immediate := true } called
  | threw (hc : op.completed = true) (hg : op.guarantee ≠ .orderPreserving) (hroute : op.RouteThrows) :
      Checked op op.events []

omit [PacketUtil] in
theorem eventsOut_of_updateForwardingToDst {args : MoveArguments} {rules : List Effect}
    (h : args.updateForwardingToDst = .ok rules) : eventsOut rules = [] := by
  refine eventsOut_eq_nil fun event sw packet hm => ?_
  obtain ⟨_, -, -, he⟩ := mem_updateForwardingToDst h hm
  cases he

theorem checked_checkIfStateMoved (op : MoveOperation) (sched : Schedule) :
    ∃ called, Checked op (op.checkIfStateMoved sched).val.events called ∧
      eventsOut (op.checkIfStateMoved sched).out = released called := by
  rcases op.checkIfStateMoved_cases sched with
    ⟨hc, h⟩ | ⟨hc, hg, hr, h⟩ | ⟨hc, hg, pre, event, rest, hl, hn, h⟩ | ⟨hc, hg, rules, hrules, h⟩ |
    ⟨hc, hg, e, herror, h⟩
  · exact ⟨[], by rw [h]; exact .notYet hc, by rw [h]; rfl⟩
  · exact ⟨op.eventsList, by rw [h]; exact .inOrder hc hg hr, by rw [h]; rfl⟩
  · refine ⟨pre, by rw [h]; exact .stopped hc hg hl hn, ?_⟩
    rw [h]
    simp [eventsOut, released, List.filterMap_append]
  · refine ⟨sched.events op.eventsList, by rw [h]; exact .atOnce hc hg (sched.events_perm _), ?_⟩
    rw [h]
    simp [eventsOut_of_updateForwardingToDst hrules, released]
    rfl
  · refine ⟨[], ?_, by rw [h]; rfl⟩
    rw [h]
    exact .threw hc hg (routeThrows_of_error herror)

/-- What an input does to the events of a move that has a guarantee. -/
inductive EventStep (s : Session MoveOperation) (a : Input) (s' : Session MoveOperation) : Prop
  | still (hst : s'.op.events = s.op.events) (hout : eventsOut s'.log = eventsOut s.log)
      (hrec : received s.op.toMoveArguments s'.handled = received s.op.toMoveArguments s.handled)
  | arrive {sched msg} (ha : a = .message sched s.op.src (.reprocess msg))
      (hf : s.op.failed = false)
      (hst : s'.op.events = s.op.events.arrive (s.op.optimization = .pzLlEr)
        (s.op.obtainStateChunk msg.hashkey)
        (srcEvent s.op.toMoveArguments (s.op.srcEventCount + 1) msg))
      (hout : eventsOut s'.log = eventsOut s.log)
      (hrec : s'.handled = s.handled ++ [(s.op.src, .reprocess msg)])
  | check (op' called) (hf : s.op.failed = false) (hev : op'.events = s.op.events)
      (hargs : op'.toMoveArguments = s.op.toMoveArguments) (hst : Checked op' s'.op.events called)
      (hout : eventsOut s'.log = eventsOut s.log ++ released called)
      (hrec : received s.op.toMoveArguments s'.handled = received s.op.toMoveArguments s.handled)
  | putAck {sched source cls hashkey} (op' called)
      (ha : a = .message sched source (.putAck cls hashkey)) (hf : s.op.failed = false)
      (hr : ∀ event ∈ s.op.events.queue (s.op.obtainStateChunk hashkey), event.Releases)
      (hev : op'.events = s.op.events.ackChunk (s.op.obtainStateChunk hashkey) [])
      (hargs : op'.toMoveArguments = s.op.toMoveArguments) (hst : Checked op' s'.op.events called)
      (hout : eventsOut s'.log = eventsOut s.log ++
        (released (s.op.events.queue (s.op.obtainStateChunk hashkey)) ++ released called))
      (hrec : received s.op.toMoveArguments s'.handled = received s.op.toMoveArguments s.handled)
  | putAckStopped {sched source cls hashkey pre event rest}
      (ha : a = .message sched source (.putAck cls hashkey)) (hf : s.op.failed = false)
      (hl : s.op.events.queue (s.op.obtainStateChunk hashkey) = pre ++ event :: rest)
      (hn : ¬ event.Releases)
      (hst : s'.op.events = s.op.events.ackChunk (s.op.obtainStateChunk hashkey) rest)
      (hout : eventsOut s'.log = eventsOut s.log ++ released pre)
      (hrec : received s.op.toMoveArguments s'.handled = received s.op.toMoveArguments s.handled)
  | run {event before behind} (hp : s.op.events.pool = before ++ event :: behind)
      (hst : s'.op.events = { s.op.events with pool := before ++ behind })
      (hout : eventsOut s'.log = eventsOut s.log ++ released [event])
      (hrec : received s.op.toMoveArguments s'.handled = received s.op.toMoveArguments s.handled)

/-- An input that leaves the events alone and emits none of them. -/
theorem EventStep.of_message {s : Session MoveOperation} {sched : Schedule} {source : Middlebox}
    {msg : Message} (hst : (receive sched source msg s.op).val.events = s.op.events)
    (hout : eventsOut (receive sched source msg s.op).out = [])
    (hmsg : fromSrc s.op.src (source, msg) = none) :
    EventStep s (.message sched source msg)
      ((s.record (receive sched source msg s.op)).note source msg) := by
  refine .still hst ?_ (received_append_of_none hmsg)
  simp only [Session.note, Session.record, eventsOut_append, hout, List.append_nil]

omit [PacketUtil] in
theorem eventsOut_releaseBufferedStates (op : MoveOperation) (sched : Schedule) :
    eventsOut (op.releaseBufferedStates sched).out = [] := by
  refine eventsOut_eq_nil fun event sw packet h => ?_
  obtain ⟨ref, -, hm⟩ := List.mem_flatMap.mp h
  obtain ⟨mb, putMsg, he⟩ := StateChunk.put_of_mem_call hm
  cases he

theorem eventStep_getAck {s : Session MoveOperation} {sched : Schedule} {source : Middlebox}
    {cls other : StateClass} {count : Int} {msg : Message} (hf : s.op.failed = false)
    (hreceive : receive sched source msg s.op = s.op.receiveGetAckOf sched cls other count)
    (hmsg : fromSrc s.op.src (source, msg) = none) :
    EventStep s (.message sched source msg)
      ((s.record (receive sched source msg s.op)).note source msg) := by
  by_cases hb : s.op.buffersStates
  · have hr : receive sched source msg s.op =
        ⟨{ s.op with counters := s.op.counters.recordGetAck cls count },
          (receive sched source msg s.op).out⟩ := by
      rw [hreceive]
      unfold receiveGetAckOf
      simp only [hb, ↓reduceIte]
      split <;> rfl
    refine .of_message (by rw [hr]; rfl) ?_ hmsg
    rw [hreceive]
    unfold receiveGetAckOf
    simp only [hb, ↓reduceIte]
    split
    · rfl
    · exact eventsOut_releaseBufferedStates _ sched
  · have hr : receive sched source msg s.op =
        checkIfStateMoved { s.op with counters := s.op.counters.recordGetAck cls count } sched := by
      rw [hreceive]
      unfold receiveGetAckOf
      simp only [hb, ↓reduceIte]
    obtain ⟨called, hst, hout⟩ := checked_checkIfStateMoved
      { s.op with counters := s.op.counters.recordGetAck cls count } sched
    refine .check { s.op with counters := s.op.counters.recordGetAck cls count } called hf rfl rfl
      (by rw [hr]; exact hst) ?_ (received_append_of_none hmsg)
    simp only [Session.note, Session.record, eventsOut_append, hr, hout]

theorem eventStep_putAck {s : Session MoveOperation} {sched : Schedule} {source : Middlebox}
    {cls : StateClass} {hashkey : Int} {k : Counters} (hf : s.op.failed = false)
    (hreceive : receive sched source (.putAck cls hashkey) s.op =
      receivePutAckOf { s.op with counters := k } sched hashkey) :
    EventStep s (.message sched source (.putAck cls hashkey))
      ((s.record (receive sched source (.putAck cls hashkey) s.op)).note source
        (.putAck cls hashkey)) := by
  obtain ⟨ref, chunk, rfl, rfl, ⟨hr, op', hop', he⟩ | ⟨pre, event, rest, e, hl, hn, he⟩⟩ :=
    receivePutAckOf_cases { s.op with counters := k } sched hashkey
  · obtain ⟨called, hst, hout⟩ := checked_checkIfStateMoved op' sched
    refine .putAck op' called rfl hf hr ?_ ?_ ?_ ?_ (received_append_of_none rfl)
    · rw [hop', events_withChunk]; rfl
    · rw [hop']; rfl
    · rw [hreceive, he]; exact hst
    · simp only [Session.note, Session.record, eventsOut_append, hreceive, he, hout]
      rfl
  · refine .putAckStopped rfl hf hl hn ?_ ?_ (received_append_of_none rfl)
    · rw [hreceive, he]
      exact events_withChunk _ _ _
    · rw [hreceive, he]
      simp [Session.note, Session.record, released, eventsOut]

omit [PacketUtil] in
theorem eventsOut_receiveEventsAck (op : MoveOperation) (source : Middlebox) :
    eventsOut (op.receiveEventsAck source).out = [] := by
  rcases op.receiveEventsAck_cases source with ⟨-, h⟩ | ⟨-, -, h⟩ | ⟨-, -, h⟩
  · rw [h]
    refine eventsOut_eq_nil fun event sw packet hm => ?_
    obtain ⟨cmd, cls, he, -⟩ := get_of_mem_issueGet hm
    cases he
  · rw [h]; rfl
  · rw [h]; rfl

omit [PacketUtil] in
theorem eventsOut_receiveState (op : MoveOperation) (msg : StateMessage) : eventsOut (op.receiveState msg).out = [] := by
  cases msg <;> simp only [receiveState, receiveStateMessage] <;>
  (try split) <;> rfl

omit [PacketUtil] in
theorem eventsOut_call_chunk (op : MoveOperation) (ref : ChunkRef) :
    eventsOut (op.stateChunks ref).call.out = [] := by
  refine eventsOut_eq_nil fun event sw packet hm => ?_
  obtain ⟨mb, putMsg, he⟩ := StateChunk.put_of_mem_call hm
  cases he

theorem eventsOut_receivePacket (op : MoveOperation) (packet : Packet) (inSwitch : Nat) (inPort : Int) :
    eventsOut (op.receivePacket packet inSwitch inPort).out = [] := by
  rcases op.receivePacket_cases packet inSwitch inPort with
    ⟨-, hr⟩ | ⟨-, -, ⟨_, -, hr⟩ | ⟨_, -, ⟨rules, hrules, hr⟩ | ⟨_, -, -, hr⟩⟩⟩
  · rw [hr]; rfl
  · rw [hr]; rfl
  · rw [hr]
    split at hrules
    · obtain rfl := Except.ok.inj hrules
      rfl
    · exact eventsOut_of_updateForwardingToDst hrules
  · rw [hr]; rfl

theorem eventsOut_receiveDstReprocess (op : MoveOperation) (msg : ReprocessMessage) :
    eventsOut (op.receiveDstReprocess msg).out = [] := by
  unfold receiveDstReprocess
  split
  · rfl
  · split
    · rfl
    · split <;> rfl

theorem eventsOut_receiveReprocess (op : MoveOperation) (msg : ReprocessMessage) (source : Middlebox) :
    eventsOut (op.receiveReprocess msg source).out = [] := by
  rw [receiveReprocess]
  split
  · rfl
  · split
    · rw [receiveSrcReprocess_out]
      rfl
    · exact eventsOut_receiveDstReprocess op msg

/-- Every input does one of these things to the events. -/
theorem eventStep_of_step {s s' : Session MoveOperation} {a : Input}
    (hg : s.op.guarantee ≠ .noGuarantee) (h : s.step a = some s') : EventStep s a s' := by
  cases a with
  | message sched source msg =>
      rcases Session.step_message h with ⟨-, rfl⟩ | ⟨hf, rfl⟩
      · exact .still rfl rfl rfl
      · cases msg with
        | state msg =>
            exact .of_message (events_receiveState s.op msg) (eventsOut_receiveState s.op msg) rfl
        | getAck cls count =>
            cases cls with
            | perflow => exact eventStep_getAck hf rfl rfl
            | multiflow => exact eventStep_getAck hf rfl rfl
            | allflows => exact .of_message rfl rfl rfl
            | config => exact .of_message rfl rfl rfl
        | putAck cls hashkey =>
            cases cls with
            | perflow => exact eventStep_putAck hf rfl
            | multiflow => exact eventStep_putAck hf rfl
            | allflows => exact .of_message rfl rfl rfl
            | config => exact .of_message rfl rfl rfl
        | eventsAck =>
            exact .of_message (events_receiveEventsAck s.op source)
              (eventsOut_receiveEventsAck s.op source) rfl
        | reprocess msg =>
            by_cases hs : source = s.op.src
            · have hr : receive sched source (.reprocess msg) s.op = s.op.receiveSrcReprocess msg := by
                simp only [receive, receiveReprocess, if_neg hg, if_pos hs]
              subst hs
              refine .arrive rfl hf ?_ ?_ rfl
              · exact (congrArg (fun r => events (Emit.val r)) hr).trans
                  (events_receiveSrcReprocess s.op msg)
              · simp only [Session.note, Session.record, eventsOut_append]
                rw [show (Handlers.receive sched s.op.src (.reprocess msg) s.op).out = _ from
                  congrArg Emit.out hr, receiveSrcReprocess_out]
                simp
            · have hr : receive sched source (.reprocess msg) s.op = s.op.receiveDstReprocess msg := by
                simp only [receive, receiveReprocess, if_neg hg, if_neg hs]
              refine .of_message ?_ ?_ (by simp [fromSrc, hs])
              · rw [hr, receiveDstReprocess_val]
              · rw [hr, eventsOut_receiveDstReprocess]
  | packet packet inSwitch inPort =>
      cases Session.step_packet h
      refine .still (events_receivePacket s.op packet inSwitch inPort) ?_ rfl
      rw [Session.record, eventsOut_append]
      exact (congrArg (eventsOut s.log ++ ·) (eventsOut_receivePacket s.op packet inSwitch inPort)).trans
        (List.append_nil _)
  | task i =>
      obtain ⟨task, ht, rfl⟩ := Session.step_task h
      cases task with
      | chunk ref =>
          refine .still ?_ ?_ rfl
          · exact congrArg (fun pool => ({ s.op.events with pool := pool } : EventState))
              (poolEvents_eraseIdx_chunk ht)
          · rw [Session.record, eventsOut_append]
            exact (congrArg (eventsOut s.log ++ ·) (eventsOut_call_chunk s.op ref)).trans (List.append_nil _)
      | event event =>
          obtain ⟨before, behind, hp, he⟩ := poolEvents_eraseIdx_event ht
          refine .run hp ?_ ?_ rfl
          · exact congrArg (fun pool => ({ s.op.events with pool := pool } : EventState)) he
          · simp [Session.record, released, Operation.call]

end MoveOperation

end OFM.Controller
