import OFM.Lib.Machine
import OFM.Controller.Lemmas.Share

/-!
# The packets a share gives back

The packet that was given back last is the first of those that wait, until its echo comes.
-/

namespace OFM.Controller
open OFM.Lib

section

variable [PacketUtil]

/-- The message is an event whose packet, with its flag, is this one. -/
def Message.Echoes (msg : Message) (packet : Packet) : Prop :=
  ∃ m, msg = .reprocess m ∧ ShareOperation.flagged m = .ok packet

def Input.Echoes : Input → Packet → Prop
  | .message _ _ msg => msg.Echoes
  | _ => fun _ => False

end

namespace ShareOperation

variable {op op' : ShareOperation} {r : Emit Effect ShareOperation} {key : JavaString}
  {echo : Packet → Prop}

/-- No event waits for a chunk, and no packet waits when the next one is to be given back at once. -/
structure Ready (op : ShareOperation) : Prop where
  bare : op.Bare
  called : op.callFromReprocess = true → op.isSyncFinished = true ∧ op.originalEvents = []

/-- The first packet that waits is the one that was given back last. -/
structure Waiting [Charset] (key : JavaString) (op : ShareOperation) : Prop where
  synced : op.isSyncFinished = true
  last : op.lastPacket = some (Charset.getBytes key)
  first : ∃ src rest, op.originalEvents = (key, src) :: rest
  called : op.callFromReprocess = false

theorem ready_new (consistency : Consistency) (id : Int) (instances : List Middlebox) (key : PerflowKey)
    (scope : Scope) : (new consistency id instances key scope).Ready :=
  ⟨fun _ => rfl, fun h => by cases h⟩

/-- Nothing has changed about the packets. -/
structure Same (op op' : ShareOperation) : Prop where
  bare : op.Bare → op'.Bare
  synced : op'.isSyncFinished = op.isSyncFinished
  last : op'.lastPacket = op.lastPacket
  events : op'.originalEvents = op.originalEvents
  called : op'.callFromReprocess = op.callFromReprocess

theorem Same.ready (h : op.Same op') (hop : op.Ready) : op'.Ready where
  bare := h.bare hop.bare
  called := by
    rw [h.called, h.synced, h.events]
    exact hop.called

theorem Same.waiting [Charset] (h : op.Same op') (hop : op.Waiting key) : op'.Waiting key where
  synced := h.synced.trans hop.synced
  last := h.last.trans hop.last
  first := by
    rw [h.events]
    exact hop.first
  called := h.called.trans hop.called

/-- A chunk is written to that no event waits for. -/
theorem bare_setChunk (h : op.Bare) (ref : ChunkRef) {chunk : StateChunk} (hchunk : chunk.eventsList = []) :
    ∀ ref', ((op.setChunk ref chunk).stateChunks ref').eventsList = [] := by
  intro ref'
  by_cases href : ref' = ref
  · rw [href, show (op.setChunk ref chunk).stateChunks ref = chunk from Function.update_self .., hchunk]
  · rw [show (op.setChunk ref chunk).stateChunks ref' = op.stateChunks ref' from Function.update_of_ne href ..]
    exact h ref'

theorem same_submitState (op : ShareOperation) (msg : StateMessage) : op.Same (op.submitState msg) :=
  ⟨fun h => bare_setChunk h _ (h _), rfl, rfl, rfl, rfl⟩

theorem same_countPutAck (op : ShareOperation) (cls : StateClass) (hashkey : Int) :
    op.Same (op.countPutAck cls hashkey) :=
  ⟨fun h => bare_setChunk h _ (h _), rfl, rfl, rfl, rfl⟩

theorem same_ackChunk (op : ShareOperation) (hashkey : Int) : op.Same (op.ackChunk hashkey) :=
  ⟨fun h => bare_setChunk h _ (h _), rfl, rfl, rfl, rfl⟩

/-! ## Queues of packets -/

theorem exists_first_put {m : LinkedHashMap JavaString Middlebox} (h : ∃ src rest, m = (key, src) :: rest)
    (packet : JavaString) (source : Middlebox) : ∃ src rest, m.put packet source = (key, src) :: rest := by
  obtain ⟨src, rest, rfl⟩ := h
  unfold LinkedHashMap.put
  split
  · rw [List.map_cons]
    by_cases hkey : key = packet
    · exact ⟨source, _, by rw [if_pos hkey, hkey]⟩
    · exact ⟨src, _, by rw [if_neg hkey]⟩
  · exact ⟨src, rest ++ [(packet, source)], rfl⟩

theorem not_mem_remove (m : LinkedHashMap JavaString Middlebox) (src : Middlebox) : (key, src) ∉ m.remove key := by
  intro h
  have hne := (List.mem_filter.mp h).2
  exact absurd rfl (of_decide_eq_true hne)

/-! ## Handlers -/

variable [Charset]

/-- What a handler does to the packets that wait; `echo` says which packets it may have been given. -/
structure Gives (echo : Packet → Prop) (op : ShareOperation) (r : Emit Effect ShareOperation) : Prop where
  ready : r.val.Ready
  given : ∀ src sw packet, .packetOut src sw packet ∈ r.out → ∃ key rest,
    r.val.originalEvents = (key, src) :: rest ∧ packet = Charset.getBytes key ∧ r.val.Waiting key
  waits : ∀ key, op.Waiting key → ¬ echo (Charset.getBytes key) → r.val.Waiting key

theorem Gives.of_same (h : op'.Gives echo r) (hsame : op.Same op') : op.Gives echo r :=
  { h with waits := fun key hop => h.waits key (hsame.waiting hop) }

theorem gives_of_same (h : op.Ready) (hsame : op.Same r.val)
    (hout : ∀ src sw packet, .packetOut src sw packet ∉ r.out) : op.Gives echo r where
  ready := hsame.ready h
  given src sw packet hmem := absurd hmem (hout src sw packet)
  waits _ hop _ := hsame.waiting hop

theorem gives_self (h : op.Ready) {out : List Effect} (hout : ∀ src sw packet, .packetOut src sw packet ∉ out) :
    op.Gives echo ⟨op, out⟩ :=
  gives_of_same h ⟨id, rfl, rfl, rfl, rfl⟩ hout

omit [Charset] in
theorem not_mem_gets (op : ShareOperation) (inst src : Middlebox) (sw : Nat) (packet : Packet) :
    .packetOut src sw packet ∉ op.gets inst := by
  intro h
  obtain ⟨cls, -, he⟩ := List.mem_filterMap.mp h
  cases cls <;> cases he

theorem gives_dequeueEvent (hbare : op.Bare) (hsync : op.isSyncFinished = true)
    (hcalled : op.callFromReprocess = true → op.originalEvents = []) : op.Gives echo op.dequeueEvent := by
  rcases op.dequeueEvent_cases with ⟨hnil, he⟩ | ⟨first, src, rest, hcons, h⟩
  · rw [he]
    refine ⟨⟨hbare, fun _ => ⟨hsync, hnil⟩⟩, fun _ _ _ h => absurd h List.not_mem_nil, fun key hop _ => ?_⟩
    obtain ⟨src, rest, hcons⟩ := hop.first
    rw [hnil] at hcons
    cases hcons
  · have hfalse : op.callFromReprocess = false := by
      by_contra htrue
      rw [hcalled (eq_true_of_ne_false htrue)] at hcons
      cases hcons
    have hready : op.callFromReprocess = true → op.isSyncFinished = true ∧ op.originalEvents = [] := by
      rw [hfalse]
      exact fun h => by cases h
    have hkey : ∀ key, op.Waiting key → first = key := by
      intro key hop
      obtain ⟨src', rest', hcons'⟩ := hop.first
      rw [hcons] at hcons'
      cases hcons'
      rfl
    rcases h with ⟨-, he⟩ | ⟨sw, -, he⟩
    · rw [he]
      refine ⟨⟨hbare, hready⟩, fun _ _ _ h => ?_, fun key hop _ =>
        hkey key hop ▸ ⟨hsync, rfl, ⟨src, rest, hcons⟩, hfalse⟩⟩
      cases List.mem_singleton.mp h
    · rw [he]
      refine ⟨⟨hbare, hready⟩, fun _ _ _ h => ?_, fun key hop _ =>
        hkey key hop ▸ ⟨hsync, rfl, ⟨src, rest, hcons⟩, hfalse⟩⟩
      cases List.mem_singleton.mp h
      exact ⟨first, rest, hcons, rfl, hsync, rfl, ⟨src, rest, hcons⟩, hfalse⟩

theorem gives_syncAllInstances (h : op.Ready) : op.Gives echo op.syncAllInstances := by
  rcases op.syncAllInstances_cases with ⟨-, he⟩ | ⟨inst, -, he⟩ | ⟨-, he⟩ <;> rw [he]
  · have hnext : ({ op with isSyncFinished := true } : ShareOperation).Gives echo
        ({ op with isSyncFinished := true } : ShareOperation).dequeueEvent :=
      gives_dequeueEvent h.bare rfl fun hc => (h.called hc).2
    exact { hnext with waits := fun key hop => hnext.waits key { hop with synced := rfl } }
  · exact gives_of_same h ⟨id, rfl, rfl, rfl, rfl⟩ (op.not_mem_gets inst)
  · exact gives_self h fun _ _ _ h => by cases List.mem_singleton.mp h

theorem gives_checkIfInstFinished (h : op.Ready) : op.Gives echo op.checkIfInstFinished := by
  rcases op.checkIfInstFinished_cases with ⟨-, he⟩ | ⟨-, he⟩ <;> rw [he]
  · exact gives_self h fun _ _ _ => List.not_mem_nil
  · have hsame : op.Same op.flushed := ⟨id, rfl, rfl, rfl, rfl⟩
    exact (gives_syncAllInstances (hsame.ready h)).of_same hsame

theorem gives_receiveState (h : op.Ready) (msg : StateMessage) : op.Gives echo (op.receiveState msg) := by
  unfold receiveState
  split
  · exact gives_self h fun _ _ _ => List.not_mem_nil
  · split
    · exact gives_of_same h (op.same_submitState msg) fun _ _ _ => List.not_mem_nil
    · refine gives_self h fun src sw packet hmem => ?_
      unfold putState at hmem
      split at hmem
      · obtain ⟨inst, -, he⟩ := List.mem_map.mp hmem
        cases he
      · split at hmem
        · cases hmem
        · cases List.mem_singleton.mp hmem

variable [PacketUtil]

theorem gives_receiveReprocess (h : op.Ready) (msg : ReprocessMessage) (source : Middlebox) :
    op.Gives (Message.reprocess msg).Echoes (op.receiveReprocess msg source) := by
  rcases op.receiveReprocess_cases msg source with ⟨e, -, he⟩ | ⟨pkt, hpkt, ⟨hsync, he⟩ |
    ⟨hsync, hlast, op', rfl, he⟩ | ⟨hsync, -, op', rfl, he⟩⟩
  · rw [he]
    exact gives_self h fun _ _ _ h => by cases List.mem_singleton.mp h
  · rw [he]
    refine ⟨⟨h.bare, fun hc => ?_⟩, fun _ _ _ h => absurd h List.not_mem_nil, fun key hop _ => ?_⟩
    · have htrue := (h.called hc).1
      rw [hsync] at htrue
      cases htrue
    · exact { hop with first := exists_first_put hop.first _ source }
  · -- The echo of the packet, which does not wait any longer.
    have hremoved : ({ op with originalEvents := op.originalEvents.remove (Charset.newString pkt) } :
        ShareOperation).Ready := by
      refine ⟨h.bare, fun hc => ⟨hsync, ?_⟩⟩
      show op.originalEvents.remove (Charset.newString pkt) = []
      rw [(h.called hc).2]
      rfl
    have hecho : ∀ key, op.Waiting key → (Message.reprocess msg).Echoes (Charset.getBytes key) := by
      intro key hop
      rw [hop.last] at hlast
      exact ⟨msg, rfl, Option.some.inj hlast ▸ hpkt⟩
    rcases he with ⟨e, -, he⟩ | ⟨fields, -, he⟩ <;> rw [he]
    · refine ⟨hremoved, fun _ _ _ h => ?_, fun key hop hno => absurd (hecho key hop) hno⟩
      cases List.mem_singleton.mp h
    · exact ⟨{ hremoved with }, fun src sw packet hmem => absurd hmem (not_mem_gets _ source src sw packet),
        fun key hop hno => absurd (hecho key hop) hno⟩
  · rcases he with ⟨hcall, he⟩ | ⟨hcall, he⟩ <;> rw [he]
    · refine ⟨⟨h.bare, fun hc => ?_⟩, fun _ _ _ h => absurd h List.not_mem_nil, fun key hop _ => ?_⟩
      · have hc : op.callFromReprocess = true := hc
        rw [hcall] at hc
        cases hc
      · exact { hop with first := exists_first_put hop.first _ source }
    · have hbare : ({ op with originalEvents := op.originalEvents.put (Charset.newString pkt) source } :
          ShareOperation).Bare := h.bare
      have hnext : ({ op with
          originalEvents := op.originalEvents.put (Charset.newString pkt) source
          callFromReprocess := false } : ShareOperation).Gives (Message.reprocess msg).Echoes _ :=
        gives_dequeueEvent hbare hsync fun hc => by cases hc
      refine ⟨hnext.ready, hnext.given, fun key hop _ => ?_⟩
      have hfalse := hop.called
      rw [hcall] at hfalse
      cases hfalse

theorem gives_receive (h : op.Ready) (source : Middlebox) (msg : Message) :
    op.Gives msg.Echoes (receive source msg op) := by
  cases msg with
  | state m => exact gives_receiveState h m
  | getAck cls count =>
      by_cases hcls : cls = .config
      · subst hcls
        exact gives_self h fun _ _ _ => List.not_mem_nil
      · rw [show receive source (.getAck cls count) op = _ from op.receiveGetAck_eq count hcls]
        have hsame : op.Same { op with counters := op.counters.recordGetAck cls count } :=
          ⟨id, rfl, rfl, rfl, rfl⟩
        exact (gives_checkIfInstFinished (hsame.ready h)).of_same hsame
  | putAck cls hashkey =>
      by_cases hcls : cls = .config
      · subst hcls
        exact gives_self h fun _ _ _ => List.not_mem_nil
      · rw [show receive source (.putAck cls hashkey) op = _ from op.receivePutAck_eq hashkey hcls]
        have hcount := op.same_countPutAck cls hashkey
        have hack := (op.countPutAck cls hashkey).same_ackChunk hashkey
        rcases receivePutAckOf_cases h.bare cls hashkey with ⟨-, he⟩ | ⟨-, he⟩ <;> rw [he]
        · exact gives_of_same h hcount fun _ _ _ => List.not_mem_nil
        · exact ((gives_checkIfInstFinished (hack.ready (hcount.ready h))).of_same hack).of_same hcount
  | eventsAck =>
      have hsame : op.Same { op with eventAckCount := op.eventAckCount + 1 } := ⟨id, rfl, rfl, rfl, rfl⟩
      rw [show receive source .eventsAck op = op.receiveEventsAck from rfl, receiveEventsAck]
      dsimp only
      split
      · exact (gives_syncAllInstances (hsame.ready h)).of_same hsame
      · exact gives_of_same h hsame fun _ _ _ => List.not_mem_nil
  | reprocess m => exact gives_receiveReprocess h m source

/-- A packet that echoes the one that waits is taken for it. -/
theorem Waiting.receiveReprocess (h : op.Waiting key) {msg : ReprocessMessage} (source : Middlebox)
    (hmsg : flagged msg = .ok (Charset.getBytes key)) :
    (op.receiveReprocess msg source).val.originalEvents =
      op.originalEvents.remove (Charset.newString (Charset.getBytes key)) := by
  rcases op.receiveReprocess_cases msg source with ⟨e, herror, -⟩ | ⟨pkt, hpkt, ⟨hsync, -⟩ |
    ⟨-, -, op', rfl, ⟨e, -, he⟩ | ⟨fields, -, he⟩⟩ | ⟨-, hlast, -⟩⟩
  · rw [hmsg] at herror
    cases herror
  · rw [h.synced] at hsync
    cases hsync
  · rw [hmsg] at hpkt
    cases hpkt
    rw [he]
  · rw [hmsg] at hpkt
    cases hpkt
    rw [he]
    rfl
  · rw [hmsg] at hpkt
    cases hpkt
    exact absurd h.last hlast

end ShareOperation

/-! ## Sessions -/

namespace Session

variable [PacketUtil] [Charset] {s s' : Session ShareOperation} {a : Input}

/-- One step of a share. -/
theorem gives_step (h : s.op.Ready) (hs : s.step a = some s') :
    ∃ out, s'.log = s.log ++ out ∧ s.op.Gives a.Echoes ⟨s'.op, out⟩ := by
  cases a with
  | message sched source msg =>
      rcases step_message hs with ⟨-, rfl⟩ | ⟨-, rfl⟩
      · exact ⟨[], (List.append_nil _).symm, ShareOperation.gives_self h fun _ _ _ => List.not_mem_nil⟩
      · exact ⟨_, rfl, ShareOperation.gives_receive h source msg⟩
  | packet packet inSwitch inPort =>
      cases step_packet hs
      exact ⟨[], rfl, ShareOperation.gives_self h fun _ _ _ => List.not_mem_nil⟩
  | task i =>
      obtain ⟨task, -, rfl⟩ := step_task hs
      refine ⟨_, rfl, ShareOperation.gives_of_same h ⟨id, rfl, rfl, rfl, rfl⟩ fun src sw packet hmem => ?_⟩
      cases task with
      | chunk ref =>
          have hmem : _ ∈ (s.op.stateChunks ref).call.out := hmem
          unfold StateChunk.call at hmem
          split at hmem
          · split at hmem
            · obtain ⟨dst, -, he⟩ := List.mem_map.mp hmem
              cases he
            · cases hmem
          · cases hmem
      | event event =>
          obtain ⟨sw', packet', he⟩ := @ReprocessEvent.eventOut_of_mem_sent _ event _ hmem
          cases he

theorem ready_run {op : ShareOperation} {as : List Input} (h : op.Ready)
    (hr : Machine.run Session.step (.start op) as = some s) : s.op.Ready := by
  refine Machine.run_invariant' (I := fun s : Session ShareOperation => s.op.Ready) h (fun t a t' ht hs => ?_) hr
  obtain ⟨out, -, hgives⟩ := gives_step ht hs
  exact hgives.ready

/-- A packet waits until its echo comes. -/
theorem waiting_run {key : JavaString} {as : List Input} (hready : s.op.Ready) (h : s.op.Waiting key)
    (hr : Machine.run Session.step s as = some s') (has : ∀ a ∈ as, ¬ a.Echoes (Charset.getBytes key)) :
    s'.op.Waiting key := by
  have hstep : ∀ (t : Session ShareOperation) (a : Input) (t' : Session ShareOperation),
      t.op.Ready ∧ t.op.Waiting key → ¬ a.Echoes (Charset.getBytes key) → t.step a = some t' →
        t'.op.Ready ∧ t'.op.Waiting key := by
    intro t a t' ht hno hs
    obtain ⟨out, -, hgives⟩ := gives_step ht.1 hs
    exact ⟨hgives.ready, hgives.waits key ht.2 hno⟩
  have halong : Machine.Along Session.step (fun _ a => ¬ a.Echoes (Charset.getBytes key)) s as :=
    (Machine.along_action_iff hr).mpr has
  exact (Machine.run_invariant ⟨hready, h⟩ hstep halong hr).2

end Session

end OFM.Controller
