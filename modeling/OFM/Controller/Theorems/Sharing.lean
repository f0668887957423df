import OFM.Controller.Lemmas.Sharing
import OFM.Controller.Theorems.Echoes

/-!
# Packets given back one by one

A share gives packets back one at a time, in the order in which they came, and none before the state that the last
one has changed has been put to all instances.
-/

namespace OFM.Controller
open OFM.Lib

/-! ## Instances that report -/

/-- An instance that reports each packet, and may hold the state of one flow. -/
inductive Watcher
  | idle
  | holding

namespace Watcher

def report (packet : Packet) : Message := .reprocess ⟨1, [], ReprocessEvent.encodeBytes packet ++ [0]⟩

def chunks (v : Watcher) (cmd : Command) : List StateMessage :=
  match v, cmd.getClass with
  | .holding, some .perflow => [.perflow 1 0 none 5 [0x61]]
  | _, _ => []

def run (v : Watcher) (cmd : Command) : Watcher × List Message :=
  match cmd.putContent, cmd.getClass with
  | some c, _ => (v, [.putAck c.cls c.hashkey])
  | none, some cls => (v, (v.chunks cmd).map .state ++ [.getAck cls (v.chunks cmd).length])
  | none, none => (v, [.eventsAck])

theorem chunks_cases (v : Watcher) (cmd : Command) :
    v.chunks cmd = [] ∨ cmd.getClass = some .perflow ∧ v.chunks cmd = [.perflow 1 0 none 5 [0x61]] := by
  unfold chunks
  split
  case h_1 hget => exact Or.inr ⟨hget, rfl⟩
  case h_2 => exact Or.inl rfl

instance : Sharer Watcher Packet where
  command := run
  stimulus v packet := some (v, [report packet])
  packet v packet := (v, [report packet])
  classOf _ := .perflow
  chunks := chunks
  chunks_cls v cmd cls hget msg hmsg := by
    rcases v.chunks_cases cmd with hnone | ⟨hperflow, hone⟩
    · rw [hnone] at hmsg
      cases hmsg
    · rw [hone] at hmsg
      obtain rfl := Option.some.inj (hget.symm.trans hperflow)
      rw [List.mem_singleton.mp hmsg]
      exact ⟨rfl, rfl⟩
  chunks_nodup v cmd := by
    rcases v.chunks_cases cmd with hnone | ⟨-, hone⟩
    · rw [hnone]
      exact List.nodup_nil
    · rw [hone]
      exact List.nodup_singleton _
  command_get v cmd cls hget := by
    have hput := (Command.of_get (hget ▸ Option.some_ne_none cls)).1
    simp only [run, hput, hget]
  command_put v cmd c hput := by simp only [run, hput]
  command_toggle v cmd htoggle := by
    obtain ⟨hput, hget⟩ := Command.of_toggle htoggle
    simp only [run, hput, hget]
  stimulus_reprocess v packet r hr msg hmsg := by
    cases hr
    exact ⟨_, List.mem_singleton.mp hmsg⟩
  packet_reprocess v packet msg hmsg := ⟨_, List.mem_singleton.mp hmsg⟩

end Watcher

def firstWatcher : Middlebox := ⟨[], 1, some 0, 0⟩
def secondWatcher : Middlebox := ⟨[], 2, some 0, 0⟩

/-- The first one of them holds a chunk. -/
def watchers (mb : Middlebox) : Watcher := if mb = firstWatcher then .holding else .idle

/-- A strict share between them. -/
abbrev watched : Network ShareOperation Watcher :=
  letI := floodlight
  letI := latin1
  Network.start (ShareStrictOperation.new 1 [firstWatcher, secondWatcher] PerflowKey.new .perflow) watchers

/-- A round: the chunk of the first instance is put to the second one. -/
def sharing : List (Act Packet) :=
  [.read firstWatcher, .deliver .inOrder 0, .deliver .inOrder 0, .read secondWatcher, .deliver .inOrder 0]

/-- The first instance reports a packet. After a round with the state of either instance it is given back. -/
def reporting : List (Act Packet) :=
  [.read firstWatcher, .read secondWatcher, .stimulus firstWatcher (Floodlight.datagram 0x1234),
    .deliver .inOrder 2, .deliver .inOrder 0, .deliver .inOrder 0] ++ sharing ++
  [.read secondWatcher, .deliver .inOrder 0]

/-- The second instance reports a packet. The first one comes again, and the round after it is all but over. -/
def echoing : List (Act Packet) :=
  [.stimulus secondWatcher (Floodlight.datagram 0x4321), .deliver .inOrder 0, .forward 0, .deliver .inOrder 0] ++
    sharing.dropLast

/-- The round ends, and the second packet is given back and comes again. -/
def ending : List (Act Packet) :=
  [.deliver .inOrder 0, .forward 0, .deliver .inOrder 0, .read secondWatcher, .deliver .inOrder 0]

/-! ## One at a time -/

namespace Network

variable {ν ι : Type} [Sharer ν ι] [PacketUtil] [Charset] {n n' : Network ShareOperation ν} {a : Act ι}

theorem tallied_start (consistency : Consistency) (id : Int) {instances : List Middlebox}
    (key : PerflowKey) (scope : Scope) (nf : Middlebox → ν) :
    (start (ShareOperation.new consistency id instances key scope) nf).Tallied := by
  intro mb
  show (putsTo mb (ShareOperation.new consistency id instances key scope).enableEvents).map _ + 0 + 0 = _
  rw [add_zero, add_zero]
  rfl

omit [PacketUtil] [Charset] in
/-- The filters that a share begins with open nothing. -/
theorem not_opens_of_enableEvents (op : ShareOperation) : ∀ e ∈ op.enableEvents, ¬ e.Opens := by
  intro e he
  obtain ⟨inst, -, rfl⟩ := mem_enableEvents he
  exact fun h => h rfl

theorem outstanding_start (op : ShareOperation) (nf : Middlebox → ν) :
    outstanding (start op nf).log = none := outstandingAfter_of_not_opens (not_opens_of_enableEvents op)

theorem shares_start (consistency : Consistency) (id : Int) {instances : List Middlebox} (key : PerflowKey)
    (scope : Scope) (hnodup : instances.Nodup) (nf : Middlebox → ν) :
    (start (ShareOperation.new consistency id instances key scope) nf).Shares := by
  have hopens := not_opens_of_enableEvents (ShareOperation.new consistency id instances key scope)
  have hlast := outstanding_start (ShareOperation.new consistency id instances key scope) nf
  refine ⟨confined_start (ShareOperation.sound_new ..) hnodup nf, Nat.zero_le _, fun h => ?_, ?_,
    .enabling rfl rfl rfl hlast (fun h => ?_) (enabling_start consistency id key scope hnodup nf)⟩
  · cases h
  · exact serial_nil.append fun src sw packet hmem => hopens _ hmem trivial
  · exact List.eq_nil_of_length_eq_zero (Eq.symm h)

/-- An operation that has failed has done so for good. -/
theorem failed_step (h : n.op.failed = true) (hs : n.step a = some n') : n'.op.failed = true := by
  cases a with
  | read mb =>
      obtain ⟨cmd, rest, -, rfl⟩ := step_read hs
      exact h
  | deliver sched i =>
      obtain ⟨source, msg, before, behind, -, -, -, ⟨-, rfl⟩ | ⟨hf, -⟩⟩ := step_deliver hs
      · exact h
      · have hf : n.op.failed = false := hf
        rw [h] at hf
        cases hf
  | stimulus mb x =>
      obtain ⟨r, -, rfl⟩ := step_stimulus hs
      exact h
  | forward i =>
      obtain ⟨mb, packet, before, behind, -, rfl⟩ := step_forward hs
      exact h
  | packetIn packet inSwitch inPort =>
      cases step_packetIn hs
      exact h
  | task i =>
      obtain ⟨task, -, rfl⟩ := step_task hs
      exact h

/-- A step of an operation that has failed opens nothing. -/
theorem not_opens_of_failed (h : n.Shares) (hf : n.op.failed = true) (hs : n.step a = some n') {out : List Effect}
    (hlog : n'.log = n.log ++ out) : ∀ e ∈ out, ¬ e.Opens := by
  have hnil : n'.log = n.log → ∀ e ∈ out, ¬ e.Opens := by
    intro heq e he
    rw [heq] at hlog
    rw [List.append_right_eq_self.mp hlog.symm] at he
    cases he
  cases a with
  | read mb =>
      obtain ⟨cmd, rest, -, rfl⟩ := step_read hs
      exact hnil rfl
  | deliver sched i =>
      obtain ⟨source, msg, before, behind, -, -, -, ⟨-, rfl⟩ | ⟨hf', -⟩⟩ := step_deliver hs
      · exact hnil rfl
      · have hf' : n.op.failed = false := hf'
        rw [hf] at hf'
        cases hf'
  | stimulus mb x =>
      obtain ⟨r, -, rfl⟩ := step_stimulus hs
      exact hnil rfl
  | forward i =>
      obtain ⟨mb, packet, before, behind, -, rfl⟩ := step_forward hs
      exact hnil rfl
  | packetIn packet inSwitch inPort =>
      cases step_packetIn hs
      exact hnil (List.append_nil _)
  | task i =>
      obtain ⟨task, hi, rfl⟩ := step_task hs
      obtain ⟨ref, rfl⟩ := h.confined.op.pool task (List.mem_of_getElem? hi)
      obtain rfl := List.append_cancel_left hlog
      intro e he
      obtain ⟨_, _, putMsg, _, _, _, _, _, rfl⟩ := call_puts he
      exact fun hopens => hopens rfl

/-- Of a share that has not failed each put is under way, has been acked, or is being acked. -/
structure Runs (n : Network ShareOperation ν) : Prop where
  shares : n.Shares
  tallied : n.op.failed = false → n.Tallied

theorem Runs.step (h : n.Runs) (hok : n.InPlace a) (hs : n.step a = some n') : n'.Runs := by
  obtain ⟨out, hmoves⟩ := h.shares.step hok hs
  refine ⟨hmoves.shares, fun hrun => ?_⟩
  have hrun' : n.op.failed = false := by
    by_contra hf
    rw [failed_step (eq_true_of_ne_false hf) hs] at hrun
    cases hrun
  exact (h.tallied hrun').step hrun' hs

section Start

variable (consistency : Consistency) (id : Int) {instances : List Middlebox} (key : PerflowKey) (scope : Scope)

theorem runs_start (hnodup : instances.Nodup) (nf : Middlebox → ν) :
    (start (ShareOperation.new consistency id instances key scope) nf).Runs :=
  ⟨shares_start consistency id key scope hnodup nf, fun _ => tallied_start consistency id key scope nf⟩

/-- In a run in which an event is taken for an echo only while its packet is outstanding, no packet is given back
while another one is, and whenever a packet is given back or an instance is asked for its state each chunk that any
instance has sent has been put to all others and acked by them. -/
theorem one_at_a_time (hnodup : instances.Nodup) (nf : Middlebox → ν) {as : List (Act ι)}
    (hok : Machine.Along step InPlace (start (ShareOperation.new consistency id instances key scope) nf) as)
    (hr : Machine.run step (start (ShareOperation.new consistency id instances key scope) nf) as = some n) :
    Serial n.log ∧ ∀ a n' out, n.InPlace a → n.step a = some n' → n'.log = n.log ++ out →
      (∃ e ∈ out, e.Opens) → n'.Settled := by
  have hruns : n.Runs := Machine.run_invariant (runs_start consistency id key scope hnodup nf)
    (fun _ _ _ h hat hs => h.step hat hs) hok hr
  refine ⟨hruns.shares.serial, fun a n' out hat hs hlog hopens => ?_⟩
  obtain ⟨out', hmoves⟩ := hruns.shares.step hat hs
  obtain rfl : out' = out := List.append_cancel_left (hmoves.log.symm.trans hlog)
  have hrun : n.op.failed = false := by
    by_contra hf
    obtain ⟨e, he, hopen⟩ := hopens
    exact not_opens_of_failed hruns.shares (eq_true_of_ne_false hf) hs hlog e he hopen
  exact settled hmoves.shares.confined (hmoves.idle hopens) ((hruns.tallied hrun).step hrun hs)

end Start

omit [PacketUtil] [Charset] in
theorem one_at_a_time_watched :
    letI := floodlight
    letI := latin1
    ∃ n n', Machine.run step watched (reporting ++ echoing) = some n ∧
      n.step (.deliver .inOrder 0 : Act Packet) = some n' ∧
      packetsOut n'.log = [(firstWatcher, Floodlight.flaggedDatagram 0x1234), (secondWatcher, Floodlight.flaggedDatagram 0x4321)] ∧
      Serial n.log ∧ n'.Settled := by
  let _ := floodlight
  let _ := latin1
  have hok : Machine.Along step InPlace watched (reporting ++ echoing) := by decide
  have hrun : (Machine.run step watched (reporting ++ echoing)).any (fun n =>
      decide (n.InPlace (.deliver .inOrder 0 : Act Packet)) &&
        (n.step (.deliver .inOrder 0 : Act Packet)).any fun n' => decide
          (n'.log = n.log ++ [.packetOut secondWatcher 0 (Floodlight.flaggedDatagram 0x4321)] ∧
            packetsOut n'.log = [(firstWatcher, Floodlight.flaggedDatagram 0x1234), (secondWatcher, Floodlight.flaggedDatagram 0x4321)])) =
      true := by decide
  obtain ⟨n, hn, hgiven⟩ := (Option.any_eq_true _ _).mp hrun
  obtain ⟨hplace, hgiven⟩ := (Bool.and_eq_true _ _).mp hgiven
  obtain ⟨n', hn', hgiven⟩ := (Option.any_eq_true _ _).mp hgiven
  obtain ⟨hlog, hpackets⟩ := of_decide_eq_true hgiven
  obtain ⟨hserial, hsettled⟩ := one_at_a_time .strict 1 PerflowKey.new .perflow (by decide) watchers hok hn
  refine ⟨n, n', hn, hn', hpackets, hserial, ?_⟩
  exact hsettled _ n' _ (of_decide_eq_true hplace) hn' hlog ⟨_, List.mem_singleton_self _, trivial⟩

end Network

/-! ## In the order in which they came -/

namespace ShareOperation

variable [Charset]

/-- The packets that wait; the one that is outstanding does not wait any more. -/
def waits (events : LinkedHashMap JavaString Middlebox) (last : Option Packet) : List (Middlebox × Packet) :=
  (events.map fun e => (e.2, Charset.getBytes e.1)).filter fun z => last ≠ some z.2

/-- The keys are packets as texts, each of them once. -/
structure Keyed (events : LinkedHashMap JavaString Middlebox) : Prop where
  nodup : (events.map Prod.fst).Nodup
  text : ∀ e ∈ events, Charset.newString (Charset.getBytes e.1) = e.1

/-- What a handler does to the packets: some are given back, and some are noted. -/
structure Accounts (last : Option Packet) (op : ShareOperation) (added : List (Middlebox × Packet))
    (r : Emit Effect ShareOperation) : Prop where
  keyed : Keyed r.val.originalEvents
  passes : packetsOut r.out ++ waits r.val.originalEvents (outstandingAfter last r.out) =
    waits op.originalEvents last ++ added

variable {op op' : ShareOperation} {last : Option Packet} {events : LinkedHashMap JavaString Middlebox}
  {packet : Packet} {src source : Middlebox} {r : Emit Effect ShareOperation}

omit [Charset] in
theorem packetsOut_of_not_opens {out : List Effect} (h : ∀ e ∈ out, ¬ e.Opens) : packetsOut out = [] := by
  refine List.filterMap_eq_nil_iff.mpr fun e he => ?_
  cases e with
  | packetOut => exact absurd trivial (h _ he)
  | _ => rfl

theorem waits_none (events : LinkedHashMap JavaString Middlebox) :
    waits events none = events.map fun e => (e.2, Charset.getBytes e.1) :=
  List.filter_eq_self.mpr fun z _ => by simp

/-- An event whose packet no other one has. -/
theorem waits_put (hnew : ∀ e ∈ events, e.1 ≠ Charset.newString packet) (hlast : last ≠ some packet)
    (hbytes : Charset.getBytes (Charset.newString packet) = packet) :
    waits (events.put (Charset.newString packet) source) last = waits events last ++ [(source, packet)] := by
  have hput : events.put (Charset.newString packet) source = events ++ [(Charset.newString packet, source)] := by
    refine if_neg fun h => ?_
    obtain ⟨e, he, heq⟩ := List.any_eq_true.mp h
    exact hnew e he (of_decide_eq_true heq)
  rw [hput, waits, List.map_append, List.filter_append]
  refine congrArg (waits events last ++ ·) ?_
  simp [hbytes, hlast]

theorem Keyed.put (h : Keyed events) (hnew : ∀ e ∈ events, e.1 ≠ Charset.newString packet)
    (hbytes : Charset.getBytes (Charset.newString packet) = packet) :
    Keyed (events.put (Charset.newString packet) source) := by
  have hput : events.put (Charset.newString packet) source = events ++ [(Charset.newString packet, source)] := by
    refine if_neg fun h => ?_
    obtain ⟨e, he, heq⟩ := List.any_eq_true.mp h
    exact hnew e he (of_decide_eq_true heq)
  rw [hput]
  refine ⟨?_, fun e he => ?_⟩
  · rw [List.map_append, List.nodup_append]
    refine ⟨h.nodup, List.nodup_singleton _, fun key hkey key' hkey' => ?_⟩
    obtain ⟨e, he, rfl⟩ := List.mem_map.mp hkey
    rw [List.mem_singleton.mp hkey']
    exact hnew e he
  · rcases List.mem_append.mp he with he | he
    · exact h.text e he
    · rw [List.mem_singleton.mp he, hbytes]

/-- The echo of the outstanding packet has come. -/
theorem waits_remove (h : Keyed events) (hbytes : Charset.getBytes (Charset.newString packet) = packet) :
    waits (events.remove (Charset.newString packet)) none = waits events (some packet) := by
  rw [waits_none, LinkedHashMap.remove, waits, List.filter_map]
  refine congrArg (List.map _) (List.filter_congr fun e he => decide_eq_decide.mpr (not_congr ?_))
  constructor
  · intro heq
    show some packet = some (Charset.getBytes e.1)
    rw [heq, hbytes]
  · intro heq
    rw [← h.text e he, Option.some.inj heq]

theorem Keyed.remove (h : Keyed events) (key : JavaString) : Keyed (events.remove key) :=
  ⟨h.nodup.sublist ((List.filter_sublist).map _), fun e he => h.text e (List.mem_of_mem_filter he)⟩

theorem waits_remove_again (h : Keyed events) (hbytes : Charset.getBytes (Charset.newString packet) = packet) :
    waits (events.remove (Charset.newString packet)) (some packet) = waits events (some packet) := by
  have hfilter : ∀ m : LinkedHashMap JavaString Middlebox, waits m (some packet) =
      (waits m none).filter fun z => some packet ≠ some z.2 := by
    intro m
    rw [waits_none]
    rfl
  rw [hfilter, waits_remove h hbytes, hfilter, List.filter_filter]
  simp

/-- The first packet that waits is given back. -/
theorem waits_cons {key : JavaString} (h : Keyed ((key, src) :: events)) :
    (src, Charset.getBytes key) :: waits ((key, src) :: events) (some (Charset.getBytes key)) =
      waits ((key, src) :: events) none := by
  have hrest : ∀ z ∈ events.map fun e => (e.2, Charset.getBytes e.1),
      decide (some (Charset.getBytes key) ≠ some z.2) = true := by
    intro z hz
    obtain ⟨e, he, rfl⟩ := List.mem_map.mp hz
    refine decide_eq_true fun heq => ?_
    have heq : some (Charset.getBytes key) = some (Charset.getBytes e.1) := heq
    have hkey : e.1 = key := by
      rw [← h.text e (List.mem_cons_of_mem _ he), ← Option.some.inj heq]
      exact h.text (key, src) (List.mem_cons_self ..)
    have hnodup := h.nodup
    rw [List.map_cons, List.nodup_cons] at hnodup
    exact hnodup.1 (List.mem_map.mpr ⟨e, he, hkey⟩)
  rw [waits_none, waits, List.map_cons, List.filter_cons_of_neg (by simp), List.filter_eq_self.mpr hrest]

/-! ## Handlers -/

theorem accounts_of_same (h : Keyed op.originalEvents) (hevents : r.val.originalEvents = op.originalEvents)
    (hout : ∀ e ∈ r.out, ¬ e.Opens) : Accounts last op [] r := by
  refine ⟨hevents ▸ h, ?_⟩
  rw [packetsOut_of_not_opens hout, outstandingAfter_of_not_opens hout, hevents, List.append_nil]
  rfl

theorem accounts_gets (h : Keyed op'.originalEvents) (inst : Middlebox)
    (hwaits : waits op'.originalEvents none = waits op.originalEvents last)
    (hval : r.val.originalEvents = op'.originalEvents) (hout : r.out = op'.gets inst) : Accounts last op [] r := by
  obtain ⟨hne, hgets⟩ := op'.gets_open inst
  have hpackets : packetsOut r.out = [] := by
    refine List.filterMap_eq_nil_iff.mpr fun e he => ?_
    obtain ⟨mb, cmd, rfl, -⟩ := hgets e (hout ▸ he)
    rfl
  refine ⟨hval ▸ h, ?_⟩
  rw [hpackets, hval, hout, outstandingAfter_of_gets hne hgets, hwaits, List.append_nil]
  rfl

theorem accounts_dequeueEvent (h : Keyed op.originalEvents) : Accounts none op [] op.dequeueEvent := by
  rcases op.dequeueEvent_cases with ⟨-, he⟩ | ⟨key, src, rest, hcons, ⟨-, he⟩ | ⟨sw, -, he⟩⟩ <;> rw [he]
  · exact accounts_of_same h rfl fun _ hmem => absurd hmem List.not_mem_nil
  · refine accounts_of_same h rfl fun e hmem => ?_
    rw [List.mem_singleton.mp hmem]
    exact id
  · refine ⟨h, ?_⟩
    rw [List.append_nil]
    show (src, Charset.getBytes key) :: waits op.originalEvents (some (Charset.getBytes key)) =
      waits op.originalEvents none
    rw [hcons] at h ⊢
    exact waits_cons h

theorem accounts_syncAllInstances (h : Keyed op.originalEvents) : Accounts none op [] op.syncAllInstances := by
  rcases op.syncAllInstances_cases with ⟨-, he⟩ | ⟨inst, -, he⟩ | ⟨-, he⟩ <;> rw [he]
  · have hnext := @accounts_dequeueEvent _ { op with isSyncFinished := true } h
    exact ⟨hnext.keyed, hnext.passes⟩
  · exact accounts_gets h inst rfl rfl rfl
  · refine accounts_of_same h rfl fun e hmem => ?_
    rw [List.mem_singleton.mp hmem]
    exact id

theorem accounts_checkIfInstFinished (h : Keyed op.originalEvents) :
    Accounts none op [] op.checkIfInstFinished := by
  rcases op.checkIfInstFinished_cases with ⟨-, he⟩ | ⟨-, he⟩ <;> rw [he]
  · exact accounts_of_same h rfl fun _ hmem => absurd hmem List.not_mem_nil
  · have hnext := @accounts_syncAllInstances _ op.flushed h
    exact ⟨hnext.keyed, hnext.passes⟩

theorem accounts_receiveState (h : Keyed op.originalEvents) (m : StateMessage) :
    Accounts last op [] (op.receiveState m) := by
  unfold receiveState
  split
  · exact accounts_of_same h rfl fun _ hmem => absurd hmem List.not_mem_nil
  · split
    · exact accounts_of_same h rfl fun _ hmem => absurd hmem List.not_mem_nil
    · exact accounts_of_same h rfl (Network.putState_opens op _)

theorem accounts_receiveGetAck (h : Keyed op.originalEvents) (cls : StateClass) (count : Int) :
    Accounts none op [] (op.receiveGetAck cls count) := by
  by_cases hcls : cls = .config
  · rw [hcls]
    exact accounts_of_same h rfl fun _ hmem => absurd hmem List.not_mem_nil
  rw [op.receiveGetAck_eq count hcls]
  have hnext := @accounts_checkIfInstFinished _ { op with counters := op.counters.recordGetAck cls count } h
  exact ⟨hnext.keyed, hnext.passes⟩

theorem accounts_receiveEventsAck (h : Keyed op.originalEvents) : Accounts none op [] op.receiveEventsAck := by
  unfold receiveEventsAck
  dsimp only
  split
  · have hnext := @accounts_syncAllInstances _ { op with eventAckCount := op.eventAckCount + 1 } h
    exact ⟨hnext.keyed, hnext.passes⟩
  · exact accounts_of_same h rfl fun _ hmem => absurd hmem List.not_mem_nil

variable [PacketUtil]

theorem accounts_receivePutAck (h : Keyed op.originalEvents) (hbare : op.Bare) (cls : StateClass) (hashkey : Int) :
    Accounts none op [] (op.receivePutAck cls hashkey) := by
  by_cases hcls : cls = .config
  · rw [hcls]
    exact accounts_of_same h rfl fun _ hmem => absurd hmem List.not_mem_nil
  rw [op.receivePutAck_eq hashkey hcls]
  rcases receivePutAckOf_cases hbare cls hashkey with ⟨-, he⟩ | ⟨-, he⟩ <;> rw [he]
  · exact accounts_of_same h rfl fun _ hmem => absurd hmem List.not_mem_nil
  · have hnext := @accounts_checkIfInstFinished _ ((op.countPutAck cls hashkey).ackChunk hashkey) h
    exact ⟨hnext.keyed, hnext.passes⟩

/-- A packet is noted if it is not taken for an echo. -/
def noted (op : ShareOperation) (z : Middlebox × Packet) : List (Middlebox × Packet) :=
  if op.isSyncFinished = true ∧ op.lastPacket = some z.2 then [] else [z]

/-- The charset keeps a packet, and if it is noted no packet that waits is the same. -/
def Distinct (op : ShareOperation) (z : Middlebox × Packet) : Prop :=
  Charset.getBytes (Charset.newString z.2) = z.2 ∧
    (z ∈ op.noted z → ∀ e ∈ op.originalEvents, e.1 ≠ Charset.newString z.2)

instance decidableDistinct (op : ShareOperation) (z : Middlebox × Packet) : Decidable (op.Distinct z) :=
  inferInstanceAs (Decidable (_ ∧ _))

theorem accounts_of_error (h : Keyed op.originalEvents) {m : ReprocessMessage} {e : JavaException}
    (herror : flagged m = .error e) : Accounts last op [] (op.receiveReprocess m source) := by
  rw [receiveReprocess, herror]
  refine accounts_of_same h rfl fun e' hmem => ?_
  rw [List.mem_singleton.mp hmem]
  exact id

theorem accounts_receiveReprocess (h : Keyed op.originalEvents) {m : ReprocessMessage}
    (hpacket : flagged m = .ok packet) (hdistinct : op.Distinct (source, packet))
    (hlast : ∀ packet, last = some packet → op.isSyncFinished = true ∧ op.lastPacket = some packet)
    (hplace : op.lastPacket = some packet → last = some packet)
    (hcalled : op.callFromReprocess = true → last = none) :
    Accounts last op (op.noted (source, packet)) (op.receiveReprocess m source) := by
  rcases op.receiveReprocess_cases m source with ⟨e, herror, -⟩ | ⟨packet', hpacket', hcases⟩
  · rw [hpacket] at herror
    cases herror
  obtain rfl : packet = packet' := Except.ok.inj (hpacket.symm.trans hpacket')
  obtain ⟨hbytes, hnew⟩ := hdistinct
  have hnoted : op.noted (source, packet) =
      if op.isSyncFinished = true ∧ op.lastPacket = some packet then [] else [(source, packet)] := rfl
  -- An event that is no echo.
  have hput : ¬ (op.isSyncFinished = true ∧ op.lastPacket = some packet) →
      op.noted (source, packet) = [(source, packet)] ∧
      Keyed (op.originalEvents.put (Charset.newString packet) source) ∧
      waits (op.originalEvents.put (Charset.newString packet) source) last =
        waits op.originalEvents last ++ [(source, packet)] := by
    intro hno
    rw [if_neg hno] at hnoted
    have hnew := hnew (hnoted ▸ List.mem_singleton_self _)
    exact ⟨hnoted, h.put hnew hbytes, waits_put hnew (fun heq => hno (hlast packet heq)) hbytes⟩
  rcases hcases with ⟨hfin, he⟩ | ⟨hfin, hecho, op', rfl, he⟩ | ⟨hfin, hecho, op', rfl, he⟩
  · obtain ⟨hnoted, hkeyed, hwaits⟩ := hput fun hyes => by simp [hfin] at hyes
    rw [he, hnoted]
    exact ⟨hkeyed, hwaits⟩
  · rw [if_pos ⟨hfin, hecho⟩] at hnoted
    obtain rfl := hplace hecho
    rw [hnoted]
    rcases he with ⟨e, -, he⟩ | ⟨fields, -, he⟩ <;> rw [he]
    · refine ⟨h.remove _, ?_⟩
      rw [List.append_nil]
      exact waits_remove_again h hbytes
    · exact @accounts_gets _ _ { op with
        originalEvents := op.originalEvents.remove (Charset.newString packet)
        key := .fromOFMatch fields } _ _ (h.remove _) source (waits_remove h hbytes) rfl rfl
  · obtain ⟨hnoted, hkeyed, hwaits⟩ := hput fun hyes => hecho hyes.2
    rw [hnoted]
    rcases he with ⟨-, he⟩ | ⟨hyes, he⟩ <;> rw [he]
    · exact ⟨hkeyed, hwaits⟩
    · obtain rfl := hcalled hyes
      have hnext := @accounts_dequeueEvent _ { op with
        originalEvents := op.originalEvents.put (Charset.newString packet) source
        callFromReprocess := false } hkeyed
      exact ⟨hnext.keyed, hnext.passes.trans ((List.append_nil _).trans hwaits)⟩

end ShareOperation

namespace Network

variable {ν ι : Type} [Sharer ν ι] [PacketUtil] [Charset] {n n' : Network ShareOperation ν} {a : Act ι}

/-- The packets that a step notes. -/
def filed (n : Network ShareOperation ν) : Act ι → List (Middlebox × Packet)
  | .deliver _ i => if n.op.failed then [] else (n.reported i).elim [] n.op.noted
  | _ => []

/-- An event is taken for an echo only while its packet is outstanding; and no two packets that wait are the
same. -/
def Orderly (n : Network ShareOperation ν) (a : Act ι) : Prop :=
  n.InPlace a ∧ match a with
    | .deliver _ i => ∀ z ∈ n.reported i, n.op.Distinct z
    | _ => True

instance decidableOrderly (n : Network ShareOperation ν) :
    (a : Act ι) → Decidable (n.Orderly a)
  | .deliver sched i =>
      inferInstanceAs (Decidable (n.InPlace (.deliver sched i : Act ι) ∧ ∀ z ∈ n.reported i, n.op.Distinct z))
  | .stimulus mb x => inferInstanceAs (Decidable (n.InPlace (.stimulus mb x) ∧ True))
  | .read _ | .forward _ | .packetIn .. | .task _ => .isTrue ⟨trivial, trivial⟩

/-- Each packet that has been noted has been given back, or waits. -/
structure Passes (l : List (Middlebox × Packet)) (n : Network ShareOperation ν) : Prop where
  runs : n.Runs
  keyed : ShareOperation.Keyed n.op.originalEvents
  passes : packetsOut n.log ++ ShareOperation.waits n.op.originalEvents (outstanding n.log) = l

omit [PacketUtil] [Charset] in
theorem packetsOut_append (out out' : List Effect) :
    packetsOut (out ++ out') = packetsOut out ++ packetsOut out' := List.filterMap_append

omit [PacketUtil] [Charset] in
/-- A message that is neither an event nor a chunk comes while no packet is outstanding. -/
theorem Shares.none_of_ack (h : n.Shares) (hrun : n.op.failed = false)
    {before behind : List (Middlebox × Message)} {source : Middlebox} {msg : Message}
    (hi : n.inFlight = before ++ (source, msg) :: behind) (hmsg : msg.isReport = false)
    (hstate : ∀ m, msg ≠ .state m) : outstanding n.log = none := by
  have hcalm : ¬ n.exchange.Calm := by
    intro hcalm
    obtain ⟨m, rfl⟩ := hcalm.state (talk_of_inFlight hi hmsg)
    exact hstate m rfl
  cases h.stands with
  | enabling _ _ _ hlast | round _ hlast => exact hlast
  | released _ _ _ _ h | waiting _ _ _ _ h => exact absurd h hcalm
  | failed hfailed =>
      rw [hrun] at hfailed
      cases hfailed

omit [PacketUtil] [Charset] in
/-- What a share that has not failed knows about the packet that is outstanding. -/
theorem Shares.last_eq (h : n.Shares) (hrun : n.op.failed = false) :
    (∀ packet, outstanding n.log = some packet → n.op.isSyncFinished = true ∧ n.op.lastPacket = some packet) ∧
      (n.op.callFromReprocess = true → outstanding n.log = none) := by
  cases h.stands with
  | enabling _ _ _ hlast | round _ hlast | waiting _ _ hlast =>
      exact ⟨fun packet heq => absurd (hlast.symm.trans heq) (by simp), fun _ => hlast⟩
  | released hfin hcalled hlast hpacket =>
      refine ⟨fun packet heq => ⟨hfin, hpacket.trans (hlast.symm.trans heq)⟩, fun hyes => ?_⟩
      rw [hcalled] at hyes
      cases hyes
  | failed hfailed =>
      rw [hrun] at hfailed
      cases hfailed

omit [PacketUtil] in
/-- Takes over what a handler does to the packets. -/
theorem Passes.account {l filed : List (Middlebox × Packet)} (h : n.Passes l) (hruns : n'.Runs)
    {r : Emit Effect ShareOperation} (haccounts : ShareOperation.Accounts (outstanding n.log) n.op filed r)
    (hop : n'.op.originalEvents = r.val.originalEvents) (hlog : n'.log = n.log ++ r.out) :
    n'.Passes (l ++ filed) := by
  refine ⟨hruns, hop ▸ haccounts.keyed, ?_⟩
  rw [hlog, hop, packetsOut_append, outstanding, outstandingAfter_append, List.append_assoc, haccounts.passes,
    ← List.append_assoc, h.passes]

theorem Passes.step {l : List (Middlebox × Packet)} (h : n.Passes l) (hok : n.Orderly a)
    (hs : n.step a = some n') : n'.Passes (l ++ n.filed a) := by
  have hruns := h.runs.step hok.1 hs
  have hsame : n'.op.originalEvents = n.op.originalEvents → n'.log = n.log → n'.Passes (l ++ []) := by
    intro hop hlog
    refine h.account hruns (r := ⟨n.op, []⟩) ?_ hop (hlog.trans (List.append_nil _).symm)
    exact ShareOperation.accounts_of_same h.keyed rfl fun _ hmem => absurd hmem List.not_mem_nil
  cases a with
  | read mb =>
      obtain ⟨cmd, rest, -, rfl⟩ := step_read hs
      exact hsame rfl rfl
  | deliver sched i =>
      obtain ⟨source, msg, before, behind, hi, -, hmem, ⟨hf, rfl⟩ | ⟨hf, rfl⟩⟩ := step_deliver hs
      · have hf : n.op.failed = true := hf
        rw [filed, if_pos hf]
        exact hsame rfl rfl
      · have hf : n.op.failed = false := hf
        have hshares := h.runs.shares
        rw [filed, if_neg (by simp [hf])]
        have hnone : msg.report = none → (n.reported i).elim [] n.op.noted = [] := by
          intro hreport
          rw [reported, hmem, Option.bind_some, hreport]
          rfl
        cases msg with
        | state m =>
            rw [hnone rfl]
            exact h.account hruns (ShareOperation.accounts_receiveState h.keyed m) rfl rfl
        | getAck cls count =>
            rw [hnone rfl]
            have hlast := hshares.none_of_ack hf hi rfl fun _ => Message.noConfusion
            refine h.account hruns (hlast ▸ ?_) rfl rfl
            exact ShareOperation.accounts_receiveGetAck h.keyed cls count
        | putAck cls hashkey =>
            rw [hnone rfl]
            have hlast := hshares.none_of_ack hf hi rfl fun _ => Message.noConfusion
            refine h.account hruns (hlast ▸ ?_) rfl rfl
            exact ShareOperation.accounts_receivePutAck h.keyed hshares.confined.op.bare cls hashkey
        | eventsAck =>
            rw [hnone rfl]
            have hlast := hshares.none_of_ack hf hi rfl fun _ => Message.noConfusion
            refine h.account hruns (hlast ▸ ?_) rfl rfl
            exact ShareOperation.accounts_receiveEventsAck h.keyed
        | reprocess m =>
            cases hflagged : ShareOperation.flagged m with
            | error e =>
                have hreport : (Message.reprocess m).report = none := by
                  rw [Message.report, hflagged]
                  rfl
                rw [hnone hreport]
                exact h.account hruns (ShareOperation.accounts_of_error h.keyed hflagged) rfl rfl
            | ok packet =>
                have hreported := reported_of_event hmem hflagged
                rw [Option.mem_def.mp hreported]
                obtain ⟨hlast, hcalled⟩ := hshares.last_eq hf
                refine h.account hruns ?_ rfl rfl
                exact ShareOperation.accounts_receiveReprocess h.keyed hflagged (hok.2 _ hreported) hlast
                  (hok.1 _ hreported) hcalled
  | stimulus mb x =>
      obtain ⟨r, -, rfl⟩ := step_stimulus hs
      exact hsame rfl rfl
  | forward i =>
      obtain ⟨mb, packet, before, behind, -, rfl⟩ := step_forward hs
      exact hsame rfl rfl
  | packetIn packet inSwitch inPort =>
      cases step_packetIn hs
      exact hsame rfl (List.append_nil _)
  | task i =>
      obtain ⟨task, hi, rfl⟩ := step_task hs
      have hi : n.op.threadPool[i]? = some task := hi
      obtain ⟨ref, rfl⟩ := h.runs.shares.confined.op.pool task (List.mem_of_getElem? hi)
      refine h.account hruns (r := ⟨n.op, (n.op.stateChunks ref).call.out⟩) ?_ rfl rfl
      refine ShareOperation.accounts_of_same h.keyed rfl fun e he => ?_
      obtain ⟨_, _, putMsg, _, _, _, _, _, rfl⟩ := call_puts he
      exact fun hopens => hopens rfl

section Start

variable (consistency : Consistency) (id : Int) {instances : List Middlebox} (key : PerflowKey) (scope : Scope)

theorem passes_start (hnodup : instances.Nodup) (nf : Middlebox → ν) :
    (start (ShareOperation.new consistency id instances key scope) nf).Passes [] := by
  refine ⟨runs_start consistency id key scope hnodup nf, ⟨List.nodup_nil, fun _ he => ?_⟩, ?_⟩
  · cases he
  · exact (List.append_nil _).trans (ShareOperation.packetsOut_of_not_opens (not_opens_of_enableEvents _))

/-- The packets are given back in the order in which they were noted, each once, to the instances they came from;
those that have not been given back yet wait, in this order. -/
theorem in_order (hnodup : instances.Nodup) (nf : Middlebox → ν) {as : List (Act ι)}
    (hok : Machine.Along step Orderly (start (ShareOperation.new consistency id instances key scope) nf) as)
    (hr : Machine.run step (start (ShareOperation.new consistency id instances key scope) nf) as = some n) :
    packetsOut n.log ++ ShareOperation.waits n.op.originalEvents (outstanding n.log) =
      Machine.gathered step filed (start (ShareOperation.new consistency id instances key scope) nf) as :=
  (Machine.run_gathered (passes_start consistency id key scope hnodup nf)
    (fun _ _ _ _ h hat hs => h.step hat hs) hok hr).passes

end Start

omit [PacketUtil] [Charset] in
theorem in_order_watched :
    letI := floodlight
    letI := latin1
    ∃ n, Machine.run step watched (reporting ++ echoing) = some n ∧
      packetsOut n.log ++ ShareOperation.waits n.op.originalEvents (outstanding n.log) =
        [(firstWatcher, Floodlight.flaggedDatagram 0x1234), (secondWatcher, Floodlight.flaggedDatagram 0x4321)] := by
  let _ := floodlight
  let _ := latin1
  have hok : Machine.Along step Orderly watched (reporting ++ echoing) := by decide
  have hsome : (Machine.run step watched (reporting ++ echoing)).isSome = true := by decide
  obtain ⟨n, hn⟩ := Option.isSome_iff_exists.mp hsome
  have hpasses := in_order .strict 1 PerflowKey.new .perflow (by decide) watchers hok hn
  exact ⟨n, hn, hpasses.trans (by decide)⟩

/-! ## All of them -/

/-- A packet that reaches its instance is reported again, and a packet that is taken for an echo can be read. -/
def Echoing (n : Network ShareOperation ν) : Act ι → Prop
  | .forward i => ∀ z ∈ n.packets[i]?, ∃ msg ∈ (NetworkFunction.packet (n.nf z.1) z.2).2, msg.report = some z.2
  | .deliver _ i => ∀ z ∈ n.reported i, n.op.lastPacket = some z.2 → (OFMatch.loadFromPacket z.2 1).isOk = true
  | _ => True

instance decidableEchoing (n : Network ShareOperation ν) : (a : Act ι) → Decidable (n.Echoing a)
  | .forward i => inferInstanceAs (Decidable (∀ z ∈ n.packets[i]?,
      ∃ msg ∈ (NetworkFunction.packet (n.nf z.1) z.2).2, msg.report = some z.2))
  | .deliver _ i => inferInstanceAs (Decidable (∀ z ∈ n.reported i, _ → _))
  | .read _ | .stimulus .. | .packetIn .. | .task _ => .isTrue trivial

/-- The packet that is outstanding is on its way to its instance, or has been reported again. -/
def Underway (n : Network ShareOperation ν) : Prop :=
  n.op.failed = false → ∀ packet, outstanding n.log = some packet →
    (∃ mb, (mb, packet) ∈ n.packets) ∨ ∃ z ∈ n.inFlight, z.2.report = some packet

omit [PacketUtil] [Charset] in
theorem given_of_outstandingAfter {last : Option Packet} {out : List Effect} {packet : Packet}
    (h : outstandingAfter last out = some packet) :
    (∃ mb, (mb, packet) ∈ packetsOut out) ∨ last = some packet := by
  induction out generalizing last with
  | nil => exact .inr h
  | cons e out ih =>
      cases e with
      | packetOut src sw packet' =>
          rcases ih h with ⟨mb, hmb⟩ | heq
          · exact .inl ⟨mb, List.mem_cons_of_mem _ hmb⟩
          · exact .inl ⟨src, Option.some.inj heq ▸ List.mem_cons_self ..⟩
      | send mb cmd =>
          rcases ih h with hgiven | heq
          · exact .inl hgiven
          · split at heq
            · exact .inr heq
            · cases heq
      | _ => exact ih h

/-- The echo of the packet that is outstanding is not overlooked. -/
theorem Shares.echo (h : n.Shares) (hrun : n.op.failed = false) {source : Middlebox} {m : ReprocessMessage}
    {packet : Packet} (hpacket : ShareOperation.flagged m = .ok packet) (hlast : outstanding n.log = some packet)
    (hload : (OFMatch.loadFromPacket packet 1).isOk = true) :
    outstandingAfter (some packet) (n.op.receiveReprocess m source).out = none := by
  obtain ⟨hfin, hlast⟩ := (h.last_eq hrun).1 packet hlast
  obtain ⟨fields, hload⟩ : ∃ fields, OFMatch.loadFromPacket packet 1 = .ok fields := by
    cases hread : OFMatch.loadFromPacket packet 1 with
    | ok fields => exact ⟨fields, rfl⟩
    | error e =>
        rw [hread] at hload
        cases hload
  have hgets : (n.op.receiveReprocess m source).out = ({ n.op with
      originalEvents := n.op.originalEvents.remove (Charset.newString packet)
      key := .fromOFMatch fields } : ShareOperation).gets source := by
    simp only [ShareOperation.receiveReprocess, hpacket, hfin, hlast, hload, Bool.true_eq_false, ↓reduceIte]
    rfl
  rw [hgets]
  obtain ⟨hne, hopen⟩ := ShareOperation.gets_open _ source
  exact outstandingAfter_of_gets hne hopen

theorem Underway.step (h : n.Underway) (hshares : n.Shares) (hok : n.Echoing a) (hs : n.step a = some n') :
    n'.Underway := by
  cases a with
  | read mb =>
      obtain ⟨cmd, rest, -, rfl⟩ := step_read hs
      intro hrun packet hlast
      rcases h hrun packet hlast with hpacket | ⟨z, hmem, hz⟩
      · exact .inl hpacket
      · exact .inr ⟨z, List.mem_append_left _ hmem, hz⟩
  | deliver sched i =>
      obtain ⟨source, msg, before, behind, hi, -, hmem, ⟨hf, rfl⟩ | ⟨hf, rfl⟩⟩ := step_deliver hs
      · intro hrun
        have hrun : n.op.failed = false := hrun
        have hf : n.op.failed = true := hf
        rw [hf] at hrun
        cases hrun
      · have hf : n.op.failed = false := hf
        intro _ packet hlast
        have hlast : outstandingAfter none (n.log ++ (Handlers.receive sched source msg n.op).out) = some packet :=
          hlast
        rw [outstandingAfter_append] at hlast
        rcases given_of_outstandingAfter hlast with ⟨mb, hgiven⟩ | hold
        · exact .inl ⟨mb, List.mem_append_right _ hgiven⟩
        rcases h hf packet hold with ⟨mb, hpacket⟩ | ⟨z, hflight, hz⟩
        · exact .inl ⟨mb, List.mem_append_left _ hpacket⟩
        rw [hi] at hflight
        by_cases heq : z = (source, msg)
        · rw [heq] at hz
          have hreported : n.reported i = some (source, packet) := by
            rw [reported, hmem, Option.bind_some, hz]
            rfl
          have hload := hok _ hreported ((hshares.last_eq hf).1 packet hold).2
          cases msg with
          | reprocess m =>
              rw [hold] at hlast
              have hpacket := Message.report_reprocess.mp hz
              exact absurd (hlast.symm.trans (hshares.echo hf hpacket hold hload)) (by simp)
          | _ => cases hz
        · have hleft : z ∈ before ++ behind := by simpa [heq] using hflight
          exact .inr ⟨z, hleft, hz⟩
  | stimulus mb x =>
      obtain ⟨r, -, rfl⟩ := step_stimulus hs
      intro hrun packet hlast
      rcases h hrun packet hlast with hpacket | ⟨z, hmem, hz⟩
      · exact .inl hpacket
      · exact .inr ⟨z, List.mem_append_left _ hmem, hz⟩
  | forward i =>
      obtain ⟨mb, given, hp, rfl⟩ := packet_of_forward hs
      intro hrun packet hlast
      rcases h hrun packet hlast with ⟨mb', hpacket⟩ | ⟨z, hmem, hz⟩
      · obtain ⟨k, hk⟩ := List.getElem?_of_mem hpacket
        by_cases hki : k = i
        · rw [hki, hp] at hk
          obtain ⟨rfl, rfl⟩ := Prod.mk.inj (Option.some.inj hk)
          obtain ⟨msg, hmem, hmsg⟩ := hok _ hp
          exact .inr ⟨(mb, msg), List.mem_append_right _ (List.mem_map.mpr ⟨msg, hmem, rfl⟩), hmsg⟩
        · exact .inl ⟨mb', List.mem_eraseIdx_iff_getElem?.mpr ⟨k, hki, hk⟩⟩
      · exact .inr ⟨z, List.mem_append_left _ hmem, hz⟩
  | packetIn packet inSwitch inPort =>
      cases step_packetIn hs
      intro hrun packet' hlast
      have hlast : outstanding (n.log ++ []) = some packet' := hlast
      rw [List.append_nil] at hlast
      rcases h hrun packet' hlast with ⟨mb, hpacket⟩ | hflight
      · exact .inl ⟨mb, List.mem_append_left _ hpacket⟩
      · exact .inr hflight
  | task i =>
      obtain ⟨task, hi, rfl⟩ := step_task hs
      intro hrun packet hlast
      have hlast : outstandingAfter none (n.log ++ (Handlers.base n.op).call task) = some packet := hlast
      rw [outstandingAfter_append] at hlast
      rcases given_of_outstandingAfter hlast with ⟨mb, hgiven⟩ | hold
      · exact .inl ⟨mb, List.mem_append_right _ hgiven⟩
      · rcases h hrun packet hold with ⟨mb, hpacket⟩ | hflight
        · exact .inl ⟨mb, List.mem_append_left _ hpacket⟩
        · exact .inr hflight

theorem talk_of_quiet (h : n.Quiet) : n.exchange.talk = [] := by
  show reportless n.inFlight = []
  rw [h.inFlight]
  rfl

/-- The filters are enabled everywhere when nothing is on its way. -/
theorem eventAckCount_of_quiet (h : n.exchange.Enabling n.op.eventAckCount) (hquiet : n.Quiet) :
    n.op.eventAckCount = n.op.instances.length := by
  have hcount := h.count
  have hwires : ∑ mb ∈ n.exchange.instances.toFinset, (n.exchange.wire mb).length = 0 :=
    Finset.sum_eq_zero fun mb _ => congrArg List.length (hquiet.wire mb)
  rw [hwires, talk_of_quiet hquiet, List.length_nil, zero_add, zero_add] at hcount
  exact hcount

/-- A share that has come to rest has no chunk, ack or command on its way. -/
theorem Shares.calm_of_quiet (h : n.Shares) (hquiet : n.Quiet) (hrun : n.op.failed = false) : n.exchange.Calm := by
  cases h.stands with
  | enabling _ _ _ _ _ henabling =>
      have hcount := eventAckCount_of_quiet henabling hquiet
      rw [hcount] at henabling
      exact henabling.calm h.confined.exchange
  | round _ _ hopen hround =>
      exact absurd (hround.finished h.confined.exchange hquiet.wire (talk_of_quiet hquiet) hquiet.tasks) hopen
  | released _ _ _ _ hcalm | waiting _ _ _ _ hcalm => exact hcalm
  | failed hfailed =>
      rw [hrun] at hfailed
      cases hfailed

/-- Nor does a packet wait, if each packet that is given back is reported again. -/
theorem Shares.originalEvents_of_quiet (h : n.Shares) (hunderway : n.Underway) (hquiet : n.Quiet)
    (hrun : n.op.failed = false) : n.op.originalEvents = [] := by
  cases h.stands with
  | enabling _ _ _ _ hacks henabling =>
      have hnone := hacks (eventAckCount_of_quiet henabling hquiet)
      refine List.eq_nil_iff_forall_not_mem.mpr fun e he => ?_
      have hinst := h.confined.op.events e he
      rw [hnone] at hinst
      cases hinst
  | round _ _ hopen hround =>
      exact absurd (hround.finished h.confined.exchange hquiet.wire (talk_of_quiet hquiet) hquiet.tasks) hopen
  | released _ _ hlast =>
      rcases hunderway hrun _ hlast with ⟨mb, hpacket⟩ | ⟨z, hmem, -⟩
      · rw [hquiet.packets] at hpacket
        cases hpacket
      · rw [hquiet.inFlight] at hmem
        cases hmem
  | waiting _ _ _ hevents => exact hevents
  | failed hfailed =>
      rw [hrun] at hfailed
      cases hfailed

section Start

variable (consistency : Consistency) (id : Int) {instances : List Middlebox} (key : PerflowKey) (scope : Scope)

end Start

end Network

end OFM.Controller
