import OFM.Controller.Lemmas.Share
import OFM.Controller.Lemmas.TransferBasic
import OFM.Controller.Sharer

/-!
# What holds of a share at all times

Commands and messages are about the classes of the scope and go between the share and its instances, and
chunks are put to all instances but one.
-/

namespace OFM.Controller
open OFM.Lib

theorem Scope.config_notMem (scope : Scope) : .config ∉ scope.classes := by
  cases scope <;> decide

theorem Scope.ne_config {scope : Scope} {cls : StateClass} (h : cls ∈ scope.classes) :
    cls ≠ .config := fun he => scope.config_notMem (he ▸ h)

/-! ## Commands, effects and messages of a scope -/

structure Command.About (classes : List StateClass) (cmd : Command) : Prop where
  get : ∀ cls, cmd.getClass = some cls → cls ∈ classes
  put : ∀ c, cmd.putContent = some c → c.cls ∈ classes

/-- A command goes to an instance, and a packet back to one. -/
def Effect.Within (instances : List Middlebox) (classes : List StateClass) : Effect → Prop
  | .send mb cmd => mb ∈ instances ∧ cmd.About classes
  | .packetOut src _ _ => src ∈ instances
  | _ => True

def StateMessage.About (classOf : Int → StateClass) (classes : List StateClass) (msg : StateMessage) : Prop :=
  msg.cls ∈ classes ∧ classOf msg.hashkey = msg.cls

def Message.About (classOf : Int → StateClass) (classes : List StateClass) : Message → Prop
  | .state msg => msg.About classOf classes
  | .getAck cls _ => cls ∈ classes
  | .putAck cls _ => cls ∈ classes
  | _ => True

theorem StateMessage.exists_toPut {msg : StateMessage} (h : msg.cls ≠ .config) :
    ∃ putMsg, msg.toPut = some putMsg ∧ putMsg.content = msg.content := by
  cases hp : msg.toPut with
  | none => exact absurd (toPut_eq_none hp) h
  | some putMsg => exact ⟨putMsg, rfl, toPut_content hp⟩

namespace ShareOperation

/-- The gets of a share are those of its scope. -/
theorem mem_gets {op : ShareOperation} {inst : Middlebox} {e : Effect} (h : e ∈ op.gets inst) :
    ∃ cmd cls, e = .send inst cmd ∧ cmd.getClass = some cls ∧ cls ∈ op.scope.classes := by
  obtain ⟨cls, hcls, he⟩ := List.mem_filterMap.mp h
  cases cls with
  | config => cases he
  | _ =>
      cases he
      exact ⟨_, _, rfl, rfl, hcls⟩

theorem get_within {op : ShareOperation} {inst : Middlebox} (hinst : inst ∈ op.instances) :
    ∀ e ∈ op.gets inst, e.Within op.instances op.scope.classes := by
  intro e he
  obtain ⟨cmd, cls, rfl, hget, hcls⟩ := mem_gets he
  refine ⟨hinst, fun cls' h => ?_, fun c h => ?_⟩
  · cases hget.symm.trans h
    exact hcls
  · rw [(Command.of_get (hget ▸ Option.some_ne_none cls)).1] at h
    cases h

/-- What holds of the operation itself. -/
structure Sound (classOf : Int → StateClass) (op : ShareOperation) : Prop where
  bare : op.Bare
  pool : ∀ task ∈ op.threadPool, ∃ ref, task = .chunk ref
  chunk : ∀ ref msg, (op.stateChunks ref).msg = some msg →
    msg.hashkey = ref.hashkey ∧ msg.About classOf op.scope.classes
  dsts : ∀ ref dsts, (op.stateChunks ref).dsts = some dsts →
    ∃ src ∈ op.instances, dsts = op.instances.erase src
  excluding : op.instancesExcludingSource = op.currentSource.map op.instances.erase
  source : ∀ src, op.currentSource = some src → src ∈ op.instances
  events : ∀ entry ∈ op.originalEvents, entry.2 ∈ op.instances
  fresh : ∀ ref, op.flushes < ref.flushes → (op.stateChunks ref).numAckedInstances = 0

/-- What a handler that keeps to all this returns. -/
structure Keeps (classOf : Int → StateClass) (op : ShareOperation) (r : Emit Effect ShareOperation) :
    Prop where
  args : r.val.args = op.args
  sound : r.val.Sound classOf
  within : ∀ e ∈ r.out, e.Within op.instances op.scope.classes

variable {classOf : Int → StateClass} {op : ShareOperation}

theorem sound_new (classOf : Int → StateClass) (consistency : Consistency) (id : Int)
    (instances : List Middlebox) (key : PerflowKey) (scope : Scope) :
    (new consistency id instances key scope).Sound classOf where
  bare _ := rfl
  pool _ h := absurd h List.not_mem_nil
  chunk _ _ h := by cases h
  dsts _ _ h := by cases h
  excluding := rfl
  source _ h := by cases h
  events _ h := absurd h List.not_mem_nil
  fresh _ _ := rfl

theorem Sound.keeps_self (h : op.Sound classOf) : Keeps classOf op ⟨op, []⟩ :=
  ⟨rfl, h, fun _ he => absurd he List.not_mem_nil⟩

theorem Sound.setSource (h : op.Sound classOf) {inst : Middlebox} (hinst : inst ∈ op.instances) :
    (op.setSource inst).Sound classOf :=
  { h with
    excluding := rfl
    source := fun _ he => Option.some.inj he ▸ hinst }

theorem Sound.syncFromInstance (h : op.Sound classOf) {inst : Middlebox}
    (hinst : inst ∈ op.instances) : Keeps classOf op (op.syncFromInstance inst) where
  args := rfl
  sound :=
    have hcounters : ({ op with counters := roundCounters } : ShareOperation).Sound classOf := { h with }
    hcounters.setSource hinst
  within := get_within hinst

theorem mem_put {m : LinkedHashMap JavaString Middlebox} {key : JavaString} {value : Middlebox}
    {entry : JavaString × Middlebox} (h : entry ∈ m.put key value) :
    entry ∈ m ∨ entry = (key, value) := by
  unfold LinkedHashMap.put at h
  split at h
  · obtain ⟨entry', hm, he⟩ := List.mem_map.mp h
    split at he
    · exact Or.inr he.symm
    · exact Or.inl (he ▸ hm)
  · rcases List.mem_append.mp h with h | h
    · exact Or.inl h
    · exact Or.inr (List.mem_singleton.mp h)

theorem Sound.putEvent (h : op.Sound classOf) {source : Middlebox} (hsource : source ∈ op.instances)
    (packet : JavaString) :
    ({ op with originalEvents := op.originalEvents.put packet source } : ShareOperation).Sound classOf := by
  have hevents : ∀ entry ∈ op.originalEvents.put packet source, entry.2 ∈ op.instances := by
    intro entry he
    rcases mem_put he with he | rfl
    · exact h.events entry he
    · exact hsource
  exact { h with events := hevents }

theorem Sound.removeEvent (h : op.Sound classOf) (packet : JavaString) :
    ({ op with originalEvents := op.originalEvents.remove packet } : ShareOperation).Sound classOf :=
  { h with events := fun entry he => h.events entry (List.mem_of_mem_filter he) }

theorem Sound.flushed (h : op.Sound classOf) : op.flushed.Sound classOf :=
  { h with fresh := fun ref href => h.fresh ref (Nat.lt_of_succ_lt href) }

/-- A chunk is written to that keeps what the operation relies on. -/
theorem Sound.setChunk (h : op.Sound classOf) {hashkey : Int} {chunk : StateChunk} {b : Operation}
    {op' : ShareOperation} (hb : b = op.setChunk (op.obtainStateChunk hashkey) chunk)
    (hop : op' = { op with toOperation := b, counters := op'.counters })
    (hevents : chunk.eventsList = [])
    (hmsg : ∀ msg, chunk.msg = some msg → msg.hashkey = hashkey ∧ msg.About classOf op.scope.classes)
    (hdsts : ∀ dsts, chunk.dsts = some dsts → ∃ src ∈ op.instances, dsts = op.instances.erase src) :
    op'.Sound classOf := by
  have hcases : ∀ ref, (ref = op.obtainStateChunk hashkey ∧ b.stateChunks ref = chunk) ∨
      b.stateChunks ref = op.stateChunks ref ∧ ref ≠ op.obtainStateChunk hashkey := by
    intro ref
    rw [hb]
    by_cases href : ref = op.obtainStateChunk hashkey
    · exact Or.inl ⟨href, by rw [href]; exact Function.update_self ..⟩
    · exact Or.inr ⟨Function.update_of_ne href .., href⟩
  have hpool : b.threadPool = op.threadPool := by
    rw [hb]
    rfl
  have hflushes : b.flushes = op.flushes := by
    rw [hb]
    rfl
  rw [hop]
  constructor
  · intro ref
    show (b.stateChunks ref).eventsList = []
    rcases hcases ref with ⟨-, hc⟩ | ⟨hc, -⟩
    · rw [hc, hevents]
    · rw [hc, h.bare ref]
  · show ∀ task ∈ b.threadPool, ∃ ref, task = .chunk ref
    rw [hpool]
    exact h.pool
  · intro ref msg he
    have he : (b.stateChunks ref).msg = some msg := he
    rcases hcases ref with ⟨hr, hc⟩ | ⟨hc, -⟩
    · rw [hc] at he
      rw [hr]
      exact hmsg msg he
    · rw [hc] at he
      exact h.chunk ref msg he
  · intro ref dsts he
    have he : (b.stateChunks ref).dsts = some dsts := he
    rcases hcases ref with ⟨-, hc⟩ | ⟨hc, -⟩
    · rw [hc] at he
      exact hdsts dsts he
    · rw [hc] at he
      exact h.dsts ref dsts he
  · exact h.excluding
  · exact h.source
  · exact h.events
  · intro ref href
    show (b.stateChunks ref).numAckedInstances = 0
    have href : b.flushes < ref.flushes := href
    rw [hflushes] at href
    rcases hcases ref with ⟨hr, -⟩ | ⟨hc, -⟩
    · rw [hr] at href
      exact absurd href (Nat.lt_irrefl _)
    · rw [hc, h.fresh ref href]

theorem Sound.countPutAck (h : op.Sound classOf) (cls : StateClass) (hashkey : Int) :
    (op.countPutAck cls hashkey).Sound classOf :=
  h.setChunk rfl rfl (h.bare _) (h.chunk (op.obtainStateChunk hashkey)) (h.dsts _)

theorem Sound.ackChunk (h : op.Sound classOf) (hashkey : Int) : (op.ackChunk hashkey).Sound classOf :=
  h.setChunk rfl rfl (h.bare _) (h.chunk (op.obtainStateChunk hashkey)) (h.dsts _)

theorem Sound.submitState (h : op.Sound classOf) {msg : StateMessage}
    (hmsg : msg.About classOf op.scope.classes) : (op.submitState msg).Sound classOf := by
  let chunk : StateChunk :=
    { op.stateChunks (op.obtainStateChunk msg.hashkey) with
      msg := some msg
      dsts := op.instancesExcludingSource }
  have hchunk : ({ op with toOperation := op.setChunk (op.obtainStateChunk msg.hashkey) chunk } :
      ShareOperation).Sound classOf := by
    refine h.setChunk rfl rfl (h.bare _) (fun m he => ?_) fun dsts he => ?_
    · obtain rfl := Option.some.inj he
      exact ⟨rfl, hmsg⟩
    · have he : op.instancesExcludingSource = some dsts := he
      rw [h.excluding] at he
      obtain ⟨src, hsrc, rfl⟩ := Option.map_eq_some_iff.mp he
      exact ⟨src, h.source src hsrc, rfl⟩
  refine { hchunk with pool := fun task ht => ?_ }
  rcases List.mem_append.mp ht with ht | ht
  · exact h.pool task ht
  · exact ⟨_, List.mem_singleton.mp ht⟩

variable [Charset]

theorem Sound.dequeueEvent (h : op.Sound classOf) : Keeps classOf op op.dequeueEvent := by
  rcases op.dequeueEvent_cases with ⟨-, he⟩ | ⟨packet, src, rest, hevents, ⟨-, he⟩ | ⟨sw, -, he⟩⟩
  · rw [he]
    exact ⟨rfl, { h with }, fun _ hm => absurd hm List.not_mem_nil⟩
  · rw [he]
    exact ⟨rfl, { h with }, fun e hm => by rw [List.mem_singleton.mp hm]; trivial⟩
  · have hsrc : src ∈ op.instances := h.events (packet, src) (hevents ▸ List.mem_cons_self)
    have hlast : ({ op with lastPacket := some (Charset.getBytes packet) } : ShareOperation).Sound
        classOf := { h with }
    rw [he]
    exact ⟨rfl, hlast.setSource hsrc, fun e hm => by rw [List.mem_singleton.mp hm]; exact hsrc⟩

theorem Sound.syncAllInstances (h : op.Sound classOf) : Keeps classOf op op.syncAllInstances := by
  rcases op.syncAllInstances_cases with ⟨-, he⟩ | ⟨inst, hi, he⟩ | ⟨-, he⟩
  · have hsync : ({ op with isSyncFinished := true } : ShareOperation).Sound classOf := { h with }
    rw [he]
    exact ⟨hsync.dequeueEvent.args, hsync.dequeueEvent.sound, hsync.dequeueEvent.within⟩
  · have hround := h.syncFromInstance (List.mem_of_getElem? hi)
    rw [he]
    exact ⟨rfl, { hround.sound with }, hround.within⟩
  · rw [he]
    exact ⟨rfl, h, fun e hm => by rw [List.mem_singleton.mp hm]; trivial⟩

theorem Sound.checkIfInstFinished (h : op.Sound classOf) : Keeps classOf op op.checkIfInstFinished := by
  rcases op.checkIfInstFinished_cases with ⟨-, he⟩ | ⟨-, he⟩
  · rw [he]
    exact h.keeps_self
  · have hnext := h.flushed.syncAllInstances
    rw [he]
    exact ⟨hnext.args, hnext.sound, hnext.within⟩

omit [Charset] in
theorem Sound.receiveState (h : op.Sound classOf) {msg : StateMessage}
    (hmsg : msg.About classOf op.scope.classes) : Keeps classOf op (op.receiveState msg) := by
  obtain ⟨putMsg, hput, hcontent⟩ := msg.exists_toPut (op.scope.ne_config hmsg.1)
  unfold ShareOperation.receiveState
  rw [hput]
  dsimp only
  split
  · exact ⟨rfl, h.submitState hmsg, fun _ he => absurd he List.not_mem_nil⟩
  · refine ⟨rfl, h, fun e he => ?_⟩
    have he : e ∈ op.putState putMsg := he
    unfold putState at he
    split at he
    · obtain ⟨inst, hinst, rfl⟩ := List.mem_map.mp he
      refine ⟨List.mem_of_mem_filter hinst, fun cls hget => (by cases hget), fun c hc => ?_⟩
      rw [← Option.some.inj hc, hcontent]
      exact hmsg.1
    · split at he
      · cases he
      · rw [List.mem_singleton.mp he]
        trivial

variable [PacketUtil]

theorem Sound.receiveReprocess (h : op.Sound classOf) (msg : ReprocessMessage) {source : Middlebox}
    (hsource : source ∈ op.instances) : Keeps classOf op (op.receiveReprocess msg source) := by
  have hthrown : ∀ e : JavaException, ∀ e' ∈ [Effect.thrown e],
      e'.Within op.instances op.scope.classes := by
    intro e e' hm
    rw [List.mem_singleton.mp hm]
    trivial
  rcases op.receiveReprocess_cases msg source with ⟨e, -, he⟩ | ⟨pkt, -, ⟨-, he⟩ | ⟨-, -, op', rfl, he⟩ |
    ⟨-, -, op', rfl, he⟩⟩
  · rw [he]
    exact ⟨rfl, h, hthrown e⟩
  · rw [he]
    exact ⟨rfl, h.putEvent hsource _, fun _ hm => absurd hm List.not_mem_nil⟩
  · rcases he with ⟨e, -, he⟩ | ⟨fields, -, he⟩
    · rw [he]
      exact ⟨rfl, h.removeEvent _, hthrown e⟩
    · have hkey : ({ op with
          originalEvents := op.originalEvents.remove (Charset.newString pkt)
          key := .fromOFMatch fields } : ShareOperation).Sound classOf := { h.removeEvent _ with }
      have hround := hkey.syncFromInstance hsource
      rw [he]
      exact ⟨rfl, hround.sound, hround.within⟩
  · rcases he with ⟨-, he⟩ | ⟨-, he⟩
    · rw [he]
      exact ⟨rfl, h.putEvent hsource _, fun _ hm => absurd hm List.not_mem_nil⟩
    · have hcall : ({ op with
          originalEvents := op.originalEvents.put (Charset.newString pkt) source
          callFromReprocess := false } : ShareOperation).Sound classOf := { h.putEvent hsource _ with }
      have hnext := hcall.dequeueEvent
      rw [he]
      exact ⟨hnext.args, hnext.sound, hnext.within⟩

theorem Sound.receive (h : op.Sound classOf) {source : Middlebox} (hsource : source ∈ op.instances)
    {msg : Message} (hmsg : msg.About classOf op.scope.classes) :
    Keeps classOf op (receive source msg op) := by
  cases msg with
  | state msg => exact h.receiveState hmsg
  | getAck cls count =>
      have hcount : ({ op with counters := op.counters.recordGetAck cls count } :
          ShareOperation).Sound classOf := { h with }
      have hcheck := hcount.checkIfInstFinished
      rw [show ShareOperation.receive source (.getAck cls count) op = _ from
        op.receiveGetAck_eq count (op.scope.ne_config hmsg)]
      exact ⟨hcheck.args, hcheck.sound, hcheck.within⟩
  | putAck cls hashkey =>
      rw [show ShareOperation.receive source (.putAck cls hashkey) op = _ from
        op.receivePutAck_eq hashkey (op.scope.ne_config hmsg)]
      rcases receivePutAckOf_cases h.bare cls hashkey with ⟨-, he⟩ | ⟨-, he⟩
      · rw [he]
        exact ⟨rfl, h.countPutAck cls hashkey, fun _ hm => absurd hm List.not_mem_nil⟩
      · have hcheck := ((h.countPutAck cls hashkey).ackChunk hashkey).checkIfInstFinished
        rw [he]
        exact ⟨hcheck.args, hcheck.sound, hcheck.within⟩
  | eventsAck =>
      rw [show ShareOperation.receive source .eventsAck op = op.receiveEventsAck from rfl,
        ShareOperation.receiveEventsAck]
      dsimp only
      have hcount : ({ op with eventAckCount := op.eventAckCount + 1 } : ShareOperation).Sound
          classOf := { h with }
      split
      · have hnext := hcount.syncAllInstances
        exact ⟨hnext.args, hnext.sound, hnext.within⟩
      · exact ⟨rfl, hcount, fun _ hm => absurd hm List.not_mem_nil⟩
  | reprocess m => exact h.receiveReprocess m hsource

end ShareOperation

end OFM.Controller
