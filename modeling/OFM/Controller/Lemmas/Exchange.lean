import OFM.Controller.Sharer
import OFM.Controller.Lemmas.ShareSound

/-!
# Rounds of a share

What the steps of an exchange do to the chunks of a round, and that a round which looks finished has nothing
on the way.
-/

namespace OFM.Controller
open OFM.Lib

/-! ## Reading commands and messages -/

section Pick

variable {α β : Type} {f : α → Option β} {a : α}

theorem filterMap_split_some {b : β} (before behind : List α) (h : f a = some b) :
    ((before ++ a :: behind).filterMap f : Multiset β) =
      b ::ₘ ((before ++ behind).filterMap f : Multiset β) := by
  rw [List.filterMap_append, List.filterMap_cons_some h, List.filterMap_append]
  exact Multiset.coe_eq_coe.mpr List.perm_middle

theorem filterMap_split_none (before behind : List α) (h : f a = none) :
    ((before ++ a :: behind).filterMap f : Multiset β) = ((before ++ behind).filterMap f : Multiset β) := by
  rw [List.filterMap_append, List.filterMap_cons_none h, List.filterMap_append]

end Pick

section Commands

variable {cmd : Command} {rest : List Command}

theorem getsIn_cons_some {cls : StateClass} (h : cmd.getClass = some cls) :
    getsIn (cmd :: rest) = cls ::ₘ getsIn rest := filterMap_split_some [] rest h

theorem getsIn_cons_none (h : cmd.getClass = none) : getsIn (cmd :: rest) = getsIn rest :=
  filterMap_split_none [] rest h

theorem putsIn_cons_some {c : Content} (h : cmd.putContent = some c) :
    putsIn (cmd :: rest) = c ::ₘ putsIn rest := filterMap_split_some [] rest h

theorem putsIn_cons_none (h : cmd.putContent = none) : putsIn (cmd :: rest) = putsIn rest :=
  filterMap_split_none [] rest h

@[simp] theorem getsIn_append (cmds cmds' : List Command) :
    getsIn (cmds ++ cmds') = getsIn cmds + getsIn cmds' := by
  simp only [getsIn, List.filterMap_append, ← Multiset.coe_add]

end Commands

section Messages

variable {mb source : Middlebox} {msg : Message} {msgs msgs' : List (Middlebox × Message)}

@[simp] theorem acksOf_append (mb : Middlebox) (msgs msgs' : List (Middlebox × Message)) :
    acksOf mb (msgs ++ msgs') = acksOf mb msgs + acksOf mb msgs' := by
  simp only [acksOf, List.filterMap_append, ← Multiset.coe_add]

@[simp] theorem chunksFor_append (mb : Middlebox) (msgs msgs' : List (Middlebox × Message)) :
    chunksFor mb (msgs ++ msgs') = chunksFor mb msgs + chunksFor mb msgs' := by
  simp only [chunksFor, List.filterMap_append, ← Multiset.coe_add]

/-- A message that is neither a chunk nor an ack. -/
def Message.Plain (msg : Message) : Prop :=
  msg.stateContent = none ∧ msg.getAckClass = none ∧ msg.putAckKey = none

theorem acksOf_singleton (mb source : Middlebox) (msg : Message) :
    acksOf mb [(source, msg)] = if source = mb then (msg.putAckKey.toList : Multiset (StateClass × Int)) else 0 := by
  by_cases h : source = mb <;> cases hk : msg.putAckKey <;> simp [acksOf, h, hk]

theorem chunksFor_singleton (mb source : Middlebox) (msg : Message) :
    chunksFor mb [(source, msg)] = if source = mb then 0 else (msg.stateContent.toList : Multiset Content) := by
  by_cases h : source = mb <;> cases hk : msg.stateContent <;> simp [chunksFor, h, hk]

theorem statesIn_singleton (source : Middlebox) (msg : Message) :
    statesIn [(source, msg)] = (msg.stateContent.toList : Multiset Content) := by
  cases hk : msg.stateContent <;> simp [statesIn, hk]

theorem getAcksIn_singleton (source : Middlebox) (msg : Message) :
    getAcksIn [(source, msg)] = (msg.getAckClass.toList : Multiset StateClass) := by
  cases hk : msg.getAckClass <;> simp [getAcksIn, hk]

/-- The message is somewhere between the others. -/
theorem split_add {β : Type} (view : List (Middlebox × Message) → Multiset β)
    (hview : ∀ l l', view (l ++ l') = view l + view l') (before behind : List (Middlebox × Message))
    (y : Middlebox × Message) : view (before ++ y :: behind) = view [y] + view (before ++ behind) := by
  have hcons : view (y :: behind) = view [y] + view behind := hview [y] behind
  rw [hview, hview, hcons, add_left_comm]

end Messages

/-! ## Answers -/

/-- What a network function answers to a command. -/
inductive Answers (classOf : Int → StateClass) : Command → List Message → Prop
  | get {cmd : Command} {cls : StateClass} {chunks : List StateMessage} (hcmd : cmd.getClass = some cls)
      (hcls : ∀ msg ∈ chunks, msg.cls = cls ∧ classOf msg.hashkey = cls)
      (hnodup : (chunks.map fun msg => msg.hashkey).Nodup) :
      Answers classOf cmd (chunks.map .state ++ [.getAck cls chunks.length])
  | put {cmd : Command} {c : Content} (hcmd : cmd.putContent = some c) :
      Answers classOf cmd [.putAck c.cls c.hashkey]
  | toggle {cmd : Command} (hcmd : cmd.isToggle = true) : Answers classOf cmd [.eventsAck]

theorem Sharer.answers {ν ι : Type} [Sharer ν ι] (v : ν) (cmd : Command) :
    Answers (classOf ν) cmd (NetworkFunction.command v cmd).2 := by
  rcases cmd.kind_cases with h | h | h
  · obtain ⟨cls, hcls⟩ := Option.ne_none_iff_exists'.mp h
    rw [command_get v cmd cls hcls]
    exact .get hcls (fun msg hmsg => chunks_cls v cmd cls hcls msg hmsg) (chunks_nodup v cmd)
  · obtain ⟨c, hc⟩ := Option.ne_none_iff_exists'.mp h
    rw [command_put v cmd c hc]
    exact .put hc
  · rw [command_toggle v cmd h]
    exact .toggle h

namespace Exchange

/-- What holds of an exchange at all times. -/
structure Sound (classOf : Int → StateClass) (x : Exchange) : Prop where
  nodup : x.instances.Nodup
  classes_nodup : x.classes.Nodup
  classes_ne : x.classes ≠ []
  classes_config : .config ∉ x.classes
  wire : ∀ mb, ∀ cmd ∈ x.wire mb, mb ∈ x.instances ∧ cmd.About x.classes
  talk : ∀ z ∈ x.talk, z.1 ∈ x.instances ∧ z.2.About classOf x.classes
  reportless : ∀ z ∈ x.talk, z.2.isReport = false
  pool : ∀ task ∈ x.base.threadPool, ∃ ref, task = .chunk ref
  chunk : ∀ ref msg, (x.base.stateChunks ref).msg = some msg →
    msg.hashkey = ref.hashkey ∧ msg.About classOf x.classes
  dsts : ∀ ref dsts, (x.base.stateChunks ref).dsts = some dsts →
    ∃ src ∈ x.instances, dsts = x.instances.erase src
  fresh : ∀ ref, x.base.flushes < ref.flushes → (x.base.stateChunks ref).numAckedInstances = 0

variable {classOf : Int → StateClass} {x : Exchange} {src mb : Middlebox}
  {y : Scatter Middlebox StateClass Content (StateClass × Int)}

/-- A command is read and answered. -/
def read (x : Exchange) (mb : Middlebox) (rest : List Command) (msgs : List Message) : Exchange :=
  { x with
    wire := Function.update x.wire mb rest
    talk := x.talk ++ msgs.map (Prod.mk mb) }

/-- What is left on the wires was on the wires. -/
theorem mem_wire_of_left {cmd cmd' : Command} {rest : List Command} {j : Middlebox} (hw : x.wire mb = cmd :: rest)
    (h : cmd' ∈ Function.update x.wire mb rest j) : cmd' ∈ x.wire j := by
  by_cases hj : j = mb
  · rw [hj, Function.update_self] at h
    rw [hj, hw]
    exact List.mem_cons_of_mem cmd h
  · rwa [Function.update_of_ne hj] at h

/-! ## Reading in a round -/

section Chunks

variable (mb : Middlebox) (chunks : List StateMessage) (cls : StateClass) (count : Int)

/-- The answer to a get, as messages of its sender. -/
def answerOf : List (Middlebox × Message) :=
  (chunks.map Message.state ++ [Message.getAck cls count]).map (Prod.mk mb)

theorem mem_answerOf {source : Middlebox} {msg : Message} : (source, msg) ∈ answerOf mb chunks cls count ↔
    source = mb ∧ ((∃ m ∈ chunks, msg = .state m) ∨ msg = .getAck cls count) := by
  simp only [answerOf, List.mem_map, List.mem_append, List.mem_singleton, Prod.mk.injEq]
  constructor
  · rintro ⟨m, ⟨c, hc, rfl⟩ | rfl, rfl, rfl⟩
    · exact ⟨rfl, Or.inl ⟨c, hc, rfl⟩⟩
    · exact ⟨rfl, Or.inr rfl⟩
  · rintro ⟨rfl, ⟨c, hc, rfl⟩ | rfl⟩
    · exact ⟨_, Or.inl ⟨c, hc, rfl⟩, rfl, rfl⟩
    · exact ⟨_, Or.inr rfl, rfl, rfl⟩

theorem statesIn_answerOf :
    statesIn (answerOf mb chunks cls count) = (chunks.map StateMessage.content : Multiset Content) := by
  induction chunks with
  | nil => rfl
  | cons c chunks ih =>
      have hcons : statesIn (answerOf mb (c :: chunks) cls count) =
          statesIn [(mb, .state c)] + statesIn (answerOf mb chunks cls count) :=
        statesIn_append [(mb, .state c)] (answerOf mb chunks cls count)
      rw [hcons, ih]
      rfl

theorem getAcksIn_answerOf : getAcksIn (answerOf mb chunks cls count) = {cls} := by
  induction chunks with
  | nil => rfl
  | cons c chunks ih => exact ih

theorem acksOf_answerOf (j : Middlebox) : acksOf j (answerOf mb chunks cls count) = 0 := by
  rw [acksOf, Multiset.coe_eq_zero, List.filterMap_eq_nil_iff]
  rintro ⟨source, msg⟩ hmem
  obtain ⟨-, ⟨m, -, rfl⟩ | rfl⟩ := (mem_answerOf ..).mp hmem
  · simp [Message.putAckKey]
  · simp [Message.putAckKey]

end Chunks

/-- The class of a get that has been answered is not answered again. -/
theorem Round.given_answer (h : Round classOf src y x) (hs : x.Sound classOf) {cls : StateClass}
    {rest : Multiset StateClass} (hask : y.asking = cls ::ₘ rest) {items : Multiset Content}
    (hitems : ∀ a ∈ items, a.ackKey.1 = cls) :
    ofClass y.given cls = 0 ∧ ∀ cls' ∈ y.answered + y.counted,
      ofClass (y.given + items) cls' = ofClass y.given cls' := by
  have hnodup : (y.asking + y.answered + y.counted).Nodup :=
    h.conserved.asks ▸ Multiset.coe_nodup.mpr hs.classes_nodup
  rw [hask, add_assoc, Multiset.cons_add, Multiset.nodup_cons, Multiset.mem_add, not_or] at hnodup
  have hnew : cls ∉ y.answered + y.counted := hnodup.1.2
  constructor
  · rw [ofClass, Multiset.countP_eq_zero]
    intro key hkey he
    obtain ⟨a, ha, rfl⟩ := Multiset.mem_map.mp hkey
    exact hnew (he ▸ h.conserved.given_cls a ha)
  · intro cls' hcls'
    rw [ofClass, ofClass, Multiset.map_add, Multiset.countP_add, Nat.add_eq_left, Multiset.countP_eq_zero]
    intro key hkey he
    obtain ⟨a, ha, rfl⟩ := Multiset.mem_map.mp hkey
    exact hnew ((he.symm.trans (hitems a ha)) ▸ hcls')

theorem Round.read_get (h : Round classOf src y x) (hs : x.Sound classOf) {cmd : Command} {rest : List Command}
    (hw : x.wire mb = cmd :: rest) {cls : StateClass} {chunks : List StateMessage} (hcmd : cmd.getClass = some cls)
    (hcls : ∀ msg ∈ chunks, msg.cls = cls ∧ classOf msg.hashkey = cls)
    (hnodup : (chunks.map fun msg => msg.hashkey).Nodup) :
    ∃ y', Round classOf src y' (x.read mb rest (chunks.map .state ++ [.getAck cls chunks.length])) := by
  have hasking := h.asking mb
  rw [hw, getsIn_cons_some hcmd] at hasking
  have hmb : mb = src := by
    by_contra hne
    rw [if_neg hne] at hasking
    exact Multiset.cons_ne_zero hasking
  subst hmb
  rw [if_pos rfl] at hasking
  let items : Multiset Content := (chunks.map StateMessage.content : Multiset Content)
  have hitems : ∀ a ∈ items, a.ackKey.1 = cls := by
    intro a ha
    obtain ⟨msg, hmsg, rfl⟩ := List.mem_map.mp ha
    exact (hcls msg hmsg).1
  have hkeys : (items.map Content.ackKey).Nodup := by
    refine Multiset.Nodup.of_map Prod.snd ?_
    rw [Multiset.map_map]
    exact Multiset.coe_nodup.mpr (by simpa [Function.comp_def, Content.ackKey] using hnodup)
  obtain ⟨hzero, hsame⟩ := h.given_answer hs hasking.symm hitems
  have hnew : ofClass (y.given + items) cls = chunks.length := by
    have hcount : (items.map Content.ackKey).countP (fun key => key.1 = cls) = (items.map Content.ackKey).card := by
      rw [Multiset.countP_eq_card]
      intro key hkey
      obtain ⟨a, ha, rfl⟩ := Multiset.mem_map.mp hkey
      exact hitems a ha
    rw [ofClass, Multiset.map_add, Multiset.countP_add, hcount]
    rw [ofClass] at hzero
    rw [hzero, Multiset.card_map, Nat.zero_add]
    exact Multiset.coe_card _ |>.trans (List.length_map _)
  have hstep := @Scatter.Step.answer _ _ _ _ _ Prod.fst Content.ackKey (x.sinks mb) y _ _ _ hasking.symm hitems hkeys
  have htalk : (x.read mb rest (chunks.map .state ++ [.getAck cls chunks.length])).talk =
      x.talk ++ answerOf mb chunks cls chunks.length := rfl
  refine ⟨_, { h with
    conserved := h.conserved.step (Multiset.coe_nodup.mpr hs.classes_nodup) hstep
    classed := fun a ha => ?_
    asking := fun j => ?_
    toggles := fun j cmd' hcmd' => h.toggles j cmd' (mem_wire_of_left hw hcmd')
    eventsAcks := fun j hmem => ?_
    answered := ?_
    counts := fun j cls' count hmem => ?_
    getCount := fun cls' hcounted => ?_
    putting := fun j => ?_
    acking := fun j => ?_
    arriving := fun hn => ?_
    comes := fun hn j msg hmem => ?_ }⟩
  · rcases Multiset.mem_add.mp ha with ha | ha
    · exact h.classed a ha
    · obtain ⟨msg, hmsg, rfl⟩ := List.mem_map.mp ha
      exact (hcls msg hmsg).2.trans (hcls msg hmsg).1.symm
  · show getsIn (Function.update x.wire mb rest j) = if j = mb then getsIn rest else 0
    by_cases hj : j = mb
    · rw [hj, Function.update_self, if_pos rfl]
    · rw [Function.update_of_ne hj, h.asking, if_neg hj, if_neg hj]
  · rw [htalk, List.mem_append] at hmem
    rcases hmem with hmem | hmem
    · exact h.eventsAcks j hmem
    · obtain ⟨-, ⟨m, -, he⟩ | he⟩ := (mem_answerOf ..).mp hmem <;> cases he
  · rw [htalk, getAcksIn_append, getAcksIn_answerOf, h.answered, add_comm]
    rfl
  · rw [htalk, List.mem_append] at hmem
    rcases hmem with hmem | hmem
    · have hans : cls' ∈ y.answered := h.answered ▸ mem_getAcksIn hmem
      rw [hsame cls' (Multiset.mem_add.mpr (Or.inl hans))]
      exact h.counts j cls' count hmem
    · obtain ⟨-, ⟨m, -, he⟩ | he⟩ := (mem_answerOf ..).mp hmem <;> cases he
      rw [hnew]
  · rw [hsame cls' (Multiset.mem_add.mpr (Or.inr hcounted))]
    exact h.getCount cls' hcounted
  · show putsIn (Function.update x.wire mb rest j) = y.putting j
    rw [← h.putting j]
    by_cases hj : j = mb
    · rw [hj, Function.update_self, hw, putsIn_cons_none (Command.of_get (hcmd ▸ Option.some_ne_none cls)).1]
    · rw [Function.update_of_ne hj]
  · rw [htalk, acksOf_append, acksOf_answerOf, add_zero]
    exact h.acking j
  · rw [htalk, statesIn_append, statesIn_answerOf, h.arriving hn]
  · rw [htalk, List.mem_append] at hmem
    rcases hmem with hmem | hmem
    · exact h.comes hn j msg hmem
    · exact ((mem_answerOf ..).mp hmem).1

theorem Round.read_put (h : Round classOf src y x) (hs : x.Sound classOf) {cmd : Command} {rest : List Command}
    (hw : x.wire mb = cmd :: rest) {c : Content} (hcmd : cmd.putContent = some c) :
    ∃ y', Round classOf src y' (x.read mb rest [.putAck c.cls c.hashkey]) := by
  obtain ⟨hget, htoggle⟩ := Command.of_put (hcmd ▸ Option.some_ne_none c)
  have hputting : y.putting mb = c ::ₘ putsIn rest := by
    rw [← h.putting, hw, putsIn_cons_some hcmd]
  have hstep := @Scatter.Step.read _ _ _ _ _ Prod.fst Content.ackKey (x.sinks src) y _ _ _ hputting
  have htalk : (x.read mb rest [.putAck c.cls c.hashkey]).talk = x.talk ++ [(mb, .putAck c.cls c.hashkey)] := rfl
  have hmem : ∀ j msg, (∀ cls hashkey, msg ≠ .putAck cls hashkey) →
      (j, msg) ∈ (x.read mb rest [.putAck c.cls c.hashkey]).talk → (j, msg) ∈ x.talk := by
    intro j msg hmsg hmem
    rw [htalk, List.mem_append, List.mem_singleton] at hmem
    refine hmem.resolve_right fun he => ?_
    exact hmsg c.cls c.hashkey (Prod.mk.inj he).2
  refine ⟨_, { h with
    conserved := h.conserved.step (Multiset.coe_nodup.mpr hs.classes_nodup) hstep
    asking := fun j => ?_
    toggles := fun j cmd' hcmd' => h.toggles j cmd' (mem_wire_of_left hw hcmd')
    eventsAcks := fun j hj => h.eventsAcks j (hmem j _ nofun hj)
    answered := ?_
    counts := fun j cls count hj => h.counts j cls count (hmem j _ nofun hj)
    putting := fun j => ?_
    acking := fun j => ?_
    arriving := fun hn => ?_
    comes := fun hn j msg hj => h.comes hn j msg (hmem j _ nofun hj) }⟩
  · show getsIn (Function.update x.wire mb rest j) = if j = src then y.asking else 0
    rw [← h.asking j]
    by_cases hj : j = mb
    · rw [hj, Function.update_self, hw, getsIn_cons_none hget]
    · rw [Function.update_of_ne hj]
  · rw [htalk, getAcksIn_append, getAcksIn_singleton, h.answered]
    simp [Message.getAckClass]
  · show putsIn (Function.update x.wire mb rest j) = Function.update y.putting mb (putsIn rest) j
    by_cases hj : j = mb
    · rw [hj, Function.update_self, Function.update_self]
    · rw [Function.update_of_ne hj, Function.update_of_ne hj, h.putting]
  · rw [htalk, acksOf_append, acksOf_singleton, h.acking]
    show _ = Function.update y.acking mb (c.ackKey ::ₘ y.acking mb) j
    by_cases hj : j = mb
    · rw [hj, Function.update_self, if_pos rfl, add_comm]
      rfl
    · rw [Function.update_of_ne hj, if_neg (Ne.symm hj), add_zero]
  · rw [htalk, statesIn_append, statesIn_singleton, h.arriving hn]
    simp [Message.stateContent]

/-- In a round a command is answered, and the round goes on. -/
theorem Round.read (h : Round classOf src y x) (hs : x.Sound classOf) {cmd : Command} {rest : List Command}
    (hw : x.wire mb = cmd :: rest) {msgs : List Message} (hans : Answers classOf cmd msgs) :
    ∃ y', Round classOf src y' (x.read mb rest msgs) := by
  cases hans with
  | get hcmd hcls hnodup => exact h.read_get hs hw hcmd hcls hnodup
  | put hcmd => exact h.read_put hs hw hcmd
  | toggle hcmd =>
      have hno := h.toggles mb cmd (hw ▸ List.mem_cons_self ..)
      rw [hcmd] at hno
      cases hno

/-! ## Handling messages in a round -/

section Hear

variable {source : Middlebox} {msg : Message} {before behind : List (Middlebox × Message)}

theorem mem_of_split {z : Middlebox × Message} (ht : x.talk = before ++ (source, msg) :: behind)
    (hz : z ∈ before ++ behind) : z ∈ x.talk := by
  rw [ht]
  rcases List.mem_append.mp hz with hz | hz
  · exact List.mem_append_left _ hz
  · exact List.mem_append_right _ (List.mem_cons_of_mem _ hz)

theorem Round.getAck (h : Round classOf src y x) (hs : x.Sound classOf) {cls : StateClass} {count : Int}
    (ht : x.talk = before ++ (source, .getAck cls count) :: behind) :
    ∃ y', Round classOf src y' { x.hear source (.getAck cls count) (before ++ behind) with
      counters := x.counters.recordGetAck cls count } := by
  have hans : y.answered = cls ::ₘ getAcksIn (before ++ behind) := by
    rw [← h.answered, ht, split_add getAcksIn getAcksIn_append, getAcksIn_singleton]
    rfl
  have hcount : count = (ofClass y.given cls : Int) := h.counts source cls count (ht ▸ by simp)
  have hstep := @Scatter.Step.count _ _ _ _ _ Prod.fst Content.ackKey (x.sinks src) y _ _ hans
  refine ⟨_, { h with
    conserved := h.conserved.step (Multiset.coe_nodup.mpr hs.classes_nodup) hstep
    eventsAcks := fun j hj => h.eventsAcks j (mem_of_split ht hj)
    answered := rfl
    counts := fun j cls' count' hj => h.counts j cls' count' (mem_of_split ht hj)
    counted := fun cls' => ?_
    getCount := fun cls' hcounted => ?_
    acking := fun j => ?_
    arriving := fun hn => ?_
    comes := fun hn j msg hj => h.comes hn j msg (mem_of_split ht hj)
    puts := fun j hj => ?_ }⟩
  · show cls' ∈ cls ::ₘ y.counted ↔ Function.update x.counters.getAcked cls true cls' = true
    rw [Multiset.mem_cons, h.counted]
    by_cases hcls : cls' = cls
    · simp [hcls]
    · simp [hcls, Function.update_of_ne]
  · show Function.update x.counters.getCount cls count cls' = _
    by_cases hcls : cls' = cls
    · rw [hcls, Function.update_self, hcount]
    · rw [Function.update_of_ne hcls]
      exact h.getCount cls' ((Multiset.mem_cons.mp hcounted).resolve_left hcls)
  · show acksOf j (before ++ behind) = y.acking j
    rw [← h.acking, ht, split_add (acksOf j) (acksOf_append j), acksOf_singleton]
    simp [Message.putAckKey]
  · show statesIn (before ++ behind) = y.arriving
    rw [← h.arriving hn, ht, split_add statesIn statesIn_append, statesIn_singleton]
    simp [Message.stateContent]
  · refine Eq.trans ?_ (h.puts j hj)
    show chunksFor j (x.heard ++ [(source, .getAck cls count)]) = _
    rw [chunksFor_append, chunksFor_singleton]
    simp [Message.stateContent]

/-- What the handler of a put-ack does to the chunks. -/
structure Acked (b : Operation) (hashkey : Int) (b' : Operation) : Prop where
  pool : b'.threadPool = b.threadPool
  flushes : b'.flushes = b.flushes
  msg : ∀ ref, (b'.stateChunks ref).msg = (b.stateChunks ref).msg
  dsts : ∀ ref, (b'.stateChunks ref).dsts = (b.stateChunks ref).dsts
  acked : ∀ ref, (b'.stateChunks ref).numAckedInstances =
    (b.stateChunks ref).numAckedInstances + if ref = b.obtainStateChunk hashkey then 1 else 0

theorem Acked.waiting {b : Operation} {hashkey : Int} (hb : Acked x.base hashkey b) :
    ({ x with base := b } : Exchange).waiting = x.waiting := by
  rw [Exchange.waiting, Exchange.waiting, hb.pool]
  simp only [hb.msg]

theorem Round.putAck (h : Round classOf src y x) (hs : x.Sound classOf) {cls : StateClass} {hashkey : Int}
    (ht : x.talk = before ++ (source, .putAck cls hashkey) :: behind) {b : Operation}
    (hb : Acked x.base hashkey b) :
    ∃ y', Round classOf src y' { x.hear source (.putAck cls hashkey) (before ++ behind) with
      base := b
      counters := x.counters.recordPutAck cls } := by
  have hack : y.acking source = (cls, hashkey) ::ₘ acksOf source (before ++ behind) := by
    rw [← h.acking, ht, split_add (acksOf source) (acksOf_append source), acksOf_singleton, if_pos rfl]
    rfl
  have hsink : source ∈ x.sinks src := by
    by_contra hno
    rw [(h.conserved.none source hno).2.1] at hack
    exact Multiset.zero_ne_cons hack
  have hstep := @Scatter.Step.ack _ _ _ _ _ Prod.fst Content.ackKey (x.sinks src) y _ _ _ hack
  have hacks : ∀ (P : StateClass × Int → Prop) [DecidablePred P],
      Scatter.acks (x.sinks src) { y with
        acking := Function.update y.acking source (acksOf source (before ++ behind))
        acked := Function.update y.acked source ((cls, hashkey) ::ₘ y.acked source) } P =
      y.acks (x.sinks src) P + if P (cls, hashkey) then 1 else 0 :=
    fun P _ => Scatter.acks_ack P hsink
  refine ⟨_, { h with
    conserved := h.conserved.step (Multiset.coe_nodup.mpr hs.classes_nodup) hstep
    eventsAcks := fun j hj => h.eventsAcks j (mem_of_split ht hj)
    answered := ?_
    counts := fun j cls' count' hj => h.counts j cls' count' (mem_of_split ht hj)
    acking := fun j => ?_
    putAcks := fun cls' => ?_
    chunkAcks := fun hashkey' => ?_
    arriving := fun hn => ?_
    comes := fun hn j msg hj => h.comes hn j msg (mem_of_split ht hj)
    waits := fun hn => hb.waiting.trans (h.waits hn)
    stored := fun hn ref href => ?_
    puts := fun j hj => ?_ }⟩
  · show getAcksIn (before ++ behind) = y.answered
    rw [← h.answered, ht, split_add getAcksIn getAcksIn_append, getAcksIn_singleton]
    simp [Message.getAckClass]
  · show acksOf j (before ++ behind) = Function.update y.acking source (acksOf source (before ++ behind)) j
    by_cases hj : j = source
    · rw [hj, Function.update_self]
    · rw [Function.update_of_ne hj, ← h.acking, ht, split_add (acksOf j) (acksOf_append j), acksOf_singleton,
        if_neg (Ne.symm hj), zero_add]
  · refine Eq.trans ?_ (hacks _).symm
    show Function.update x.counters.putAcks cls (x.counters.putAcks cls + 1) cls' = _
    by_cases hcls : cls' = cls
    · rw [hcls, Function.update_self, h.putAcks, if_pos rfl]
    · rw [Function.update_of_ne hcls, h.putAcks, if_neg (Ne.symm hcls), add_zero]
  · refine Eq.trans ?_ (hacks _).symm
    show (b.stateChunks (b.obtainStateChunk hashkey')).numAckedInstances = _
    have href : b.obtainStateChunk hashkey' = x.base.obtainStateChunk hashkey' := by
      rw [Operation.obtainStateChunk, hb.flushes, Operation.obtainStateChunk]
    rw [href, hb.acked, ← h.chunkAcks hashkey']
    by_cases hk : hashkey' = hashkey
    · rw [hk, if_pos rfl, if_pos rfl, numAcked]
    · have hne : x.base.obtainStateChunk hashkey' ≠ x.base.obtainStateChunk hashkey :=
        fun he => hk (ChunkRef.mk.inj he).2
      rw [if_neg hne, if_neg (Ne.symm hk), numAcked]
  · show statesIn (before ++ behind) = y.arriving
    rw [← h.arriving hn, ht, split_add statesIn statesIn_append, statesIn_singleton]
    simp [Message.stateContent]
  · have href : .chunk ref ∈ b.threadPool := href
    show (b.stateChunks ref).dsts = _ ∧ ∃ msg, (b.stateChunks ref).msg = some msg
    rw [hb.dsts, hb.msg]
    exact h.stored hn ref (hb.pool ▸ href)
  · have hwaiting : ({ x.hear source (.putAck cls hashkey) (before ++ behind) with
        base := b
        counters := x.counters.recordPutAck cls } : Exchange).waiting = x.waiting := hb.waiting
    rw [hwaiting]
    refine Eq.trans ?_ (h.puts j hj)
    show chunksFor j (x.heard ++ [(source, .putAck cls hashkey)]) = _
    rw [chunksFor_append, chunksFor_singleton]
    simp [Message.stateContent]

/-! ## Chunks in a round -/

theorem eq_of_single {l : List Middlebox} (hl : ¬ 2 ≤ l.length) {j k : Middlebox} (hj : j ∈ l) (hk : k ∈ l) :
    j = k := by
  match l, hl with
  | [], _ => cases hj
  | [a], _ => rw [List.mem_singleton.mp hj, List.mem_singleton.mp hk]
  | _ :: _ :: _, hl => exact absurd (by simp) hl

theorem Sound.mem_sinks (hs : x.Sound classOf) {j : Middlebox} :
    j ∈ x.sinks src ↔ j ≠ src ∧ j ∈ x.instances := by
  rw [sinks, List.mem_toFinset, hs.nodup.mem_erase_iff]

theorem sinks_nonempty (hn : 2 ≤ x.instances.length) (hmem : src ∈ x.instances) :
    ∃ j, j ∈ x.sinks src := by
  have hlen : 0 < (x.instances.erase src).length := by
    rw [List.length_erase_of_mem hmem]
    omega
  obtain ⟨j, hj⟩ := List.exists_mem_of_length_pos hlen
  exact ⟨j, List.mem_toFinset.mpr hj⟩

/-- No chunk object is written to that waits in the thread pool. -/
theorem Round.not_mem_pool (h : Round classOf src y x) (hs : x.Sound classOf) (hn : 2 ≤ x.instances.length)
    {msg : StateMessage} (ht : x.talk = before ++ (source, .state msg) :: behind) :
    ∀ ref ∈ chunkTasks x.base.threadPool, ref.hashkey ≠ msg.hashkey := by
  intro ref href he
  obtain ⟨j, hj⟩ := sinks_nonempty hn h.mem
  have hpool : .chunk ref ∈ x.base.threadPool := by
    obtain ⟨task, htask, hsome⟩ := List.mem_filterMap.mp href
    cases task with
    | chunk ref' => cases hsome; exact htask
    | event e => cases hsome
  obtain ⟨-, msg', hmsg'⟩ := h.stored hn ref hpool
  obtain ⟨hkey, -, hcls⟩ := hs.chunk ref msg' hmsg'
  have hmem : (source, .state msg) ∈ x.talk := ht ▸ by simp
  obtain ⟨-, hcls'⟩ := (hs.talk _ hmem).2
  have hsame : msg.content.ackKey = msg'.content.ackKey := by
    refine Prod.ext ?_ ?_
    · exact hcls'.symm.trans ((congrArg classOf (he.symm.trans hkey.symm)).trans hcls)
    · exact he.symm.trans hkey.symm
  have harriving : msg.content ∈ y.arriving := h.arriving hn ▸ mem_statesIn hmem
  have hwaiting : msg'.content ∈ y.waiting :=
    h.waits hn ▸ List.mem_filterMap.mpr ⟨ref, href, by rw [hmsg']; rfl⟩
  have hnodup := h.conserved.nodup
  rw [← h.conserved.gives j hj, ← h.conserved.accepts j hj, Multiset.map_add, Multiset.nodup_add] at hnodup
  refine Multiset.disjoint_left.mp hnodup.2.2 (Multiset.mem_map_of_mem _ harriving) ?_
  rw [hsame]
  exact Multiset.mem_map_of_mem _ (Multiset.mem_add.mpr (Or.inl hwaiting))

@[simp] theorem setChunk_self (b : Operation) (ref : ChunkRef) (chunk : StateChunk) :
    (b.setChunk ref chunk).stateChunks ref = chunk := Function.update_self ..

theorem setChunk_of_ne {b : Operation} {ref r : ChunkRef} {chunk : StateChunk} (h : r ≠ ref) :
    (b.setChunk ref chunk).stateChunks r = b.stateChunks r := Function.update_of_ne h ..

/-- What a submitted chunk adds to those that wait. -/
theorem waiting_submit {ref : ChunkRef} {chunk : StateChunk} {msg : StateMessage} (hmsg : chunk.msg = some msg)
    (hnot : ref ∉ chunkTasks x.base.threadPool) :
    ({ x with base := (x.base.setChunk ref chunk).submit (.chunk ref) } : Exchange).waiting =
      msg.content ::ₘ x.waiting := by
  have hold : (chunkTasks x.base.threadPool).filterMap (fun r =>
      ((x.base.setChunk ref chunk).stateChunks r).msg.map StateMessage.content) =
      (chunkTasks x.base.threadPool).filterMap fun r => (x.base.stateChunks r).msg.map StateMessage.content := by
    refine List.filterMap_congr fun r hr => ?_
    have hne : r ≠ ref := fun he => hnot (he ▸ hr)
    rw [setChunk_of_ne hne]
  show (((chunkTasks (x.base.threadPool ++ [.chunk ref])).filterMap fun r =>
    ((x.base.setChunk ref chunk).stateChunks r).msg.map StateMessage.content : List Content) : Multiset Content) = _
  rw [chunkTasks_append_chunk, List.filterMap_append, hold, ← Multiset.coe_add, add_comm]
  simp [hmsg, waiting]

/-- A chunk is stored and submitted. -/
theorem Round.submit (h : Round classOf src y x) (hs : x.Sound classOf) {msg : StateMessage}
    (ht : x.talk = before ++ (source, .state msg) :: behind) {chunk : StateChunk} (hmsg : chunk.msg = some msg)
    (hdsts : chunk.dsts = some (x.instances.erase src))
    (hacked : chunk.numAckedInstances = x.numAcked msg.hashkey) :
    ∃ y', Round classOf src y' { x.hear source (.state msg) (before ++ behind) with
      base := (x.base.setChunk (x.base.obtainStateChunk msg.hashkey) chunk).submit
        (.chunk (x.base.obtainStateChunk msg.hashkey)) } := by
  set ref := x.base.obtainStateChunk msg.hashkey with href
  have hmem : (source, Message.state msg) ∈ x.talk := by
    rw [ht]
    simp
  have hsource : source ∈ x.instances := (hs.talk _ hmem).1
  have hacks : ∀ hashkey, (((x.base.setChunk ref chunk).submit (.chunk ref)).stateChunks
      (x.base.obtainStateChunk hashkey)).numAckedInstances = x.numAcked hashkey := by
    intro hashkey
    show ((x.base.setChunk ref chunk).stateChunks (x.base.obtainStateChunk hashkey)).numAckedInstances = _
    by_cases hk : x.base.obtainStateChunk hashkey = ref
    · rw [hk, setChunk_self, hacked]
      rw [(ChunkRef.mk.inj hk).2]
    · rw [setChunk_of_ne hk, numAcked]
  have hgets : getAcksIn (before ++ behind) = getAcksIn x.talk := by
    rw [ht, split_add getAcksIn getAcksIn_append, getAcksIn_singleton]
    simp [Message.getAckClass]
  have hputs : ∀ j, acksOf j (before ++ behind) = acksOf j x.talk := by
    intro j
    rw [ht, split_add (acksOf j) (acksOf_append j), acksOf_singleton]
    simp [Message.putAckKey]
  by_cases hn : 2 ≤ x.instances.length
  · have hnot := h.not_mem_pool hs hn ht
    have harr : y.arriving = msg.content ::ₘ statesIn (before ++ behind) := by
      rw [← h.arriving hn, ht, split_add statesIn statesIn_append, statesIn_singleton]
      rfl
    have hstep := @Scatter.Step.accept _ _ _ _ _ Prod.fst Content.ackKey (x.sinks src) y _ _ harr
    have hwaiting := waiting_submit hmsg fun hmem => hnot ref hmem rfl
    have hsrc : source = src := h.comes hn source msg hmem
    refine ⟨_, { h with
      conserved := h.conserved.step (Multiset.coe_nodup.mpr hs.classes_nodup) hstep
      eventsAcks := fun j hj => h.eventsAcks j (mem_of_split ht hj)
      answered := hgets.trans h.answered
      counts := fun j cls' count' hj => h.counts j cls' count' (mem_of_split ht hj)
      acking := fun j => (hputs j).trans (h.acking j)
      chunkAcks := fun hashkey => (hacks hashkey).trans (h.chunkAcks hashkey)
      arriving := fun _ => rfl
      comes := fun _ j msg' hj => h.comes hn j msg' (mem_of_split ht hj)
      waits := fun _ => hwaiting.trans (congrArg (msg.content ::ₘ ·) (h.waits hn))
      stored := fun _ r hr => ?_
      puts := fun j hj => ?_ }⟩
    · show ((x.base.setChunk ref chunk).stateChunks r).dsts = _ ∧
        ∃ m, ((x.base.setChunk ref chunk).stateChunks r).msg = some m
      have hr : .chunk r ∈ x.base.threadPool ++ [Task.chunk ref] := hr
      by_cases hrr : r = ref
      · rw [hrr, setChunk_self]
        exact ⟨hdsts, msg, hmsg⟩
      · rw [setChunk_of_ne hrr]
        refine h.stored hn r ?_
        rcases List.mem_append.mp hr with hr | hr
        · exact hr
        · exact absurd (Task.chunk.inj (List.mem_singleton.mp hr)) hrr
    · have hold := h.puts j hj
      show chunksFor j (x.heard ++ [(source, .state msg)]) = putsIn (x.sent j) +
        if j = src then 0 else ({ x with base := (x.base.setChunk ref chunk).submit (.chunk ref) } : Exchange).waiting
      rw [chunksFor_append, chunksFor_singleton, hold, hwaiting, hsrc]
      by_cases hjs : j = src
      · simp [hjs]
      · rw [if_neg hjs, if_neg hjs, if_neg (Ne.symm hjs), ← Multiset.singleton_add, add_assoc,
          add_comm x.waiting]
        rfl
  · refine ⟨y, { h with
      eventsAcks := fun j hj => h.eventsAcks j (mem_of_split ht hj)
      answered := hgets.trans h.answered
      counts := fun j cls' count' hj => h.counts j cls' count' (mem_of_split ht hj)
      acking := fun j => (hputs j).trans (h.acking j)
      chunkAcks := fun hashkey => (hacks hashkey).trans (h.chunkAcks hashkey)
      arriving := fun hn' => absurd hn' hn
      comes := fun hn' => absurd hn' hn
      waits := fun hn' => absurd hn' hn
      stored := fun hn' => absurd hn' hn
      puts := fun j hj => ?_ }⟩
    have hold := h.puts j hj
    have hjs : j = src := eq_of_single hn hj h.mem
    have hsrc : source = j := eq_of_single hn hsource hj
    show chunksFor j (x.heard ++ [(source, .state msg)]) = putsIn (x.sent j) + if j = src then 0 else _
    rw [if_pos hjs] at hold ⊢
    rw [chunksFor_append, chunksFor_singleton, if_pos hsrc, hold, add_zero]

end Hear

/-! ## Chunks that are put -/

section Put

variable {putMsg : PutMessage} {out : List Effect}

/-- A chunk is put to all other instances. -/
def PutsOut (x : Exchange) (src : Middlebox) (putMsg : PutMessage) (out : List Effect) : Prop :=
  ∀ mb, commandsTo mb out = if mb ∈ x.sinks src then [.put putMsg] else []

theorem PutsOut.getsIn (h : x.PutsOut src putMsg out) (mb : Middlebox) :
    getsIn ((x.emit out).wire mb) = getsIn (x.wire mb) := by
  show Controller.getsIn (x.wire mb ++ commandsTo mb out) = _
  rw [getsIn_append, h]
  split
  · exact add_zero _
  · exact add_zero _

theorem putsIn_putsOut (h : x.PutsOut src putMsg out) (f : Middlebox → List Command) (mb : Middlebox) :
    putsIn (f mb ++ commandsTo mb out) =
      Scatter.spread (x.sinks src) putMsg.content (fun j => putsIn (f j)) mb := by
  rw [putsIn_append, h, Scatter.spread]
  split
  · rw [add_comm]
    rfl
  · exact add_zero _

theorem PutsOut.toggles (h : x.PutsOut src putMsg out) (hx : ∀ mb, ∀ cmd ∈ x.wire mb, cmd.isToggle = false) :
    ∀ mb, ∀ cmd ∈ (x.emit out).wire mb, cmd.isToggle = false := by
  intro mb cmd hcmd
  rcases List.mem_append.mp hcmd with hcmd | hcmd
  · exact hx mb cmd hcmd
  · rw [h] at hcmd
    split at hcmd
    · rw [List.mem_singleton.mp hcmd]
      rfl
    · cases hcmd

theorem commandsTo_map {l : List Middlebox} (hl : l.Nodup) (cmd : Command) (mb : Middlebox) :
    commandsTo mb (l.map fun dst => .send dst cmd) = if mb ∈ l then [cmd] else [] := by
  induction l with
  | nil => rfl
  | cons dst l ih =>
      obtain ⟨hnot, hl⟩ := List.nodup_cons.mp hl
      have hcons : commandsTo mb ((dst :: l).map fun dst => .send dst cmd) =
          (if dst = mb then [cmd] else []) ++ commandsTo mb (l.map fun dst => .send dst cmd) := by
        rw [List.map_cons]
        by_cases hd : dst = mb <;> simp [commandsTo, hd]
      rw [hcons, ih hl]
      by_cases hd : dst = mb
      · subst hd
        simp [hnot]
      · simp [hd, Ne.symm hd]

theorem Sound.putsOut (hs : x.Sound classOf) (src : Middlebox) (putMsg : PutMessage) :
    x.PutsOut src putMsg ((x.instances.erase src).map fun dst => .send dst (.put putMsg)) := by
  intro mb
  rw [commandsTo_map (hs.nodup.erase src), sinks]
  simp only [List.mem_toFinset]

/-- Of one instance only, no chunk is put anywhere. -/
theorem Sound.call_single (hs : x.Sound classOf) (hn : ¬ 2 ≤ x.instances.length) (ref : ChunkRef) :
    (x.base.stateChunks ref).call.out = [] := by
  rw [StateChunk.call]
  split
  · rename_i msg dsts hmsg hdsts
    obtain ⟨src, hsrc, rfl⟩ := hs.dsts ref dsts hdsts
    have hnil : x.instances.erase src = [] := by
      rw [← List.length_eq_zero_iff, List.length_erase_of_mem hsrc]
      omega
    split
    · rw [hnil]
      rfl
    · rfl
  · rfl

theorem waiting_task {i : Nat} {ref : ChunkRef} {msg : StateMessage}
    (hi : x.base.threadPool[i]? = some (.chunk ref)) (hmsg : (x.base.stateChunks ref).msg = some msg) :
    x.waiting = msg.content ::ₘ
      ({ x with base := { x.base with threadPool := x.base.threadPool.eraseIdx i } } : Exchange).waiting := by
  obtain ⟨l₁, l₂, hpool, herase⟩ := chunkTasks_eraseIdx_chunk hi
  simp only [waiting, hpool, herase]
  exact filterMap_split_some l₁ l₂ (by rw [hmsg]; rfl)

/-- A task of the thread pool puts its chunk. -/
theorem Round.task (h : Round classOf src y x) (hs : x.Sound classOf) {i : Nat} {ref : ChunkRef}
    (hi : x.base.threadPool[i]? = some (.chunk ref)) :
    ∃ y', Round classOf src y' (({ x with base := { x.base with threadPool := x.base.threadPool.eraseIdx i } } :
      Exchange).emit (x.base.stateChunks ref).call.out) := by
  set x' : Exchange := { x with base := { x.base with threadPool := x.base.threadPool.eraseIdx i } } with hx'
  by_cases hn : 2 ≤ x.instances.length
  · obtain ⟨hdsts, msg, hmsg⟩ := h.stored hn ref (List.mem_of_getElem? hi)
    obtain ⟨-, habout⟩ := hs.chunk ref msg hmsg
    have hconfig : msg.cls ≠ .config := fun he => hs.classes_config (he ▸ habout.1)
    obtain ⟨putMsg, hput, hcontent⟩ := msg.exists_toPut hconfig
    have hout : (x.base.stateChunks ref).call.out =
        (x.instances.erase src).map fun dst => .send dst (.put putMsg) := by
      rw [StateChunk.call, hmsg, hdsts]
      simp only [hput, Emit.emit_out]
    rw [hout]
    have hputs : x'.PutsOut src putMsg ((x.instances.erase src).map fun dst => .send dst (.put putMsg)) :=
      hs.putsOut src putMsg
    have hwaiting : x.waiting = msg.content ::ₘ x'.waiting := waiting_task hi hmsg
    have hhand : y.waiting = msg.content ::ₘ x'.waiting := by
      rw [← h.waits hn, hwaiting]
    have hstep := @Scatter.Step.hand _ _ _ _ _ Prod.fst Content.ackKey (x.sinks src) y _ _ hhand
    refine ⟨_, { h with
      conserved := h.conserved.step (Multiset.coe_nodup.mpr hs.classes_nodup) hstep
      asking := fun j => (hputs.getsIn j).trans (h.asking j)
      toggles := hputs.toggles h.toggles
      putting := fun j => ?_
      waits := fun _ => rfl
      stored := fun _ r hr => h.stored hn r (List.mem_of_mem_eraseIdx hr)
      puts := fun j hj => ?_ }⟩
    · rw [show (x'.emit _).wire j = x.wire j ++ commandsTo j _ from rfl, putsIn_putsOut hputs x.wire j, hcontent]
      exact congrFun (congrArg _ (funext h.putting)) j
    · have hold := h.puts j hj
      show chunksFor j x.heard = putsIn (x.sent j ++ commandsTo j _) + if j = src then 0 else x'.waiting
      rw [putsIn_putsOut hputs x.sent j, hold, hcontent]
      by_cases hjs : j = src
      · have hno : j ∉ x'.sinks src := fun hj' => (hs.mem_sinks.mp hj').1 hjs
        rw [if_pos hjs, if_pos hjs, Scatter.spread_of_notMem hno]
      · have hyes : j ∈ x'.sinks src := hs.mem_sinks.mpr ⟨hjs, hj⟩
        rw [if_neg hjs, if_neg hjs, Scatter.spread_of_mem hyes, hwaiting, Multiset.add_cons, Multiset.cons_add]
  · rw [hs.call_single hn ref]
    refine ⟨y, { h with
      asking := fun j => ?_
      toggles := fun j cmd hcmd => ?_
      putting := fun j => ?_
      arriving := fun hn' => absurd hn' hn
      comes := fun hn' => absurd hn' hn
      waits := fun hn' => absurd hn' hn
      stored := fun hn' => absurd hn' hn
      puts := fun j hj => ?_ }⟩
    · rw [show (x'.emit []).wire j = x.wire j from List.append_nil _]
      exact h.asking j
    · rw [show (x'.emit []).wire j = x.wire j from List.append_nil _] at hcmd
      exact h.toggles j cmd hcmd
    · rw [show (x'.emit []).wire j = x.wire j from List.append_nil _]
      exact h.putting j
    · have hjs : j = src := eq_of_single hn hj h.mem
      have hold := h.puts j hj
      rw [if_pos hjs] at hold ⊢
      rw [show (x'.emit []).sent j = x.sent j from List.append_nil _]
      exact hold

/-- A chunk is put when it arrives. -/
theorem Round.put (h : Round classOf src y x) (hs : x.Sound classOf) {msg : StateMessage} {source : Middlebox}
    {before behind : List (Middlebox × Message)} (ht : x.talk = before ++ (source, .state msg) :: behind)
    (hcontent : putMsg.content = msg.content) (hputs : x.PutsOut src putMsg out) :
    ∃ y', Round classOf src y' ((x.hear source (.state msg) (before ++ behind)).emit out) := by
  have hmem : (source, Message.state msg) ∈ x.talk := by
    rw [ht]
    simp
  have hsource : source ∈ x.instances := (hs.talk _ hmem).1
  have hgets : getAcksIn (before ++ behind) = getAcksIn x.talk := by
    rw [ht, split_add getAcksIn getAcksIn_append, getAcksIn_singleton]
    simp [Message.getAckClass]
  have hacks : ∀ j, acksOf j (before ++ behind) = acksOf j x.talk := by
    intro j
    rw [ht, split_add (acksOf j) (acksOf_append j), acksOf_singleton]
    simp [Message.putAckKey]
  by_cases hn : 2 ≤ x.instances.length
  · have harr : y.arriving = msg.content ::ₘ statesIn (before ++ behind) := by
      rw [← h.arriving hn, ht, split_add statesIn statesIn_append, statesIn_singleton]
      rfl
    have hsrc : source = src := h.comes hn source msg hmem
    have haccept := @Scatter.Step.accept _ _ _ _ _ Prod.fst Content.ackKey (x.sinks src) y _ _ harr
    have hclasses := Multiset.coe_nodup.mpr hs.classes_nodup
    have hhand := (h.conserved.step hclasses haccept).step hclasses (.hand rfl)
    refine ⟨_, { h with
      conserved := hhand
      asking := fun j => (hputs.getsIn j).trans (h.asking j)
      toggles := hputs.toggles h.toggles
      eventsAcks := fun j hj => h.eventsAcks j (mem_of_split ht hj)
      answered := hgets.trans h.answered
      counts := fun j cls' count' hj => h.counts j cls' count' (mem_of_split ht hj)
      putting := fun j => ?_
      acking := fun j => (hacks j).trans (h.acking j)
      arriving := fun _ => rfl
      comes := fun _ j msg' hj => h.comes hn j msg' (mem_of_split ht hj)
      puts := fun j hj => ?_ }⟩
    · rw [show ((x.hear source (.state msg) (before ++ behind)).emit out).wire j = x.wire j ++ commandsTo j out
        from rfl, putsIn_putsOut hputs x.wire j, hcontent]
      exact congrFun (congrArg _ (funext h.putting)) j
    · have hold := h.puts j hj
      show chunksFor j (x.heard ++ [(source, .state msg)]) =
        putsIn (x.sent j ++ commandsTo j out) + if j = src then 0 else x.waiting
      rw [chunksFor_append, chunksFor_singleton, putsIn_putsOut hputs x.sent j, hold, hcontent, hsrc]
      by_cases hjs : j = src
      · have hno : j ∉ x.sinks src := fun hj' => (hs.mem_sinks.mp hj').1 hjs
        rw [if_pos hjs, if_pos hjs.symm, Scatter.spread_of_notMem hno, add_zero]
      · have hyes : j ∈ x.sinks src := hs.mem_sinks.mpr ⟨hjs, hj⟩
        rw [if_neg hjs, if_neg (Ne.symm hjs), Scatter.spread_of_mem hyes, add_comm, ← add_assoc]
        rfl
  · have hnone : ∀ j, commandsTo j out = [] := by
      intro j
      rw [hputs j, if_neg]
      intro hj
      obtain ⟨hne, hj⟩ := hs.mem_sinks.mp hj
      exact hne (eq_of_single hn hj h.mem)
    have hwire : ∀ j, ((x.hear source (.state msg) (before ++ behind)).emit out).wire j = x.wire j := by
      intro j
      show x.wire j ++ commandsTo j out = x.wire j
      rw [hnone, List.append_nil]
    refine ⟨y, { h with
      asking := fun j => ?_
      toggles := fun j cmd hcmd => h.toggles j cmd (hwire j ▸ hcmd)
      eventsAcks := fun j hj => h.eventsAcks j (mem_of_split ht hj)
      answered := hgets.trans h.answered
      counts := fun j cls' count' hj => h.counts j cls' count' (mem_of_split ht hj)
      putting := fun j => ?_
      acking := fun j => (hacks j).trans (h.acking j)
      arriving := fun hn' => absurd hn' hn
      comes := fun hn' => absurd hn' hn
      waits := fun hn' => absurd hn' hn
      stored := fun hn' => absurd hn' hn
      puts := fun j hj => ?_ }⟩
    · rw [hwire]
      exact h.asking j
    · rw [hwire]
      exact h.putting j
    · have hold := h.puts j hj
      have hjs : j = src := eq_of_single hn hj h.mem
      have hsrc : source = j := eq_of_single hn hsource hj
      show chunksFor j (x.heard ++ [(source, .state msg)]) = putsIn (x.sent j ++ commandsTo j out) +
        if j = src then 0 else x.waiting
      rw [if_pos hjs] at hold ⊢
      rw [chunksFor_append, chunksFor_singleton, if_pos hsrc, hold, hnone, List.append_nil, add_zero]

end Put

end Exchange

end OFM.Controller
