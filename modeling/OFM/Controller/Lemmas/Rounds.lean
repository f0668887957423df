import OFM.Controller.Lemmas.Exchange

/-!
# Between the rounds of a share

A round that looks finished has nothing on the way, and where nothing is on the way the next one can begin.
Before the first round the instances are asked to drop packets.
-/

namespace OFM.Controller.Exchange
open OFM.Lib

variable {classOf : Int → StateClass} {x : Exchange} {src mb source : Middlebox}
  {y : Scatter Middlebox StateClass Content (StateClass × Int)}
  {before behind : List (Middlebox × Message)}

/-! ## The end of a round -/

theorem eq_nil_of_kinds {cmds : List Command} (hgets : getsIn cmds = 0) (hputs : putsIn cmds = 0)
    (htoggles : ∀ cmd ∈ cmds, cmd.isToggle = false) : cmds = [] := by
  cases cmds with
  | nil => rfl
  | cons cmd rest =>
      rcases cmd.kind_cases with h | h | h
      · obtain ⟨cls, hcls⟩ := Option.ne_none_iff_exists'.mp h
        rw [getsIn_cons_some hcls] at hgets
        exact absurd hgets (Multiset.cons_ne_zero)
      · obtain ⟨c, hc⟩ := Option.ne_none_iff_exists'.mp h
        rw [putsIn_cons_some hc] at hputs
        exact absurd hputs (Multiset.cons_ne_zero)
      · rw [htoggles cmd (List.mem_cons_self ..)] at h
        cases h

theorem card_sinks (hs : x.Sound classOf) (hmem : src ∈ x.instances) :
    ((x.sinks src).card : Int) = (x.instances.length : Int) - 1 := by
  have hpos := List.length_pos_of_mem hmem
  rw [sinks, List.toFinset_card_of_nodup (hs.nodup.erase src), List.length_erase_of_mem hmem]
  omega

/-- Where all is counted and acked nothing is on the way, except where it has nowhere to go. -/
theorem Round.over (h : Round classOf src y x) (hs : x.Sound classOf) (hfin : x.Finished) :
    y.asking = 0 ∧ y.answered = 0 ∧ ∀ j ∈ x.sinks src, y.missing Content.ackKey j = 0 := by
  refine h.conserved.over (Multiset.coe_nodup.mpr hs.classes_nodup) (fun c hc => ?_) fun c hc => ?_
  · exact (h.counted c).mpr (hfin c hc).1
  · have hc' : c ∈ y.counted := (h.counted c).mpr (hfin c hc).1
    have hacks := (hfin c hc).2
    rw [h.getCount c hc', h.putAcks, ← card_sinks hs h.mem] at hacks
    rw [mul_comm]
    exact_mod_cast hacks

theorem Round.calm (h : Round classOf src y x) (hs : x.Sound classOf) (hfin : x.Finished) (counters : Counters) :
    Calm { x with
      base := x.base.flushStateChunks
      counters := counters } := by
  obtain ⟨hasking, hanswered, hmissing⟩ := h.over hs hfin
  have hempty : ∀ j, y.putting j = 0 ∧ y.acking j = 0 := by
    intro j
    by_cases hj : j ∈ x.sinks src
    · obtain ⟨-, -, hputting, hacking⟩ := Scatter.missing_eq_zero.mp (hmissing j hj)
      exact ⟨hputting, hacking⟩
    · exact ⟨(h.conserved.none j hj).1, (h.conserved.none j hj).2.1⟩
  have htalk : ∀ z ∈ x.talk, ∃ msg, z.2 = .state msg := by
    rintro ⟨j, msg⟩ hz
    have hreport := hs.reportless _ hz
    cases msg with
    | state msg => exact ⟨msg, rfl⟩
    | getAck cls count =>
        have hmem := mem_getAcksIn hz
        rw [h.answered, hanswered] at hmem
        exact absurd hmem (Multiset.notMem_zero cls)
    | putAck cls hashkey =>
        have hmem : (cls, hashkey) ∈ acksOf j x.talk :=
          List.mem_filterMap.mpr ⟨_, hz, if_pos rfl⟩
        rw [h.acking, (hempty j).2] at hmem
        exact absurd hmem (Multiset.notMem_zero _)
    | eventsAck => exact absurd hz (h.eventsAcks j)
    | reprocess m => cases hreport
  have hstill : 2 ≤ x.instances.length → x.talk = [] ∧ x.base.threadPool = [] := by
    intro hn
    obtain ⟨j, hj⟩ := sinks_nonempty hn h.mem
    obtain ⟨harriving, hwaiting, -⟩ := Scatter.missing_eq_zero.mp (hmissing j hj)
    constructor
    · refine List.eq_nil_iff_forall_not_mem.mpr fun z hz => ?_
      obtain ⟨msg, hmsg⟩ := htalk z hz
      have hmem : msg.content ∈ statesIn x.talk := List.mem_filterMap.mpr ⟨z, hz, by rw [hmsg]; rfl⟩
      rw [h.arriving hn, harriving] at hmem
      exact absurd hmem (Multiset.notMem_zero _)
    · refine List.eq_nil_iff_forall_not_mem.mpr fun task htask => ?_
      obtain ⟨ref, rfl⟩ := hs.pool task htask
      obtain ⟨-, msg, hmsg⟩ := h.stored hn ref htask
      have hmem : msg.content ∈ x.waiting :=
        List.mem_filterMap.mpr ⟨ref, List.mem_filterMap.mpr ⟨_, htask, rfl⟩, by rw [hmsg]; rfl⟩
      rw [h.waits hn, hwaiting] at hmem
      exact absurd hmem (Multiset.notMem_zero _)
  constructor
  · intro mb
    apply eq_nil_of_kinds
    · rw [h.asking mb, hasking]
      split <;> rfl
    · rw [h.putting mb, (hempty mb).1]
    · exact h.toggles mb
  · exact htalk
  · exact hstill
  · exact fun hashkey => hs.fresh _ (Nat.lt_succ_self _)
  · intro mb hmb
    have hputs := h.puts mb hmb
    by_cases hsrc : mb = src
    · rwa [if_pos hsrc, add_zero] at hputs
    · have hn : 2 ≤ x.instances.length := by
        by_contra hn
        exact hsrc (eq_of_single hn hmb h.mem)
      have hwaiting : x.waiting = 0 := by
        rw [waiting, (hstill hn).2]
        rfl
      rwa [if_neg hsrc, hwaiting, add_zero] at hputs

/-! ## The start of a round -/

/-- The source is asked for its chunks of all classes. -/
structure Asks (x : Exchange) (src : Middlebox) (out : List Effect) : Prop where
  gets : ∀ mb, getsIn (commandsTo mb out) = if mb = src then (x.classes : Multiset StateClass) else 0
  puts : ∀ mb, putsIn (commandsTo mb out) = 0
  toggles : ∀ mb, ∀ cmd ∈ commandsTo mb out, cmd.isToggle = false

theorem Calm.start (h : x.Calm) (hsrc : src ∈ x.instances) {out : List Effect}
    (hasks : x.Asks src out) :
    Round classOf src (.start x.classes) (({ x with
      counters := ShareOperation.roundCounters
      source := some src } : Exchange).emit out) := by
  have hnone : ∀ {β : Type} (f : Middlebox × Message → Option β), (∀ j msg, f (j, .state msg) = none) →
      x.talk.filterMap f = [] := by
    intro β f hf
    refine List.filterMap_eq_nil_iff.mpr fun z hz => ?_
    obtain ⟨msg, hmsg⟩ := h.talk z hz
    rw [← hf z.1 msg, ← hmsg]
  have hwire : ∀ mb, x.wire mb ++ commandsTo mb out = commandsTo mb out := by
    intro mb
    rw [h.wire, List.nil_append]
  constructor
  · rfl
  · exact hsrc
  · exact Scatter.conserved_start ..
  · exact fun a ha => absurd ha (Multiset.notMem_zero a)
  · intro mb
    exact (congrArg getsIn (hwire mb)).trans (hasks.gets mb)
  · intro mb cmd hcmd
    exact hasks.toggles mb cmd (hwire mb ▸ hcmd)
  · intro mb hmem
    obtain ⟨msg, hmsg⟩ := h.talk _ hmem
    cases hmsg
  · exact congrArg _ (hnone _ fun _ _ => rfl)
  · intro mb cls count hmem
    obtain ⟨msg, hmsg⟩ := h.talk _ hmem
    cases hmsg
  · intro cls
    simp [Scatter.start, emit, ShareOperation.roundCounters]
  · intro cls hcls
    exact absurd hcls (Multiset.notMem_zero cls)
  · intro mb
    exact (congrArg putsIn (hwire mb)).trans (hasks.puts mb)
  · intro mb
    refine congrArg _ (hnone _ fun j msg => ?_)
    simp [Message.putAckKey]
  · intro cls
    simp [Scatter.acks, Scatter.start, emit, ShareOperation.roundCounters]
  · intro hashkey
    refine (h.unacked hashkey).trans ?_
    simp [Scatter.acks, Scatter.start]
  · intro hn
    show statesIn x.talk = 0
    rw [(h.still hn).1]
    rfl
  · intro hn mb msg hmem
    have hmem : (mb, Message.state msg) ∈ x.talk := hmem
    rw [(h.still hn).1] at hmem
    cases hmem
  · intro hn
    have hpool : x.base.threadPool = [] := (h.still hn).2
    simp [waiting, emit, hpool, chunkTasks, Scatter.start]
  · intro hn ref href
    have href : Task.chunk ref ∈ x.base.threadPool := href
    rw [(h.still hn).2] at href
    cases href
  · intro mb hmb
    have hmb : mb ∈ x.instances := hmb
    show chunksFor mb x.heard = putsIn (x.sent mb ++ commandsTo mb out) + if mb = src then 0 else x.waiting
    rw [putsIn_append, hasks.puts, add_zero, h.puts mb hmb]
    by_cases hs' : mb = src
    · rw [if_pos hs', add_zero]
    · have hn : 2 ≤ x.instances.length := by
        by_contra hn
        exact hs' (eq_of_single hn hmb hsrc)
      have hwaiting : x.waiting = 0 := by
        rw [waiting, (h.still hn).2]
        rfl
      rw [if_neg hs', hwaiting, add_zero]

/-! ## Nothing is on the way -/

/-- Only a chunk that has nowhere to go can still be handled. -/
theorem Calm.single (h : x.Calm) {msg : Message} (ht : x.talk = before ++ (source, msg) :: behind) :
    ¬ 2 ≤ x.instances.length := by
  intro hn
  rw [(h.still hn).1] at ht
  simp at ht

theorem Calm.state (h : x.Calm) {msg : Message} (ht : x.talk = before ++ (source, msg) :: behind) :
    ∃ m, msg = .state m :=
  h.talk (source, msg) (ht ▸ by simp)

/-- A chunk that has nowhere to go changes the chunk objects at most. -/
theorem Calm.hear (h : x.Calm) (hs : x.Sound classOf) {msg : Message}
    (ht : x.talk = before ++ (source, msg) :: behind) {b : Operation}
    (hb : ∀ hashkey, ({ x with base := b } : Exchange).numAcked hashkey = x.numAcked hashkey) :
    Calm { x.hear source msg (before ++ behind) with base := b } := by
  have hn := h.single ht
  have hmem : (source, msg) ∈ x.talk := by
    rw [ht]
    simp
  refine ⟨h.wire, fun z hz => h.talk z (mem_of_split ht hz), fun hn' => absurd hn' hn, fun hashkey => ?_,
    fun j hj => ?_⟩
  · exact (hb hashkey).trans (h.unacked hashkey)
  · have hsource : source = j := eq_of_single hn (hs.talk _ hmem).1 hj
    show chunksFor j (x.heard ++ [(source, msg)]) = putsIn (x.sent j)
    rw [chunksFor_append, chunksFor_singleton, if_pos hsource, add_zero]
    exact h.puts j hj

theorem Calm.task (h : x.Calm) {i : Nat} {task : Task} (hi : x.base.threadPool[i]? = some task) :
    Calm { x with base := { x.base with threadPool := x.base.threadPool.eraseIdx i } } := by
  have hn : ¬ 2 ≤ x.instances.length := by
    intro hn
    rw [(h.still hn).2] at hi
    cases hi
  exact { h with still := fun hn' => absurd hn' hn }

/-! ## Filters are being enabled -/

theorem Enabling.read {c : Nat} (h : x.Enabling c) (hs : x.Sound classOf) {cmd : Command} {rest : List Command}
    (hw : x.wire mb = cmd :: rest) : (x.read mb rest [.eventsAck]).Enabling c := by
  have hmb : mb ∈ x.instances.toFinset :=
    List.mem_toFinset.mpr (hs.wire mb cmd (hw ▸ List.mem_cons_self ..)).1
  refine { h with
    wire := fun j cmd' hcmd' => h.wire j cmd' (mem_wire_of_left hw hcmd')
    talk := fun z hz => ?_
    count := ?_ }
  · rcases List.mem_append.mp hz with hz | hz
    · exact h.talk z hz
    · rw [List.mem_singleton.mp hz]
  · have hcount := h.count
    rw [← Finset.add_sum_erase _ _ hmb, hw, List.length_cons] at hcount
    show (∑ j ∈ x.instances.toFinset, (Function.update x.wire mb rest j).length) +
      (x.talk ++ [(mb, Message.eventsAck)]).length + c = x.instances.length
    have hrest : ∑ j ∈ x.instances.toFinset.erase mb, (Function.update x.wire mb rest j).length =
        ∑ j ∈ x.instances.toFinset.erase mb, (x.wire j).length := by
      refine Finset.sum_congr rfl fun j hj => ?_
      rw [Function.update_of_ne (Finset.ne_of_mem_erase hj)]
    rw [← Finset.add_sum_erase _ _ hmb, Function.update_self, hrest, List.length_append, List.length_singleton]
    omega

theorem Enabling.hear {c : Nat} (h : x.Enabling c) {msg : Message}
    (ht : x.talk = before ++ (source, msg) :: behind) :
    msg = .eventsAck ∧ (x.hear source msg (before ++ behind)).Enabling (c + 1) := by
  have hmsg : msg = .eventsAck := h.talk (source, msg) (ht ▸ by simp)
  refine ⟨hmsg, { h with talk := fun z hz => h.talk z (mem_of_split ht hz), count := ?_, puts := fun j hj => ?_ }⟩
  · have hcount := h.count
    rw [ht, List.length_append, List.length_cons] at hcount
    show (∑ mb ∈ x.instances.toFinset, (x.wire mb).length) + (before ++ behind).length + (c + 1) =
      x.instances.length
    rw [List.length_append]
    omega
  · show chunksFor j (x.heard ++ [(source, msg)]) = putsIn (x.sent j)
    rw [chunksFor_append, chunksFor_singleton, hmsg, h.puts j hj]
    simp [Message.stateContent]

/-- All instances have acked. -/
theorem Enabling.calm (h : x.Enabling x.instances.length) (hs : x.Sound classOf) : x.Calm := by
  have hcount := h.count
  have hsum : ∑ j ∈ x.instances.toFinset, (x.wire j).length = 0 := by omega
  have htalk : x.talk = [] := List.length_eq_zero_iff.mp (by omega)
  refine ⟨fun j => ?_, ?_, fun _ => ⟨htalk, h.pool⟩, h.unacked, h.puts⟩
  · by_cases hj : j ∈ x.instances
    · exact List.length_eq_zero_iff.mp (Finset.sum_eq_zero_iff.mp hsum j (List.mem_toFinset.mpr hj))
    · refine List.eq_nil_iff_forall_not_mem.mpr fun cmd hcmd => ?_
      exact hj (hs.wire j cmd hcmd).1
  · rw [htalk]
    exact List.forall_mem_nil _

end OFM.Controller.Exchange
