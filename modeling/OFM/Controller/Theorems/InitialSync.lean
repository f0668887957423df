import Mathlib.Order.Lattice.Nat
import OFM.Controller.Lemmas.Joins
import OFM.Controller.ReprocessEvent

/-!
# Initial synchronisation

An instance of a share is asked for its state only when all that has been put has been acked; and once the
synchronisation is over every instance holds, under every hashkey the share asks about, the join of what all
of them held at first.
-/

namespace OFM.Controller
open OFM.Lib

/-! ## Reading without events -/

section

variable {β : Type}

theorem filterMap_reportless {f : Middlebox × Message → Option β} (hf : ∀ mb m, f (mb, .reprocess m) = none)
    (msgs : List (Middlebox × Message)) : (reportless msgs).filterMap f = msgs.filterMap f := by
  rw [reportless, List.filterMap_filter]
  refine List.filterMap_congr fun z _ => ?_
  obtain ⟨mb, msg⟩ := z
  cases msg with
  | reprocess m => exact (hf mb m).symm
  | _ => rfl

theorem getAcksIn_reportless (msgs : List (Middlebox × Message)) :
    getAcksIn (reportless msgs) = getAcksIn msgs := by
  unfold getAcksIn
  rw [filterMap_reportless fun _ _ => rfl]

theorem chunksFor_reportless (mb : Middlebox) (msgs : List (Middlebox × Message)) :
    chunksFor mb (reportless msgs) = chunksFor mb msgs := by
  unfold chunksFor
  rw [filterMap_reportless fun _ _ => by simp [Message.stateContent]]

theorem acksOf_reportless (mb : Middlebox) (msgs : List (Middlebox × Message)) :
    acksOf mb (reportless msgs) = acksOf mb msgs := by
  unfold acksOf
  rw [filterMap_reportless fun _ _ => by simp [Message.putAckKey]]

theorem filterMap_states {f : Middlebox × Message → Option β} (hf : ∀ mb m, f (mb, .state m) = none)
    {msgs : List (Middlebox × Message)} (h : ∀ z ∈ msgs, ∃ m, z.2 = .state m) : msgs.filterMap f = [] := by
  refine List.filterMap_eq_nil_iff.mpr fun z hz => ?_
  obtain ⟨m, hm⟩ := h z hz
  rw [← hf z.1 m, ← hm]

end

namespace Network

/-! ## Where nothing is on the way -/

section

variable {ν ι : Type} [Sharer ν ι] {n : Network ShareOperation ν}

theorem settled (hc : n.Confined) (hidle : n.exchange.Idle) (htally : n.Tallied) : n.Settled := by
  have hacks : ∀ mb, acksOf mb n.inFlight = 0 := by
    intro mb
    rw [← acksOf_reportless]
    exact congrArg _ (filterMap_states (fun _ _ => by simp [Message.putAckKey]) hidle.talk)
  refine ⟨?_, fun mb hmb => ?_, fun mb hmb => ?_, fun mb hmb => ?_⟩
  · rw [← getAcksIn_reportless]
    exact congrArg _ (filterMap_states (fun _ _ => rfl) hidle.talk)
  · by_cases hn : 2 ≤ n.op.instances.length
    · rw [← chunksFor_reportless, show reportless n.inFlight = [] from hidle.still hn]
      rfl
    · refine (Multiset.coe_eq_zero _).mpr (List.filterMap_eq_nil_iff.mpr fun z hz => ?_)
      exact if_pos (Exchange.eq_of_single hn (hc.inFlight z hz).1 hmb)
  · rw [← chunksFor_reportless]
    exact (hidle.puts mb hmb).symm
  · have hold := htally mb
    rw [hacks, add_zero, show putsIn (n.wire mb) = 0 from hidle.wire mb, Multiset.map_zero, zero_add] at hold
    exact hold

end

variable {ν ι V : Type} [SemilatticeSup V] [OrderBot V] [Joiner ν ι V]
  {n n' : Network ShareOperation ν} {a : Act ι} {nf : Middlebox → ν} {op : ShareOperation}

/-- At the end each instance has been given what all others held. -/
theorem Grown.joined_le (h : n.Grown nf) (hcalm : n.exchange.Calm)
    (hsent : ∀ inst ∈ n.op.instances, ∀ e ∈ op.gets inst, e ∈ n.log) (hinst : op.instances = n.op.instances)
    {hashkey : Int} (hasked : Joiner.Asked ν op hashkey) {mb : Middlebox} (hmb : mb ∈ n.op.instances) :
    Joiner.joined n.op.instances nf hashkey ≤ Joiner.held (n.nf mb) hashkey := by
  refine Finset.sup_le fun src hsrc => ?_
  have hsrc := List.mem_toFinset.mp hsrc
  by_cases hne : src = mb
  · rw [hne]
    exact h.held mb hashkey
  have hn : 2 ≤ n.op.instances.length := by
    by_contra hn
    exact hne (Exchange.eq_of_single hn hsrc hmb)
  obtain ⟨cmd, hcmd, hget, hcovers⟩ := hasked src (hinst ▸ hsrc)
  rcases h.got src cmd hashkey (hsent src hsrc _ hcmd) hget hcovers with hbot | hwire | ⟨m, hm, hle, hmem⟩
  · rw [hbot]
    exact bot_le
  · rw [show n.wire src = [] from hcalm.wire src] at hwire
    cases hwire
  · have hhandled : (src, .state m) ∈ n.handled := by
      refine (List.mem_append.mp hmem).resolve_left fun hflight => ?_
      have htalk : (src, Message.state m) ∈ reportless n.inFlight := List.mem_filter.mpr ⟨hflight, rfl⟩
      rw [show reportless n.inFlight = [] from (hcalm.still hn).1] at htalk
      cases htalk
    have hchunk : m.content ∈ chunksFor mb n.handled :=
      List.mem_filterMap.mpr ⟨_, hhandled, if_neg hne⟩
    have hput : m.content ∈ putsTo mb n.log := by
      rw [← chunksFor_reportless, show chunksFor mb (reportless n.handled) = _ from hcalm.puts mb hmb] at hchunk
      exact hchunk
    have hread : m.content ∉ putsIn (n.wire mb) := by
      rw [show n.wire mb = [] from hcalm.wire mb]
      exact Multiset.notMem_zero _
    exact hm ▸ hle.trans ((h.put mb _ hput).resolve_left hread)

/-! ## Runs -/

variable [PacketUtil] [Charset]

/-- What an instance holds only grows where it processes no packets. -/
theorem held_step (hat : n.Undisturbed a) (hs : n.step a = some n') (mb : Middlebox) (hashkey : Int) :
    Joiner.held (n.nf mb) hashkey ≤ Joiner.held (n'.nf mb) hashkey := by
  have hupdate : ∀ (j : Middlebox) (v : ν), (∀ k, Joiner.held (n.nf j) k ≤ Joiner.held v k) →
      Joiner.held (n.nf mb) hashkey ≤ Joiner.held (Function.update n.nf j v mb) hashkey := by
    intro j v hv
    by_cases hj : mb = j
    · rw [hj, Function.update_self]
      exact hv hashkey
    · rw [Function.update_of_ne hj]
  cases a with
  | read j =>
      obtain ⟨cmd, rest, -, rfl⟩ := step_read hs
      exact hupdate j _ (Joiner.held_le_command (n.nf j) cmd)
  | deliver sched i =>
      obtain ⟨source, msg, before, behind, -, -, -, ⟨-, rfl⟩ | ⟨-, rfl⟩⟩ := step_deliver hs
      · exact le_rfl
      · exact le_rfl
  | stimulus j x =>
      obtain ⟨r, hr, rfl⟩ := step_stimulus hs
      exact hupdate j r.1 fun k => (hat.2 r hr) ▸ le_rfl
  | forward i =>
      obtain ⟨j, packet, hp, rfl⟩ := packet_of_forward hs
      exact hupdate j _ fun k => (hat j packet hp) ▸ le_rfl
  | packetIn packet inSwitch inPort =>
      cases step_packetIn hs
      exact le_rfl
  | task i =>
      obtain ⟨task, -, rfl⟩ := step_task hs
      exact le_rfl

/-- The initial synchronisation takes place once. -/
theorem finished_step (hc : n.Confined) (hfin : n.op.isSyncFinished = true) (hs : n.step a = some n') :
    n'.op.isSyncFinished = true := by
  cases a with
  | read j =>
      obtain ⟨cmd, rest, -, rfl⟩ := step_read hs
      exact hfin
  | deliver sched i =>
      obtain ⟨source, msg, before, behind, hi, -, -, ⟨-, rfl⟩ | ⟨-, rfl⟩⟩ := step_deliver hs
      · exact hfin
      · have habout := (hc.inFlight (source, msg) (hi ▸ by simp)).2
        cases hstate : msg.stateContent with
        | none => exact (ShareOperation.mild_receive hc.op source habout hstate).finished hfin
        | some c =>
            cases msg with
            | state m => exact (n.op.receiveState_state m).2.2.trans hfin
            | _ => cases hstate
  | stimulus j x =>
      obtain ⟨r, -, rfl⟩ := step_stimulus hs
      exact hfin
  | forward i =>
      obtain ⟨j, packet, -, rfl⟩ := packet_of_forward hs
      exact hfin
  | packetIn packet inSwitch inPort =>
      cases step_packetIn hs
      exact hfin
  | task i =>
      obtain ⟨task, -, rfl⟩ := step_task hs
      exact hfin

omit [Charset] in
theorem Undisturbed.atInstances (h : n.Undisturbed a) : n.AtInstances a := by
  cases a with
  | stimulus mb x => exact h.1
  | _ => trivial

/-- Where the synchronisation of an operation stands. -/
inductive Stands (op : ShareOperation) (nf : Middlebox → ν) (n : Network ShareOperation ν) : Prop
  | syncing (h : n.Syncing op.key) (hgrown : n.Grown nf) (htally : n.Tallied)
  | synced (hfin : n.op.isSyncFinished = true)
      (hheld : ∀ mb ∈ n.op.instances, ∀ hashkey, Joiner.Asked ν op hashkey →
        Joiner.joined n.op.instances nf hashkey ≤ Joiner.held (n.nf mb) hashkey)

structure Kept (op : ShareOperation) (nf : Middlebox → ν) (n : Network ShareOperation ν) : Prop where
  confined : n.Confined
  args : n.op.args = op.args
  bounded : n.Bounded nf
  stands : n.Stands op nf

theorem Kept.step (h : n.Kept op nf) (hat : n.Undisturbed a) (hs : n.step a = some n') : n'.Kept op nf := by
  obtain ⟨hc, hargs⟩ := h.confined.step hat.atInstances hs
  have hinst : n'.op.instances = n.op.instances := congrArg (fun args => args.2.2.1) hargs
  refine ⟨hc, hargs.trans h.args, h.bounded.step h.confined hat hs, ?_⟩
  cases h.stands with
  | syncing hsyncing hgrown htally =>
      have hgrown' := hgrown.step hsyncing.running hat hs
      have htally' := htally.step hsyncing.running hs
      cases hsyncing.step hat.atInstances hs with
      | goes hnext _ => exact .syncing hnext hgrown' htally'
      | asks hnext _ => exact .syncing hnext hgrown' htally'
      | ends hfin hcalm hsent =>
          refine .synced hfin fun mb hmb hashkey hasked =>
            @Grown.joined_le _ _ _ _ _ _ _ _ op hgrown' hcalm ?_ ?_ hashkey hasked mb hmb
          · intro inst hmem e he
            rw [gets_eq h.args.symm hsyncing.key.symm] at he
            exact hsent inst hmem e he
          · exact (congrArg (fun args => args.2.2.1) (hargs.trans h.args)).symm
  | synced hfin hheld =>
      refine .synced (finished_step h.confined hfin hs) fun mb hmb hashkey hasked => ?_
      rw [hinst] at hmb ⊢
      exact (hheld mb hmb hashkey hasked).trans (held_step hat hs mb hashkey)

section Start

variable (consistency : Consistency) (id : Int) {instances : List Middlebox} (key : PerflowKey) (scope : Scope)

omit [PacketUtil] [Charset] in
theorem wire_enableEvents (hnodup : instances.Nodup) (mb : Middlebox) :
    commandsTo mb (ShareOperation.new consistency id instances key scope).enableEvents =
      if mb ∈ instances then [.enableEvents id key .drop] else [] :=
  Exchange.commandsTo_map hnodup _ mb

omit [PacketUtil] [Charset] in
theorem putsTo_enableEvents (hnodup : instances.Nodup) (mb : Middlebox) :
    putsTo mb (ShareOperation.new consistency id instances key scope).enableEvents = 0 := by
  rw [putsTo, wire_enableEvents _ _ _ _ hnodup]
  split <;> rfl

theorem enabling_start (hnodup : instances.Nodup) (nf : Middlebox → ν) :
    (start (ShareOperation.new consistency id instances key scope) nf).exchange.Enabling 0 := by
  have hwire := wire_enableEvents consistency id key scope hnodup
  refine ⟨fun mb cmd hcmd => ?_, fun z hz => absurd hz List.not_mem_nil, rfl, ?_, fun _ => rfl, fun mb _ => ?_⟩
  · have hcmd : cmd ∈ commandsTo mb (ShareOperation.new consistency id instances key scope).enableEvents := hcmd
    rw [hwire] at hcmd
    split at hcmd
    · rw [List.mem_singleton.mp hcmd]
      rfl
    · cases hcmd
  · show (∑ mb ∈ instances.toFinset, (commandsTo mb
      (ShareOperation.new consistency id instances key scope).enableEvents).length) + 0 + 0 = instances.length
    have hone : ∀ mb ∈ instances.toFinset, (commandsTo mb
        (ShareOperation.new consistency id instances key scope).enableEvents).length = 1 := by
      intro mb hmb
      rw [hwire, if_pos (List.mem_toFinset.mp hmb)]
      rfl
    rw [Finset.sum_congr rfl hone, ← Finset.card_eq_sum_ones, List.toFinset_card_of_nodup hnodup]
    rfl
  · exact (putsTo_enableEvents consistency id key scope hnodup mb).symm

theorem kept_start (hnodup : instances.Nodup) (nf : Middlebox → ν) :
    (start (ShareOperation.new consistency id instances key scope) nf).Kept
      (ShareOperation.new consistency id instances key scope) nf := by
  have hputs := putsTo_enableEvents consistency id key scope hnodup
  have hconfined : (start (ShareOperation.new consistency id instances key scope) nf).Confined :=
    confined_start (ShareOperation.sound_new ..) hnodup nf
  refine ⟨hconfined, rfl, ⟨?_, ?_, ?_, ?_⟩,
    .syncing ⟨hconfined, rfl, rfl, rfl, Nat.zero_le _, ?_, ?_⟩ ⟨?_, ?_, ?_⟩ ?_⟩
  · intro mb hmb hashkey
    exact Finset.le_sup (f := fun mb => Joiner.held (nf mb) hashkey) (List.mem_toFinset.mpr hmb)
  · intro mb c hc
    have hc : c ∈ putsTo mb (ShareOperation.new consistency id instances key scope).enableEvents := hc
    rw [hputs] at hc
    exact absurd hc (Multiset.notMem_zero c)
  · intro mb m hm
    cases hm
  · intro ref m hm
    cases hm
  · exact .enabling rfl (enabling_start consistency id key scope hnodup nf)
  · intro inst hinst
    cases hinst
  · exact fun _ _ => le_rfl
  · intro mb c hc
    have hc : c ∈ putsTo mb (ShareOperation.new consistency id instances key scope).enableEvents := hc
    rw [hputs] at hc
    exact absurd hc (Multiset.notMem_zero c)
  · intro mb cmd hashkey hsend hget
    obtain ⟨inst, -, he⟩ := mem_enableEvents hsend
    cases he
    cases hget
  · intro mb
    show (putsTo mb (ShareOperation.new consistency id instances key scope).enableEvents).map _ + 0 + 0 = _
    rw [add_zero, add_zero]
    rfl

/-- A get goes out when all that has been put has been acked by all others, and when the synchronisation is
over each instance holds the join of what all held. -/
theorem initially_synchronised (hnodup : instances.Nodup) (nf : Middlebox → ν) {as : List (Act ι)}
    (hok : Machine.Along step Undisturbed
      (start (ShareOperation.new consistency id instances key scope) nf) as)
    (hr : Machine.run step (start (ShareOperation.new consistency id instances key scope) nf) as = some n) :
    (n.op.isSyncFinished = false → ∀ a n', n.Undisturbed a → n.step a = some n' →
      (∃ mb, getsIn (commandsTo mb n'.log) ≠ getsIn (commandsTo mb n.log)) → n'.Settled) ∧
    (n.op.isSyncFinished = true → ∀ mb ∈ instances, ∀ hashkey,
      Joiner.Asked ν (ShareOperation.new consistency id instances key scope) hashkey →
        Joiner.held (n.nf mb) hashkey = Joiner.joined instances nf hashkey) := by
  have hkept : n.Kept (ShareOperation.new consistency id instances key scope) nf :=
    Machine.run_invariant (kept_start consistency id key scope hnodup nf)
      (fun _ _ _ h hat hs => h.step hat hs) hok hr
  have hinst : n.op.instances = instances := congrArg (fun args => args.2.2.1) hkept.args
  constructor
  · intro hfin a n' hat hs ⟨mb, hgets⟩
    cases hkept.stands with
    | synced hfin' _ =>
        rw [hfin] at hfin'
        cases hfin'
    | syncing hsyncing _ htally =>
        have hc := (hkept.confined.step hat.atInstances hs).1
        have htally' := htally.step hsyncing.running hs
        cases hsyncing.step hat.atInstances hs with
        | goes _ hsame => exact absurd (hsame mb) hgets
        | asks _ hidle => exact settled hc hidle htally'
        | ends _ hcalm _ => exact settled hc hcalm.idle htally'
  · intro hfin mb hmb hashkey hasked
    cases hkept.stands with
    | syncing hsyncing _ _ =>
        rw [hsyncing.unfinished] at hfin
        cases hfin
    | synced _ hheld =>
        have hle := hkept.bounded.held mb (hinst ▸ hmb) hashkey
        have hge := hheld mb (hinst ▸ hmb) hashkey hasked
        rw [hinst] at hle hge
        exact le_antisymm hle hge

end Start

end Network

/-! ## Two instances that count -/

/-- What a counter has been given, each with the hashkey it was given under; the largest number counts. -/
abbrev Counter := List (Int × Nat)

namespace Counter

def largest : Counter → Int → Nat
  | [], _ => 0
  | (key, x) :: rest, hashkey => if key = hashkey then max (largest rest hashkey) x else largest rest hashkey

/-- A number is serialised in unary. -/
def serialise (v : Counter) (hashkey : Int) : StateMessage :=
  .perflow 1 0 none hashkey (List.replicate (v.largest hashkey) 0)

def answers (v : Counter) (cmd : Command) : List StateMessage :=
  if cmd.getClass = some .perflow then (v.map Prod.fst).dedup.map v.serialise else []

def run (v : Counter) (cmd : Command) : Counter × List Message :=
  match cmd.putContent, cmd.getClass with
  | some c, _ => ((c.hashkey, c.state.length) :: v, [.putAck c.cls c.hashkey])
  | none, some cls => (v, (v.answers cmd).map .state ++ [.getAck cls (v.answers cmd).length])
  | none, none => (v, [.eventsAck])

theorem mem_of_largest {v : Counter} {hashkey : Int} (h : v.largest hashkey ≠ 0) :
    hashkey ∈ v.map Prod.fst := by
  induction v with
  | nil => exact absurd rfl h
  | cons entry v ih =>
      obtain ⟨key, x⟩ := entry
      by_cases hk : key = hashkey
      · simp [hk]
      · rw [largest, if_neg hk] at h
        exact List.mem_cons_of_mem _ (ih h)

instance : Joiner Counter Unit Nat where
  command := run
  stimulus _ _ := none
  packet v _ := (v, [])
  classOf _ := .perflow
  chunks := answers
  chunks_cls v cmd cls hget msg hmsg := by
    unfold answers at hmsg
    split at hmsg
    · rename_i hpf
      obtain ⟨hashkey, -, rfl⟩ := List.mem_map.mp hmsg
      cases hget.symm.trans hpf
      exact ⟨rfl, rfl⟩
    · cases hmsg
  chunks_nodup v cmd := by
    unfold answers
    split
    · rw [List.map_map]
      exact (List.map_id _).symm ▸ (v.map Prod.fst).nodup_dedup
    · exact List.nodup_nil
  command_get v cmd cls hget := by
    have hput := (Command.of_get (hget ▸ Option.some_ne_none cls)).1
    simp only [run, hput, hget]
  command_put v cmd c hput := by simp only [run, hput]
  command_toggle v cmd htoggle := by
    obtain ⟨hput, hget⟩ := Command.of_toggle htoggle
    simp only [run, hput, hget]
  stimulus_reprocess _ _ _ h := by cases h
  packet_reprocess _ _ _ h := by cases h
  held := largest
  value c := c.state.length
  covers _ _ := True
  held_command v cmd hput := by
    cases hget : cmd.getClass with
    | none => simp only [run, hput, hget]
    | some cls => simp only [run, hput, hget]
  held_put v cmd c hput := by
    funext hashkey
    simp only [run, hput, largest]
    by_cases hk : hashkey = c.hashkey
    · rw [if_pos hk.symm, hk, Function.update_self]
    · rw [if_neg (Ne.symm hk), Function.update_of_ne hk]
  value_chunks v cmd msg hmsg := by
    unfold answers at hmsg
    split at hmsg
    · obtain ⟨hashkey, -, rfl⟩ := List.mem_map.mp hmsg
      exact List.length_replicate
    · cases hmsg
  chunks_covered v cmd hashkey hget _ hheld := by
    refine ⟨v.serialise hashkey, ?_, rfl⟩
    unfold answers
    rw [if_pos hget]
    exact List.mem_map.mpr ⟨hashkey, List.mem_dedup.mpr (mem_of_largest hheld), rfl⟩

end Counter

section Sample

def firstCounter : Middlebox := ⟨[], 1, none, 0⟩
def secondCounter : Middlebox := ⟨[], 2, none, 0⟩

/-- The first instance has counted to two and the second one to three, under the same hashkey. -/
def countedBefore (mb : Middlebox) : Counter := if mb = firstCounter then [(7, 2)] else [(7, 3)]

/-- Both rounds of a strict share, from the acks of the filters on. -/
def bothRounds : List (Act Unit) :=
  [.read firstCounter, .read secondCounter, .deliver .inOrder 0, .deliver .inOrder 0,
    .read firstCounter, .deliver .inOrder 0, .deliver .inOrder 0, .read secondCounter, .deliver .inOrder 0,
    .read secondCounter, .deliver .inOrder 0, .deliver .inOrder 0, .read firstCounter, .deliver .inOrder 0]

theorem initially_synchronised_counters :
    letI := plainFrames
    letI := latin1
    ∃ n, Machine.run Network.step (Network.start
        (ShareStrictOperation.new 1 [firstCounter, secondCounter] PerflowKey.new .perflow) countedBefore)
        bothRounds = some n ∧ n.op.isSyncFinished = true ∧
      ∀ mb ∈ [firstCounter, secondCounter], Joiner.held (n.nf mb) 7 = 3 := by
  let _ := plainFrames
  let _ := latin1
  have hok : Machine.Along Network.step Network.Undisturbed (Network.start
      (ShareOperation.new .strict 1 [firstCounter, secondCounter] PerflowKey.new .perflow) countedBefore)
      bothRounds := by
    have hquiet : ∀ a ∈ bothRounds, ∀ t : Network ShareOperation Counter, t.Undisturbed a := by
      simp [bothRounds, Network.Undisturbed]
    intro pre a suf t he _
    exact hquiet a (he ▸ by simp) t
  have hrun : (Machine.run Network.step (Network.start
      (ShareOperation.new .strict 1 [firstCounter, secondCounter] PerflowKey.new .perflow) countedBefore)
      bothRounds).map (fun n => n.op.isSyncFinished) = some true := by decide
  obtain ⟨n, hn, hfin⟩ := Option.map_eq_some_iff.mp hrun
  refine ⟨n, hn, hfin, fun mb hmb => ?_⟩
  have hsync := Network.initially_synchronised .strict 1 PerflowKey.new .perflow (by decide) countedBefore hok hn
  refine (hsync.2 hfin mb hmb 7 ?_).trans (by decide)
  intro inst hinst
  exact ⟨.getPerflow 1 PerflowKey.new true, by
    simp [ShareOperation.gets, ShareOperation.new, Operation.new, Scope.classes], rfl,
    trivial⟩

end Sample

end OFM.Controller
