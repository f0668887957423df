import Mathlib.Tactic.Abel
import OFM.Controller.Sharer
import OFM.Controller.Lemmas.Syncing

/-!
# What the instances of a share hold

Nothing that is held or on its way is above the join of what the instances held at first; what an instance
has been given it holds, and what it has been asked for it has sent.
-/

namespace OFM.Controller
open OFM.Lib

/-! ## Handlers that pass no state on -/

namespace ShareOperation

/-- No chunk is stored or put, and the initial synchronisation does not begin again. -/
structure Mild (op : ShareOperation) (r : Emit Effect ShareOperation) : Prop where
  msg : ∀ ref, (r.val.stateChunks ref).msg = (op.stateChunks ref).msg
  puts : ∀ mb, putsTo mb r.out = 0
  finished : op.isSyncFinished = true → r.val.isSyncFinished = true

variable {op op' : ShareOperation} {r : Emit Effect ShareOperation}

theorem Mild.of_same (h : op'.Mild r) (hmsg : ∀ ref, (op'.stateChunks ref).msg = (op.stateChunks ref).msg)
    (hfin : op'.isSyncFinished = op.isSyncFinished) : op.Mild r :=
  ⟨fun ref => (h.msg ref).trans (hmsg ref), h.puts, fun hf => h.finished (hfin.trans hf)⟩

theorem mild_self (op : ShareOperation) : op.Mild ⟨op, []⟩ := ⟨fun _ => rfl, fun _ => rfl, id⟩

theorem mild_thrown (op : ShareOperation) (e : JavaException) : op.Mild ⟨op, [.thrown e]⟩ :=
  ⟨fun _ => rfl, fun _ => rfl, id⟩

theorem putsTo_eq_zero {out : List Effect} (h : ∀ mb putMsg, .send mb (.put putMsg) ∉ out) (mb : Middlebox) :
    putsTo mb out = 0 := by
  refine Multiset.eq_zero_of_forall_notMem fun c hc => ?_
  obtain ⟨cmd, hcmd, hput⟩ := List.mem_filterMap.mp hc
  cases cmd with
  | put putMsg => exact h mb putMsg (mem_commandsTo.mp hcmd)
  | _ => cases hput

theorem mild_syncFromInstance (op : ShareOperation) (inst : Middlebox) :
    op.Mild (op.syncFromInstance inst) := by
  refine ⟨fun _ => rfl, putsTo_eq_zero fun mb putMsg hput => ?_, id⟩
  obtain ⟨cmd, cls, he, hget, -⟩ := mem_gets hput
  cases he
  cases hget

variable [Charset]

theorem mild_dequeueEvent (op : ShareOperation) : op.Mild op.dequeueEvent := by
  rcases op.dequeueEvent_cases with ⟨-, he⟩ | ⟨packet, src, rest, -, ⟨-, he⟩ | ⟨sw, -, he⟩⟩ <;> rw [he]
  · exact ⟨fun _ => rfl, fun _ => rfl, id⟩
  · exact ⟨fun _ => rfl, fun _ => rfl, id⟩
  · exact ⟨fun _ => rfl, fun _ => rfl, id⟩

theorem mild_syncAllInstances (op : ShareOperation) : op.Mild op.syncAllInstances := by
  rcases op.syncAllInstances_cases with ⟨-, he⟩ | ⟨inst, -, he⟩ | ⟨-, he⟩ <;> rw [he]
  · have hnext := ({ op with isSyncFinished := true } : ShareOperation).mild_dequeueEvent
    exact ⟨hnext.msg, hnext.puts, fun _ => hnext.finished rfl⟩
  · exact ⟨fun _ => rfl, (op.mild_syncFromInstance inst).puts, id⟩
  · exact op.mild_thrown _

theorem mild_checkIfInstFinished (op : ShareOperation) : op.Mild op.checkIfInstFinished := by
  rcases op.checkIfInstFinished_cases with ⟨-, he⟩ | ⟨-, he⟩ <;> rw [he]
  · exact op.mild_self
  · exact op.flushed.mild_syncAllInstances.of_same (fun _ => rfl) rfl

variable [PacketUtil]

theorem mild_receiveReprocess (op : ShareOperation) (m : ReprocessMessage) (source : Middlebox) :
    op.Mild (op.receiveReprocess m source) := by
  rcases op.receiveReprocess_cases m source with ⟨e, -, he⟩ | ⟨pkt, -, ⟨-, he⟩ | ⟨-, -, op', rfl, he⟩ |
    ⟨-, -, op', rfl, he⟩⟩
  · rw [he]
    exact op.mild_thrown e
  · rw [he]
    exact ⟨fun _ => rfl, fun _ => rfl, id⟩
  · rcases he with ⟨e, -, he⟩ | ⟨fields, -, he⟩ <;> rw [he]
    · exact (mild_thrown _ e).of_same (fun _ => rfl) rfl
    · exact (mild_syncFromInstance _ source).of_same (fun _ => rfl) rfl
  · rcases he with ⟨-, he⟩ | ⟨-, he⟩ <;> rw [he]
    · exact ⟨fun _ => rfl, fun _ => rfl, id⟩
    · exact (mild_dequeueEvent _).of_same (fun _ => rfl) rfl

/-- Only a chunk that comes is stored or put. -/
theorem mild_receive {classOf : Int → StateClass} (hop : op.Sound classOf) (source : Middlebox) {msg : Message}
    (hmsg : msg.About classOf op.scope.classes) (hstate : msg.stateContent = none) :
    op.Mild (receive source msg op) := by
  cases msg with
  | state m => cases hstate
  | getAck cls count =>
      rw [show ShareOperation.receive source (.getAck cls count) op = _ from
        op.receiveGetAck_eq count (op.scope.ne_config hmsg)]
      exact (mild_checkIfInstFinished _).of_same (fun _ => rfl) rfl
  | putAck cls hashkey =>
      rw [show ShareOperation.receive source (.putAck cls hashkey) op = _ from
        op.receivePutAck_eq hashkey (op.scope.ne_config hmsg)]
      rcases receivePutAckOf_cases hop.bare cls hashkey with ⟨-, he⟩ | ⟨-, he⟩ <;> rw [he]
      · exact (mild_self _).of_same (Network.acked_countPutAck op cls hashkey).msg rfl
      · exact (mild_checkIfInstFinished _).of_same (Network.acked_ackChunk op cls hashkey).msg rfl
  | eventsAck =>
      rw [show ShareOperation.receive source .eventsAck op = op.receiveEventsAck from rfl,
        ShareOperation.receiveEventsAck]
      dsimp only
      split
      · exact (mild_syncAllInstances _).of_same (fun _ => rfl) rfl
      · exact ⟨fun _ => rfl, fun _ => rfl, id⟩
  | reprocess m => exact op.mild_receiveReprocess m source

omit [PacketUtil] [Charset] in
/-- What is stored or put then is that chunk. -/
theorem receiveState_state (op : ShareOperation) (m : StateMessage) :
    (∀ ref msg, ((op.receiveState m).val.stateChunks ref).msg = some msg →
      (op.stateChunks ref).msg = some msg ∨ msg = m) ∧
    (∀ mb, ∀ c ∈ putsTo mb (op.receiveState m).out, c = m.content) ∧
    (op.receiveState m).val.isSyncFinished = op.isSyncFinished := by
  unfold receiveState
  split
  · exact ⟨fun _ _ h => Or.inl h, fun mb c hc => absurd hc (Multiset.notMem_zero c), rfl⟩
  · rename_i putMsg hput
    split
    · refine ⟨fun ref msg h => ?_, fun mb c hc => absurd hc (Multiset.notMem_zero c), rfl⟩
      have h : ((op.submitState m).stateChunks ref).msg = some msg := h
      by_cases href : ref = op.obtainStateChunk m.hashkey
      · have hset : (op.submitState m).stateChunks ref =
            { op.stateChunks ref with msg := some m, dsts := op.instancesExcludingSource } := by
          rw [href]
          exact Function.update_self ..
        rw [hset] at h
        exact Or.inr (Option.some.inj h).symm
      · rw [show (op.submitState m).stateChunks ref = op.stateChunks ref from
          Function.update_of_ne href ..] at h
        exact Or.inl h
    · refine ⟨fun _ _ h => Or.inl h, fun mb c hc => ?_, rfl⟩
      obtain ⟨cmd, hcmd, hc⟩ := List.mem_filterMap.mp hc
      have hcmd : .send mb cmd ∈ op.putState putMsg := mem_commandsTo.mp hcmd
      unfold putState at hcmd
      split at hcmd
      · obtain ⟨inst, -, he⟩ := List.mem_map.mp hcmd
        cases he
        rw [← Option.some.inj hc]
        exact StateMessage.toPut_content hput
      · split at hcmd
        · cases hcmd
        · cases List.mem_singleton.mp hcmd

end ShareOperation

namespace Network

section

variable {ν ι V : Type} [SemilatticeSup V] [OrderBot V] [Joiner ν ι V]
  {n n' : Network ShareOperation ν} {a : Act ι} {nf : Middlebox → ν}

/-! ## Upper bound -/

/-- What is held, stored or on its way is below the join. -/
structure Bounded (nf : Middlebox → ν) (n : Network ShareOperation ν) : Prop where
  held : ∀ mb ∈ n.op.instances, ∀ hashkey,
    Joiner.held (n.nf mb) hashkey ≤ Joiner.joined n.op.instances nf hashkey
  wire : ∀ mb, ∀ c ∈ putsIn (n.wire mb), Joiner.value ν c ≤ Joiner.joined n.op.instances nf c.hashkey
  inFlight : ∀ mb m, (mb, .state m) ∈ n.inFlight →
    Joiner.value ν m.content ≤ Joiner.joined n.op.instances nf m.hashkey
  stored : ∀ ref m, (n.op.stateChunks ref).msg = some m →
    Joiner.value ν m.content ≤ Joiner.joined n.op.instances nf m.hashkey

theorem Bounded.record (h : n.Bounded nf) {r : Emit Effect ShareOperation}
    (hinst : r.val.instances = n.op.instances)
    (hputs : ∀ mb, ∀ c ∈ putsTo mb r.out, Joiner.value ν c ≤ Joiner.joined n.op.instances nf c.hashkey)
    (hstored : ∀ ref m, (r.val.stateChunks ref).msg = some m →
      Joiner.value ν m.content ≤ Joiner.joined n.op.instances nf m.hashkey) : (n.record r).Bounded nf := by
  have hop : (n.record r).op.instances = n.op.instances := hinst
  refine ⟨?_, ?_, ?_, ?_⟩ <;> rw [hop]
  · exact h.held
  · intro mb c hc
    have hc : c ∈ putsIn (n.wire mb ++ commandsTo mb r.out) := hc
    rw [putsIn_append, Multiset.mem_add] at hc
    rcases hc with hc | hc
    · exact h.wire mb c hc
    · exact hputs mb c hc
  · exact h.inFlight
  · exact hstored

/-- An instance has answered, and holds what it has been given besides. -/
theorem Bounded.answer (h : n.Bounded nf) {mb : Middlebox} {r : ν × List Message}
    (hheld : ∀ hashkey, Joiner.held r.1 hashkey ≤ Joiner.joined n.op.instances nf hashkey)
    (hstates : ∀ m, .state m ∈ r.2 → Joiner.value ν m.content ≤ Joiner.joined n.op.instances nf m.hashkey) :
    (n.answer mb r).Bounded nf where
  held j hj hashkey := by
    show Joiner.held (Function.update n.nf mb r.1 j) hashkey ≤ _
    by_cases hjm : j = mb
    · rw [hjm, Function.update_self]
      exact hheld hashkey
    · rw [Function.update_of_ne hjm]
      exact h.held j hj hashkey
  wire := h.wire
  inFlight j m hm := by
    rcases List.mem_append.mp hm with hm | hm
    · exact h.inFlight j m hm
    · obtain ⟨msg, hmsg, he⟩ := List.mem_map.mp hm
      cases he
      exact hstates m hmsg
  stored := h.stored

/-- The reports of a network function are no chunks. -/
theorem Bounded.reports (h : n.Bounded nf) {mb : Middlebox} (hmb : mb ∈ n.op.instances) {r : ν × List Message}
    (hheld : Joiner.held r.1 = Joiner.held (n.nf mb)) (hr : ∀ msg ∈ r.2, ∃ m, msg = .reprocess m) :
    (n.answer mb r).Bounded nf := by
  refine h.answer (fun hashkey => hheld ▸ h.held mb hmb hashkey) fun m hm => ?_
  obtain ⟨m', he⟩ := hr _ hm
  cases he

/-! ## Lower bound -/

/-- What an instance held it holds; what it has been put it has joined, and what it has been asked for it has
sent, unless the command is still to be read. -/
structure Grown (nf : Middlebox → ν) (n : Network ShareOperation ν) : Prop where
  held : ∀ mb hashkey, Joiner.held (nf mb) hashkey ≤ Joiner.held (n.nf mb) hashkey
  put : ∀ mb, ∀ c ∈ putsTo mb n.log,
    c ∈ putsIn (n.wire mb) ∨ Joiner.value ν c ≤ Joiner.held (n.nf mb) c.hashkey
  got : ∀ mb cmd hashkey, .send mb cmd ∈ n.log → cmd.getClass = some (Sharer.classOf ν hashkey) →
    Joiner.covers ν cmd hashkey → Joiner.held (nf mb) hashkey = ⊥ ∨ cmd ∈ n.wire mb ∨
      ∃ m, m.hashkey = hashkey ∧ Joiner.held (nf mb) hashkey ≤ Joiner.value ν m.content ∧
        (mb, .state m) ∈ n.inFlight ++ n.handled

theorem Grown.record (h : n.Grown nf) (r : Emit Effect ShareOperation) : (n.record r).Grown nf where
  held := h.held
  put mb c hc := by
    have hc : c ∈ putsIn (commandsTo mb (n.log ++ r.out)) := hc
    show c ∈ putsIn (n.wire mb ++ commandsTo mb r.out) ∨ _
    rw [commandsTo_append, putsIn_append, Multiset.mem_add] at hc
    rw [putsIn_append, Multiset.mem_add]
    rcases hc with hc | hc
    · exact (h.put mb c hc).imp_left Or.inl
    · exact Or.inl (Or.inr hc)
  got mb cmd hashkey hsend hget hcovers := by
    rcases List.mem_append.mp hsend with hsend | hsend
    · rcases h.got mb cmd hashkey hsend hget hcovers with hbot | hw | hsent
      · exact Or.inl hbot
      · exact Or.inr (Or.inl (List.mem_append_left _ hw))
      · exact Or.inr (Or.inr hsent)
    · exact Or.inr (Or.inl (List.mem_append_right _ (mem_commandsTo.mpr hsend)))

/-- A message changes sides when it is handled. -/
theorem Grown.note (h : n.Grown nf) {before behind : List (Middlebox × Message)} {source : Middlebox}
    {msg : Message} (hi : n.inFlight = before ++ (source, msg) :: behind) :
    (({ n with inFlight := before ++ behind } : Network ShareOperation ν).note source msg).Grown nf := by
  refine { h with got := fun mb cmd hashkey hsend hget hcovers => ?_ }
  rcases h.got mb cmd hashkey hsend hget hcovers with hbot | hw | ⟨m, hm, hle, hmem⟩
  · exact Or.inl hbot
  · exact Or.inr (Or.inl hw)
  · refine Or.inr (Or.inr ⟨m, hm, hle, ?_⟩)
    show _ ∈ before ++ behind ++ (n.handled ++ [(source, msg)])
    rw [hi] at hmem
    simp only [List.mem_append, List.mem_cons, List.not_mem_nil, or_false] at hmem ⊢
    tauto

/-- A network function that keeps what it holds answers. -/
theorem Grown.answer (h : n.Grown nf) {mb : Middlebox} {r : ν × List Message}
    (hheld : Joiner.held r.1 = Joiner.held (n.nf mb)) : (n.answer mb r).Grown nf := by
  have hsame : ∀ j, Joiner.held (Function.update n.nf mb r.1 j) = Joiner.held (n.nf j) := by
    intro j
    by_cases hj : j = mb
    · rw [hj, Function.update_self, hheld]
    · rw [Function.update_of_ne hj]
  refine ⟨fun j hashkey => ?_, fun j c hc => ?_, fun j cmd hashkey hsend hget hcovers => ?_⟩
  · show _ ≤ Joiner.held (Function.update n.nf mb r.1 j) hashkey
    rw [hsame]
    exact h.held j hashkey
  · show _ ∨ _ ≤ Joiner.held (Function.update n.nf mb r.1 j) c.hashkey
    rw [hsame]
    exact h.put j c hc
  · rcases h.got j cmd hashkey hsend hget hcovers with hbot | hw | ⟨m, hm, hle, hmem⟩
    · exact Or.inl hbot
    · exact Or.inr (Or.inl hw)
    · refine Or.inr (Or.inr ⟨m, hm, hle, ?_⟩)
      rcases List.mem_append.mp hmem with hmem | hmem
      · exact List.mem_append_left _ (List.mem_append_left _ hmem)
      · exact List.mem_append_right _ hmem

/-! ## Steps -/

variable [PacketUtil] [Charset]

theorem Bounded.step (h : n.Bounded nf) (hc : n.Confined) (hat : n.Undisturbed a)
    (hs : n.step a = some n') : n'.Bounded nf := by
  cases a with
  | read mb =>
      obtain ⟨cmd, rest, hw, rfl⟩ := step_read hs
      have hmb : mb ∈ n.op.instances := (hc.wire mb cmd (hw ▸ List.mem_cons_self ..)).1
      have hrest : ({ n with wire := Function.update n.wire mb rest } : Network ShareOperation ν).Bounded nf := by
        refine { h with wire := fun j c hcont => ?_ }
        have hcont : c ∈ putsIn (Function.update n.wire mb rest j) := hcont
        by_cases hj : j = mb
        · rw [hj, Function.update_self] at hcont
          refine h.wire mb c (hw ▸ ?_)
          obtain ⟨cmd', hcmd', hput⟩ := List.mem_filterMap.mp hcont
          exact List.mem_filterMap.mpr ⟨cmd', List.mem_cons_of_mem _ hcmd', hput⟩
        · rw [Function.update_of_ne hj] at hcont
          exact h.wire j c hcont
      refine hrest.answer (fun hashkey => ?_) fun m hm => ?_
      · show Joiner.held (NetworkFunction.command (n.nf mb) cmd).1 hashkey ≤ _
        cases hput : cmd.putContent with
        | none =>
            rw [Joiner.held_command _ _ hput]
            exact h.held mb hmb hashkey
        | some c =>
            rw [Joiner.held_put _ _ c hput]
            by_cases hk : hashkey = c.hashkey
            · rw [hk, Function.update_self]
              refine sup_le (h.held mb hmb c.hashkey) (h.wire mb c ?_)
              rw [hw, putsIn_cons_some hput]
              exact Multiset.mem_cons_self ..
            · rw [Function.update_of_ne hk]
              exact h.held mb hmb hashkey
      · have hm : .state m ∈ (NetworkFunction.command (n.nf mb) cmd).2 := hm
        have hchunk : m ∈ Sharer.chunks (n.nf mb) cmd := by
          rcases cmd.kind_cases with hk | hk | hk
          · obtain ⟨cls, hcls⟩ := Option.ne_none_iff_exists'.mp hk
            rw [Sharer.command_get _ _ cls hcls] at hm
            simpa using hm
          · obtain ⟨c, hput⟩ := Option.ne_none_iff_exists'.mp hk
            rw [Sharer.command_put _ _ c hput] at hm
            simp at hm
          · rw [Sharer.command_toggle _ _ hk] at hm
            simp at hm
        rw [Joiner.value_chunks _ _ m hchunk]
        exact h.held mb hmb m.hashkey
  | deliver sched i =>
      obtain ⟨source, msg, before, behind, hi, -, -, hcase⟩ := step_deliver hs
      have hmem : (source, msg) ∈ n.inFlight := hi ▸ by simp
      have hrest : ({ n with inFlight := before ++ behind } : Network ShareOperation ν).Bounded nf := by
        refine { h with inFlight := fun j m hm => h.inFlight j m ?_ }
        rw [hi]
        rcases List.mem_append.mp hm with hm | hm
        · exact List.mem_append_left _ hm
        · exact List.mem_append_right _ (List.mem_cons_of_mem _ hm)
      rcases hcase with ⟨-, rfl⟩ | ⟨-, rfl⟩
      · exact hrest
      · have habout := hc.inFlight (source, msg) hmem
        have hinst : (ShareOperation.receive source msg n.op).val.instances = n.op.instances :=
          congrArg (fun args => args.2.2.1) (hc.op.receive habout.1 habout.2).args
        cases hstate : msg.stateContent with
        | none =>
            have hmild := ShareOperation.mild_receive hc.op source habout.2 hstate
            refine { hrest.record (r := ShareOperation.receive source msg n.op) hinst (fun mb c hcont => ?_)
              fun ref m hm => h.stored ref m ((hmild.msg ref).symm.trans hm) with }
            rw [hmild.puts] at hcont
            exact absurd hcont (Multiset.notMem_zero c)
        | some c =>
            cases msg with
            | state m =>
                obtain ⟨hstored, hputs, -⟩ := n.op.receiveState_state m
                have hm := h.inFlight source m hmem
                refine { hrest.record (r := n.op.receiveState m) hinst (fun mb c hcont => ?_)
                  fun ref m' hm' => ?_ with }
                · rw [hputs mb c hcont]
                  exact hm
                · rcases hstored ref m' hm' with hm' | rfl
                  · exact h.stored ref m' hm'
                  · exact hm
            | _ => cases hstate
  | stimulus mb x =>
      obtain ⟨r, hr, rfl⟩ := step_stimulus hs
      exact h.reports hat.1 (hat.2 r hr) (Sharer.stimulus_reprocess _ x r hr)
  | forward i =>
      obtain ⟨mb, packet, hp, rfl⟩ := packet_of_forward hs
      have hmb : mb ∈ n.op.instances := hc.packets (mb, packet) (List.mem_of_getElem? hp)
      have hrest : ({ n with packets := n.packets.eraseIdx i } : Network ShareOperation ν).Bounded nf := { h with }
      exact hrest.reports hmb (hat mb packet hp) (Sharer.packet_reprocess _ packet)
  | packetIn packet inSwitch inPort =>
      cases step_packetIn hs
      exact h.record rfl (fun mb c hcont => absurd hcont (Multiset.notMem_zero c)) h.stored
  | task i =>
      obtain ⟨task, hi, rfl⟩ := step_task hs
      refine h.record rfl (fun mb c hcont => ?_) h.stored
      obtain ⟨ref, rfl⟩ := hc.op.pool task (List.mem_of_getElem? hi)
      obtain ⟨cmd, hcmd, hput⟩ := List.mem_filterMap.mp hcont
      obtain ⟨m, _, putMsg, _, hm, _, _, hcontent, he⟩ := call_puts (mem_commandsTo.mp hcmd)
      cases he
      rw [← Option.some.inj hput]
      show Joiner.value ν putMsg.content ≤ Joiner.joined _ nf putMsg.content.hashkey
      rw [hcontent]
      exact h.stored ref m hm

omit [PacketUtil] [Charset] in
/-- A command is read: a put is joined, a get is answered. -/
theorem Grown.read (h : n.Grown nf) {mb : Middlebox} {cmd : Command} {rest : List Command}
    (hw : n.wire mb = cmd :: rest) :
    (Network.answer { n with wire := Function.update n.wire mb rest } mb
      (NetworkFunction.command (n.nf mb) cmd)).Grown nf := by
  have hgrows : ∀ j hashkey, Joiner.held (n.nf j) hashkey ≤ Joiner.held
      (Function.update n.nf mb (NetworkFunction.command (n.nf mb) cmd).1 j) hashkey := by
    intro j hashkey
    by_cases hj : j = mb
    · rw [hj, Function.update_self]
      exact Joiner.held_le_command (n.nf mb) cmd hashkey
    · rw [Function.update_of_ne hj]
  refine ⟨fun j hashkey => ?_, fun j c hc => ?_, fun j cmd' hashkey hsend hget hcovers => ?_⟩
  · exact (h.held j hashkey).trans (hgrows j hashkey)
  · show c ∈ putsIn (Function.update n.wire mb rest j) ∨ Joiner.value ν c ≤ Joiner.held
      (Function.update n.nf mb (NetworkFunction.command (n.nf mb) cmd).1 j) c.hashkey
    rcases h.put j c hc with hwire | hle
    · by_cases hj : j = mb
      · subst hj
        rw [Function.update_self, Function.update_self]
        obtain ⟨cmd', hcmd', hput⟩ := List.mem_filterMap.mp hwire
        rw [hw] at hcmd'
        rcases List.mem_cons.mp hcmd' with rfl | hcmd'
        · right
          rw [Joiner.held_put _ _ c hput, Function.update_self]
          exact le_sup_right
        · exact Or.inl (List.mem_filterMap.mpr ⟨cmd', hcmd', hput⟩)
      · rw [Function.update_of_ne hj]
        exact Or.inl hwire
    · exact Or.inr (hle.trans (hgrows j c.hashkey))
  · show _ ∨ cmd' ∈ Function.update n.wire mb rest j ∨ ∃ m, m.hashkey = hashkey ∧ _ ∧ (j, .state m) ∈
      n.inFlight ++ (NetworkFunction.command (n.nf mb) cmd).2.map (fun msg => (mb, msg)) ++ n.handled
    rcases h.got j cmd' hashkey hsend hget hcovers with hbot | hwire | ⟨m, hm, hle, hmem⟩
    · exact Or.inl hbot
    · by_cases hj : j = mb
      · subst hj
        rw [Function.update_self]
        rw [hw] at hwire
        rcases List.mem_cons.mp hwire with rfl | hwire
        · -- What it holds now is what it sends, and that is no less than what it held at first.
          by_cases hbot : Joiner.held (n.nf j) hashkey = ⊥
          · exact Or.inl (le_bot_iff.mp (hbot ▸ h.held j hashkey))
          · obtain ⟨m, hm, hk⟩ := Joiner.chunks_covered _ _ hashkey hget hcovers hbot
            refine Or.inr (Or.inr ⟨m, hk, ?_, ?_⟩)
            · rw [Joiner.value_chunks _ _ m hm, hk]
              exact h.held j hashkey
            · rw [Sharer.command_get _ _ _ hget]
              simp [hm]
        · exact Or.inr (Or.inl hwire)
      · rw [Function.update_of_ne hj]
        exact Or.inr (Or.inl hwire)
    · refine Or.inr (Or.inr ⟨m, hm, hle, ?_⟩)
      rcases List.mem_append.mp hmem with hmem | hmem
      · exact List.mem_append_left _ (List.mem_append_left _ hmem)
      · exact List.mem_append_right _ hmem

theorem Grown.step (h : n.Grown nf) (hrun : n.op.failed = false) (hat : n.Undisturbed a)
    (hs : n.step a = some n') : n'.Grown nf := by
  cases a with
  | read mb =>
      obtain ⟨cmd, rest, hw, rfl⟩ := step_read hs
      exact h.read hw
  | deliver sched i =>
      obtain ⟨source, msg, before, behind, hi, -, -, ⟨hf, -⟩ | ⟨-, rfl⟩⟩ := step_deliver hs
      · have hf : n.op.failed = true := hf
        rw [hrun] at hf
        cases hf
      · exact (h.note hi).record _
  | stimulus mb x =>
      obtain ⟨r, hr, rfl⟩ := step_stimulus hs
      exact h.answer (hat.2 r hr)
  | forward i =>
      obtain ⟨mb, packet, hp, rfl⟩ := packet_of_forward hs
      have hrest : ({ n with packets := n.packets.eraseIdx i } : Network ShareOperation ν).Grown nf := { h with }
      exact hrest.answer (hat mb packet hp)
  | packetIn packet inSwitch inPort =>
      cases step_packetIn hs
      exact h.record _
  | task i =>
      obtain ⟨task, hi, rfl⟩ := step_task hs
      exact h.record _

end

/-! ## Acks -/

variable {ν ι : Type} [Sharer ν ι] [PacketUtil] [Charset] {n n' : Network ShareOperation ν} {a : Act ι}

/-- A put that has been sent is on its way, its ack is, or it has been acked. -/
def Tallied {ν : Type} (n : Network ShareOperation ν) : Prop := ∀ mb,
  (putsIn (n.wire mb)).map Content.ackKey + acksOf mb n.inFlight + acksOf mb n.handled =
    (putsTo mb n.log).map Content.ackKey

omit [PacketUtil] [Charset] in
theorem Tallied.record {ν : Type} {n : Network ShareOperation ν} (h : n.Tallied)
    (r : Emit Effect ShareOperation) : (n.record r).Tallied := by
  intro mb
  have hold : _ = (putsIn (commandsTo mb n.log)).map Content.ackKey := h mb
  show (putsIn (n.wire mb ++ commandsTo mb r.out)).map Content.ackKey + acksOf mb n.inFlight +
    acksOf mb n.handled = (putsIn (commandsTo mb (n.log ++ r.out))).map Content.ackKey
  rw [commandsTo_append, putsIn_append, putsIn_append, Multiset.map_add, Multiset.map_add, ← hold]
  abel

omit [PacketUtil] [Charset] in
theorem Tallied.answer {ν : Type} {n : Network ShareOperation ν} (h : n.Tallied) {mb : Middlebox}
    {r : ν × List Message} (hr : ∀ msg ∈ r.2, msg.putAckKey = none) : (n.answer mb r).Tallied := by
  intro j
  have hnone : acksOf j (r.2.map fun msg => (mb, msg)) = 0 := by
    refine (Multiset.coe_eq_zero _).mpr (List.filterMap_eq_nil_iff.mpr fun z hz => ?_)
    obtain ⟨msg, hmsg, rfl⟩ := List.mem_map.mp hz
    simp [hr msg hmsg]
  show (putsIn (n.wire j)).map Content.ackKey + acksOf j (n.inFlight ++ r.2.map fun msg => (mb, msg)) +
    acksOf j n.handled = _
  rw [acksOf_append, hnone, add_zero]
  exact h j

omit [PacketUtil] [Charset] in
theorem Tallied.note {ν : Type} {n : Network ShareOperation ν} (h : n.Tallied)
    {before behind : List (Middlebox × Message)} {source : Middlebox} {msg : Message}
    (hi : n.inFlight = before ++ (source, msg) :: behind) :
    (({ n with inFlight := before ++ behind } : Network ShareOperation ν).note source msg).Tallied := by
  intro mb
  have hold := h mb
  rw [hi, split_add (acksOf mb) (acksOf_append mb)] at hold
  show (putsIn (n.wire mb)).map Content.ackKey + acksOf mb (before ++ behind) +
    acksOf mb (n.handled ++ [(source, msg)]) = (putsTo mb n.log).map Content.ackKey
  rw [acksOf_append mb n.handled, ← hold]
  abel

omit [PacketUtil] [Charset] in
/-- A put that is read is acked, and nothing else is. -/
theorem Tallied.read (h : n.Tallied) {mb : Middlebox} {cmd : Command} {rest : List Command}
    (hw : n.wire mb = cmd :: rest) :
    (Network.answer { n with wire := Function.update n.wire mb rest } mb
      (NetworkFunction.command (n.nf mb) cmd)).Tallied := by
  have hacks : acksOf mb ((NetworkFunction.command (n.nf mb) cmd).2.map fun msg => (mb, msg)) +
      (putsIn rest).map Content.ackKey = (putsIn (cmd :: rest)).map Content.ackKey := by
    rcases cmd.kind_cases with hk | hk | hk
    · obtain ⟨cls, hcls⟩ := Option.ne_none_iff_exists'.mp hk
      rw [Sharer.command_get _ _ cls hcls, putsIn_cons_none (Command.of_get hk).1]
      exact (congrArg (· + _) (Exchange.acksOf_answerOf mb _ cls _ mb)).trans (zero_add _)
    · obtain ⟨c, hput⟩ := Option.ne_none_iff_exists'.mp hk
      rw [Sharer.command_put _ _ c hput, putsIn_cons_some hput, Multiset.map_cons]
      simp [acksOf_singleton, Message.putAckKey, Content.ackKey]
    · rw [Sharer.command_toggle _ _ hk, putsIn_cons_none (Command.of_toggle hk).1]
      simp [acksOf_singleton, Message.putAckKey]
  intro j
  have hold := h j
  show (putsIn (Function.update n.wire mb rest j)).map Content.ackKey +
    acksOf j (n.inFlight ++ (NetworkFunction.command (n.nf mb) cmd).2.map fun msg => (mb, msg)) +
    acksOf j n.handled = _
  by_cases hj : j = mb
  · subst hj
    rw [hw, ← hacks] at hold
    rw [Function.update_self, acksOf_append]
    refine Eq.trans ?_ hold
    abel
  · have hnone : acksOf j ((NetworkFunction.command (n.nf mb) cmd).2.map fun msg => (mb, msg)) = 0 := by
      refine (Multiset.coe_eq_zero _).mpr (List.filterMap_eq_nil_iff.mpr fun z hz => ?_)
      obtain ⟨msg, -, rfl⟩ := List.mem_map.mp hz
      exact if_neg (Ne.symm hj)
    rw [Function.update_of_ne hj, acksOf_append, hnone, add_zero]
    exact hold

theorem Tallied.step (h : n.Tallied) (hrun : n.op.failed = false) (hs : n.step a = some n') :
    n'.Tallied := by
  have hreport : ∀ {msgs : List Message}, (∀ msg ∈ msgs, ∃ m, msg = .reprocess m) →
      ∀ msg ∈ msgs, msg.putAckKey = none := by
    intro msgs hmsgs msg hmsg
    obtain ⟨m, rfl⟩ := hmsgs msg hmsg
    rfl
  cases a with
  | read mb =>
      obtain ⟨cmd, rest, hw, rfl⟩ := step_read hs
      exact h.read hw
  | deliver sched i =>
      obtain ⟨source, msg, before, behind, hi, -, -, ⟨hf, -⟩ | ⟨-, rfl⟩⟩ := step_deliver hs
      · have hf : n.op.failed = true := hf
        rw [hrun] at hf
        cases hf
      · exact (h.note hi).record _
  | stimulus mb x =>
      obtain ⟨r, hr, rfl⟩ := step_stimulus hs
      exact h.answer (hreport (Sharer.stimulus_reprocess _ x r hr))
  | forward i =>
      obtain ⟨mb, packet, before, behind, -, rfl⟩ := step_forward hs
      have hrest : ({ n with packets := before ++ behind } : Network ShareOperation ν).Tallied := h
      exact hrest.answer (hreport (Sharer.packet_reprocess _ packet))
  | packetIn packet inSwitch inPort =>
      cases step_packetIn hs
      exact h.record _
  | task i =>
      obtain ⟨task, hi, rfl⟩ := step_task hs
      exact h.record _

end Network

end OFM.Controller
