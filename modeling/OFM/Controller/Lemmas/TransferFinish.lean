import OFM.Controller.Lemmas.TransferRun

/-!
# The end of a transfer

When an operation finishes, over all runs of a network of its transfer.
-/

namespace OFM.Controller
open OFM.Lib TransferOperation

variable {σ : Type} [PacketUtil] [TransferOperation σ]

namespace Network

variable {H : StateClass → List StateMessage} {n n' : Network σ Holder} {op : σ}
  {nf : Middlebox → Holder} {as : List (Act ReprocessMessage)}

/-! ## The start -/

theorem puts_execute (op : σ) : puts (Handlers.execute op).out = 0 :=
  puts_eq_zero fun mb cmd hm => (execute_send op mb cmd hm).2.1

theorem routed_start (hop : Fresh op) (hnf : ∀ mb, (nf mb).raises = false) :
    Routed (nf (transfer op).src).held (start op nf) where
  valid := hop.valid
  held := rfl
  put_at mb cmd hm h := absurd (execute_send op mb cmd (mem_commandsTo.mp hm)).2.1 h
  get_at mb cmd hm _ := (execute_send op mb cmd (mem_commandsTo.mp hm)).1
  toggle_at mb cmd hm h :=
    have hsend := execute_send op mb cmd (mem_commandsTo.mp hm)
    Or.inl ⟨hsend.1, hsend.2.2 h⟩
  ack_from _ hm := absurd hm List.not_mem_nil
  count_eq _ _ _ hm := absurd hm List.not_mem_nil
  raises _ mb _ := hnf mb
  reprocess_from _ _ _ hm := absurd hm List.not_mem_nil

theorem asking_start (hop : Fresh op) : asking (transfer op).classes
    (commandsTo (transfer op).src (Handlers.execute op).out) 0 = (transfer op).classes := by
  have htoggles := execute_toggles op
  have hgets := fun cls => execute_gets op cls hop.valid
  cases ha : (transfer op).asksFirst with
  | false =>
      rw [ha, if_neg Bool.false_ne_true] at htoggles
      refine asking_eq_classes (classes_nodup op) htoggles fun cls => ?_
      rw [hgets cls]
      simp [ha]
  | true =>
      rw [ha, if_pos rfl] at htoggles
      have hnone : (commandsTo (transfer op).src (Handlers.execute op).out).filterMap
          Command.getClass = [] := by
        refine List.filterMap_eq_nil_iff.mpr fun cmd hm => ?_
        by_contra hget
        obtain ⟨cls, hcls⟩ := Option.ne_none_iff_exists'.mp hget
        have hzero := hgets cls
        rw [ha, if_neg (by simp), List.countP_eq_zero] at hzero
        exact hzero cmd hm (by simp [hcls])
      rw [asking, htoggles, hnone]
      exact (add_zero _).trans (one_nsmul _)

theorem conserved_start (hop : Fresh op) :
    Flow.Conserved (contentsOf H) (start op nf : Network σ Holder).flow := by
  have hput : (start op nf : Network σ Holder).flow.put = 0 := puts_execute op
  have hcounters : (start op nf : Network σ Holder).flow.transfer.counters = Counters.new :=
    hop.counters
  have hasking : (start op nf : Network σ Holder).flow.asking = (transfer op).classes :=
    asking_start hop
  have hlist : (start op nf : Network σ Holder).flow.transfer.list = [] := hop.list
  have hpool : (start op nf : Network σ Holder).flow.transfer.pool = [] := hop.pool
  refine ⟨classes_nodup op, ?_, ?_, ?_, fun cls => ?_, fun cls hc => ?_, fun cls => ?_,
    fun x hx => ?_, fun ref hm => ?_, ?_, fun _ _ => ⟨hput, hpool⟩, fun _ => hlist⟩
  · rw [hasking]
    show ((transfer op).classes : Multiset StateClass) + 0 + 0 = _
    rw [add_zero, add_zero]
    rfl
  · rw [hasking]
    show (0 : Multiset Content) + 0 + _ = _
    rw [zero_add, zero_add]
    rfl
  · rw [hput]
    show (putsIn (commandsTo _ (Handlers.execute op).out)).map Content.ackKey + 0 + 0 = 0
    have hzero : putsIn (commandsTo (transfer op).dst (Handlers.execute op).out) = 0 := by
      rw [putsIn_commandsTo, puts_execute]
      · rfl
      · rw [puts_execute]
        exact fun x hx => absurd hx (Multiset.notMem_zero x)
    rw [show (transfer (start op nf : Network σ Holder).op).dst = (transfer op).dst from rfl, hzero]
    rfl
  · rw [hcounters]
    simp only [Counters.new_getAcked, Bool.false_eq_true, false_iff]
    exact Multiset.notMem_zero cls
  · exact absurd hc (Multiset.notMem_zero cls)
  · rw [hcounters]
    rfl
  · rw [hput] at hx
    exact absurd hx (Multiset.notMem_zero x)
  · rw [hpool, hlist] at hm
    exact absurd hm List.not_mem_nil
  · rw [hput, Transfer.owed, hpool, hlist, ite_self]
    exact Multiset.zero_le _

/-- What holds in every state of every run from a fresh operation. -/
theorem sound_run (hop : Fresh op) (hnf : ∀ mb, (nf mb).raises = false)
    (hne : (transfer op).ordered = true → (transfer op).src ≠ (transfer op).dst)
    (hr : Machine.run step (start op nf) as = some n) :
    Sound (nf (transfer op).src).held n ∧ (transfer op).SameArgs (transfer n.op) := by
  refine Machine.run_invariant' (I := fun n : Network σ Holder =>
    Sound (nf (transfer op).src).held n ∧ (transfer op).SameArgs (transfer n.op)) ?_ ?_ hr
  · exact ⟨⟨routed_start hop hnf, conserved_start hop,
      fun h => absurd h (by simp [start, Session.start, hop.failed])⟩, .refl _⟩
  · rintro t a t' ⟨ht, hargs⟩ hs
    have hne' : (transfer t.op).ordered = true → (transfer t.op).src ≠ (transfer t.op).dst := by
      rw [hargs.ordered, hargs.src, hargs.dst]
      exact hne
    obtain ⟨ht', hargs', -⟩ := ht.step (contentsOf_classed _) hne' hs
    exact ⟨ht', hargs.trans hargs'⟩

/-! ## Finishing -/

/-- A step hands a message over to an operation that has not failed, or it neither finishes nor
counts anything. -/
theorem step_cases {a : Act ReprocessMessage} (h : n.step a = some n') :
    (∃ out, n'.log = n.log ++ out ∧ .operationFinished ∉ out ∧ noticed n'.op = noticed n.op ∧
      (transfer n'.op).counters = (transfer n.op).counters ∧
      (Handlers.base n'.op).stateChunks = (Handlers.base n.op).stateChunks ∧
      n'.handled = n.handled) ∨
    ∃ sched i source msg before behind, a = .deliver sched i ∧
      n.inFlight = before ++ (source, msg) :: behind ∧ n.inFlight[i]? = some (source, msg) ∧
      (Handlers.base n.op).failed = false ∧
      n' = (record { n with inFlight := before ++ behind }
        (Handlers.receive sched source msg n.op)).note source msg := by
  have hsame : ∀ n' : Network σ Holder, n'.toSession = n.toSession →
      ∃ out, n'.log = n.log ++ out ∧ .operationFinished ∉ out ∧ noticed n'.op = noticed n.op ∧
        (transfer n'.op).counters = (transfer n.op).counters ∧
        (Handlers.base n'.op).stateChunks = (Handlers.base n.op).stateChunks ∧
        n'.handled = n.handled := by
    intro n' he
    rw [he]
    exact ⟨[], (List.append_nil _).symm, List.not_mem_nil, rfl, rfl, rfl, rfl⟩
  cases a with
  | read mb =>
      obtain ⟨cmd, rest, hw, rfl⟩ := step_read h
      exact Or.inl (hsame _ rfl)
  | deliver sched i =>
      obtain ⟨source, msg, before, behind, hin, -, hi, ⟨hfail, rfl⟩ | ⟨hfail, rfl⟩⟩ := step_deliver h
      · exact Or.inl (hsame _ rfl)
      · exact Or.inr ⟨sched, i, source, msg, before, behind, rfl, hin, hi, hfail, rfl⟩
  | stimulus mb m =>
      obtain ⟨r, -, rfl⟩ := step_stimulus h
      exact Or.inl (hsame _ rfl)
  | forward i =>
      obtain ⟨mb, packet, before, behind, -, rfl⟩ := step_forward h
      exact Or.inl (hsame _ rfl)
  | packetIn packet inSwitch inPort =>
      cases step_packetIn h
      refine Or.inl ⟨_, rfl, (packet_out packet inSwitch inPort n.op).2,
        packet_noticed packet inSwitch inPort n.op, ?_, ?_, rfl⟩
      · exact congrArg Transfer.counters (packet_transfer packet inSwitch inPort n.op)
      · exact congrArg Operation.stateChunks (packet_base packet inSwitch inPort n.op)
  | task i =>
      obtain ⟨task, ht, rfl⟩ := step_task h
      have hpool := setPool n.op ((Handlers.base n.op).threadPool.eraseIdx i)
      refine Or.inl ⟨_, rfl, fun hm => ?_, setPool_noticed n.op _, ?_, ?_, rfl⟩
      · rcases Operation.mem_call hm with ⟨_, _, he⟩ | ⟨_, _, _, he⟩ <;> cases he
      · show (transfer (Handlers.setBase n.op _)).counters = _
        rw [hpool]
      · show (Handlers.base (Handlers.setBase n.op _)).stateChunks = _
        rw [Handlers.base_setBase]

/-- Once the transfer is complete, nothing that is handed over is about it. -/
theorem Sound.not_ack (hn : Sound H n) (hc : (transfer n.op).Complete) {source : Middlebox}
    {msg : Message} (hm : (source, msg) ∈ n.inFlight) :
    msg = .eventsAck ∨ ∃ m, msg = .reprocess m := by
  have hs := hn.conserved.settled hc
  cases msg with
  | state msg =>
      have hmem : msg.content ∈ n.flow.states := mem_statesIn hm
      rw [hs.states] at hmem
      exact absurd hmem (Multiset.notMem_zero _)
  | getAck cls count =>
      have hmem : cls ∈ n.flow.answered := mem_getAcksIn hm
      rw [hs.answered] at hmem
      exact absurd hmem (Multiset.notMem_zero _)
  | putAck cls hashkey =>
      have hmem : (cls, hashkey) ∈ n.flow.acking := mem_putAcksIn hm
      rw [hs.acking] at hmem
      exact absurd hmem (Multiset.notMem_zero _)
  | eventsAck => exact Or.inl rfl
  | reprocess m => exact Or.inr ⟨m, rfl⟩

theorem Sound.complete_step (hn : Sound H n) (hc : (transfer n.op).Complete)
    (hargs : (transfer n.op).SameArgs (transfer n'.op)) {a : Act ReprocessMessage}
    (h : n.step a = some n') : (transfer n'.op).Complete := by
  have hcounters : (transfer n'.op).counters = (transfer n.op).counters := by
    rcases step_cases h with ⟨out, -, -, -, hcounters, -⟩ |
      ⟨sched, i, source, msg, before, behind, -, hin, -, -, rfl⟩
    · exact hcounters
    · have hm : (source, msg) ∈ n.inFlight := by
        rw [hin]
        simp
      exact congrArg Transfer.counters (receive_other sched source msg n.op (hn.not_ack hc hm))
  rw [Transfer.Complete, hargs.classes, hcounters]
  exact hc

/-- An operation that ends no route update finishes once at most, and only when its transfer is
complete. -/
structure Finishes (n : Network σ Holder) : Prop where
  count : n.log.count .operationFinished ≤ 1
  complete : .operationFinished ∈ n.log → (transfer n.op).Complete
  /-- Chunks that are held have been put, and one of them has been acked. -/
  acked : .operationFinished ∈ n.log → (transfer n.op).holds = true → n.flow.acked ≠ 0
  ends : .operationFinished ∈ n.log → (transfer n.op).throws = false

theorem Finishes.step (hf : Finishes n) (hn : Sound H n) (hH : Flow.Classed (contentsOf H))
    (hord : (transfer n.op).ordered = false) {a : Act ReprocessMessage} (h : n.step a = some n') :
    Finishes n' := by
  obtain ⟨hn', hargs, -⟩ := hn.step hH (fun ho => by rw [hord] at ho; cases ho) h
  rcases step_cases h with ⟨out, hlog, hout, -, -, -, hhandled⟩ |
    ⟨sched, i, source, msg, before, behind, -, hin, -, hfail, rfl⟩
  · have hmem : .operationFinished ∈ n'.log → .operationFinished ∈ n.log := by
      intro hm
      rw [hlog] at hm
      exact (List.mem_append.mp hm).resolve_right hout
    refine ⟨?_, fun hm => hn.complete_step (hf.complete (hmem hm)) hargs h, fun hm hh => ?_,
      fun hm => hargs.throws.trans (hf.ends (hmem hm))⟩
    · rw [hlog, List.count_append, List.count_eq_zero.mpr hout]
      exact hf.count
    · show putAcksIn n'.handled ≠ 0
      rw [hhandled]
      exact hf.acked (hmem hm) (hargs.holds ▸ hh)
  · have hm : (source, msg) ∈ n.inFlight := by
      rw [hin]
      simp
    have hfin : .operationFinished ∈ (Handlers.receive sched source msg n.op).out →
        (transfer (Handlers.receive sched source msg n.op).val).Complete ∧ msg.isAck = true ∧
          ((transfer n.op).holds = true → msg.putAckKey ≠ none) ∧ (transfer n.op).throws = false := by
      intro hout
      rcases finish_mem sched source msg n.op hn.routed.valid hord hout with hc | ⟨rfl, hs⟩
      · exact hc
      · rcases hn.routed.ack_from source hm with ⟨he, -⟩ | ⟨-, ho⟩
        · exact absurd he hs
        · rw [hord] at ho
          cases ho
    -- A second finish would need an ack on the way, when there is none any more.
    have honce : .operationFinished ∈ n.log →
        .operationFinished ∉ (Handlers.receive sched source msg n.op).out := by
      intro hlog hout
      rcases hn.not_ack (hf.complete hlog) hm with rfl | ⟨m, rfl⟩ <;> cases (hfin hout).2.1
    have hmem : .operationFinished ∈ n.log ++ (Handlers.receive sched source msg n.op).out →
        .operationFinished ∈ n.log ∨
          .operationFinished ∈ (Handlers.receive sched source msg n.op).out := List.mem_append.mp
    refine ⟨?_, fun hlog => ?_, fun hlog hh => ?_, fun hlog => hargs.throws.trans ?_⟩
    · show (n.log ++ (Handlers.receive sched source msg n.op).out).count .operationFinished ≤ 1
      rw [List.count_append]
      by_cases hlog : .operationFinished ∈ n.log
      · rw [List.count_eq_zero.mpr (honce hlog)]
        exact hf.count
      · rw [List.count_eq_zero.mpr hlog, zero_add]
        exact finish_count sched source msg n.op
    · rcases hmem hlog with hlog | hout
      · exact hn.complete_step (hf.complete hlog) hargs h
      · exact (hfin hout).1
    · show putAcksIn (n.handled ++ [(source, msg)]) ≠ 0
      rw [putAcksIn_append]
      intro hzero
      have hbefore : putAcksIn n.handled = 0 :=
        Multiset.le_zero.mp ((Multiset.le_add_right _ _).trans hzero.le)
      have hone : putAcksIn [(source, msg)] = 0 :=
        Multiset.le_zero.mp ((Multiset.le_add_left _ _).trans hzero.le)
      have hh' : (transfer n.op).holds = true := hargs.holds ▸ hh
      rcases hmem hlog with hlog | hout
      · exact hf.acked hlog hh' hbefore
      · refine (hfin hout).2.2.1 hh' ?_
        cases hk : msg.putAckKey with
        | none => rfl
        | some key =>
            have hkey : key ∈ putAcksIn [(source, msg)] :=
              List.mem_filterMap.mpr ⟨_, List.mem_singleton.mpr rfl, hk⟩
            rw [hone] at hkey
            exact absurd hkey (Multiset.notMem_zero key)
    · exact (hmem hlog).elim hf.ends fun hout => (hfin hout).2.2.2

theorem finishes_run (hop : Fresh op) (hnf : ∀ mb, (nf mb).raises = false)
    (hord : (transfer op).ordered = false)
    (hr : Machine.run step (start op nf) as = some n) : Finishes n := by
  have hne : (transfer op).ordered = true → (transfer op).src ≠ (transfer op).dst := by
    rw [hord]
    exact fun h => by cases h
  induction as using List.reverseRecOn generalizing n with
  | nil =>
      cases hr
      have hnone : .operationFinished ∉ (start op nf : Network σ Holder).log := execute_finish op
      refine ⟨?_, fun hm => absurd hm hnone, fun hm => absurd hm hnone, fun hm => absurd hm hnone⟩
      rw [List.count_eq_zero.mpr hnone]
      exact Nat.zero_le 1
  | append_singleton as a ih =>
      obtain ⟨t, ht, hs⟩ := Machine.run_snoc_eq_some.mp hr
      obtain ⟨hsound, hargs⟩ := sound_run hop hnf hne ht
      exact (ih ht).step hsound (contentsOf_classed _) (hargs.ordered.trans hord) hs

/-! ## Being noticed -/

/-- Every event of `src` that is handed over can be let out to `dst`, if events wait with chunks. -/
def DeliversReleasable (n : Network σ Holder) : Act ReprocessMessage → Prop
  | .deliver _ i => (transfer n.op).queues = true →
      ∀ m, n.inFlight[i]? = some ((transfer n.op).src, .reprocess m) →
        m.Deliverable (transfer n.op).dst
  | _ => True

/-- A transfer that is complete has been noticed, unless its chunks are held back and not one of them
has been acked. That is so if no exception leaves the check. -/
structure Notices (n : Network σ Holder) : Prop where
  smooth : (Handlers.base n.op).Smooth
  finished : noticed n.op = true → .operationFinished ∈ n.log
  found : (transfer n.op).Complete →
    noticed n.op = true ∨ (transfer n.op).holds = true ∧ n.flow.acked = 0

theorem Notices.step (hs : Notices n) (hn : Sound H n) (hH : Flow.Classed (contentsOf H))
    (hord : (transfer n.op).ordered = false) (hthrows : (transfer n.op).throws = false)
    {a : Act ReprocessMessage} (h : n.step a = some n') (hd : DeliversReleasable n a) : Notices n' := by
  obtain ⟨hn', hargs, -⟩ := hn.step hH (fun ho => by rw [hord] at ho; cases ho) h
  rcases step_cases h with ⟨out, hlog, -, hnoticed, hcounters, hchunks, hhandled⟩ |
    ⟨sched, i, source, msg, before, behind, rfl, hin, hi, hfail, rfl⟩
  · refine ⟨?_, fun hm => ?_, fun hc => ?_⟩
    · intro ref event
      rw [hchunks]
      exact hs.smooth ref event
    · rw [hlog]
      exact List.mem_append_left _ (hs.finished (hnoticed ▸ hm))
    · rw [hnoticed, hargs.holds]
      show _ ∨ _ ∧ putAcksIn n'.handled = 0
      rw [hhandled]
      refine hs.found ?_
      rw [Transfer.Complete, hargs.classes, hcounters] at hc
      exact hc
  · have hm : (source, msg) ∈ n.inFlight := by
      rw [hin]
      simp
    refine ⟨?_, fun hnt => ?_, fun hc => ?_⟩
    · refine smooth_receive sched source msg n.op hs.smooth fun hq m he hsrc => ?_
      subst he hsrc
      exact hd hq m hi
    · rcases noticed_finish sched source msg n.op hn.routed.valid hord hnt with ht | hout
      · exact List.mem_append_left _ (hs.finished ht)
      · exact List.mem_append_right _ hout
    · have hcls := inClasses_of_mem hn.conserved hH hm
      have hcheck : (transfer n.op).Checks msg →
          noticed (Handlers.receive sched source msg n.op).val = true := by
        intro hchecks
        rcases noticed_check sched source msg n.op hn.routed.valid hs.smooth hchecks hthrows hc with ht | hf
        · exact ht
        · have ho := (failed_receive sched source msg n.op hn.routed.valid hfail hf).1
          rw [hord] at ho
          cases ho
      have hother : (msg = .eventsAck ∨ ∃ m, msg = .reprocess m) →
          noticed (Handlers.receive sched source msg n.op).val = true ∨
            (transfer (Handlers.receive sched source msg n.op).val).holds = true ∧
              putAcksIn (n.handled ++ [(source, msg)]) = 0 := by
        intro ho
        have ht := receive_other sched source msg n.op ho
        rw [show (transfer (Network.note _ source msg).op) = _ from ht] at hc
        rw [ht, putAcksIn_append]
        refine (hs.found hc).imp (noticed_receive sched source msg n.op) fun ⟨hh, hacked⟩ => ⟨hh, ?_⟩
        rw [show putAcksIn n.handled = 0 from hacked, zero_add]
        rcases ho with rfl | ⟨m, rfl⟩ <;> rfl
      cases msg with
      | state msg =>
          have htake := receive_state sched source msg n.op hn.routed.valid
            (classes_handled n.op hn.routed.valid _ hcls)
          have hbefore : (transfer n.op).Complete := by
            rw [Transfer.Complete, hargs.classes] at hc
            rw [Transfer.Complete, ← htake.counters_eq]
            exact hc
          rcases hn.not_ack hbefore hm with he | ⟨m, he⟩ <;> cases he
      | getAck cls count =>
          cases hh : (transfer n.op).holds with
          | false => exact Or.inl (hcheck ⟨hcls, hh⟩)
          | true =>
              -- Before the last get-ack nothing has been put.
              have hnot : ¬ (transfer n.op).AllAcked := fun hall => by
                have hacked : (transfer n.op).counters.getAcked cls = false :=
                  hn.conserved.not_counted (Multiset.mem_add.mpr (Or.inr (mem_getAcksIn hm)))
                rw [hall cls hcls] at hacked
                cases hacked
              have hput : n.flow.put = 0 := (hn.conserved.held hh hnot).1
              have hacks := hn.conserved.acks
              rw [hput, Flow.ackKeys_zero] at hacks
              refine Or.inr ⟨hargs.holds.trans hh, ?_⟩
              show putAcksIn (n.handled ++ [_]) = 0
              rw [putAcksIn_append]
              have hzero : putAcksIn n.handled = 0 :=
                Multiset.le_zero.mp ((Multiset.le_add_left _ _).trans hacks.le)
              rw [hzero]
              rfl
      | putAck cls hashkey => exact Or.inl (hcheck hcls)
      | eventsAck => exact hother (Or.inl rfl)
      | reprocess m => exact hother (Or.inr ⟨m, rfl⟩)

theorem notices_run (hop : Fresh op) (hnf : ∀ mb, (nf mb).raises = false)
    (hord : (transfer op).ordered = false) (hthrows : (transfer op).throws = false)
    (hd : Machine.Along step DeliversReleasable (start op nf : Network σ Holder) as)
    (hr : Machine.run step (start op nf) as = some n) : Notices n := by
  have hne : (transfer op).ordered = true → (transfer op).src ≠ (transfer op).dst := by
    rw [hord]
    exact fun h => by cases h
  induction as using List.reverseRecOn generalizing n with
  | nil =>
      cases hr
      have hnoticed : noticed op = false := hop.noticed
      refine ⟨hop.smooth, fun hm => ?_, fun hc => ?_⟩
      · rw [show noticed (start op nf : Network σ Holder).op = false from hnoticed] at hm
        cases hm
      · obtain ⟨cls, hcls⟩ := List.exists_mem_of_ne_nil _ (classes_ne_nil op hop.valid)
        have hdone := (hc cls hcls).1
        rw [show (transfer (start op nf : Network σ Holder).op).counters = _ from hop.counters] at hdone
        cases hdone
  | append_singleton as a ih =>
      obtain ⟨t, ht, hs⟩ := Machine.run_snoc_eq_some.mp hr
      obtain ⟨hsound, hargs⟩ := sound_run hop hnf hne ht
      exact (ih hd.of_snoc ht).step hsound (contentsOf_classed _) (hargs.ordered.trans hord)
        (hargs.throws.trans hthrows) hs (hd.last ht)

end Network

end OFM.Controller
