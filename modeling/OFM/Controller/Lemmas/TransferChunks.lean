import OFM.Controller.Lemmas.TransferFinish

/-!
# The chunks of a transfer

What is put over all runs of a network of a transfer, and what the order of the channels adds to it.
-/

namespace OFM.Controller
open OFM.Lib TransferOperation

variable {σ : Type} [PacketUtil] [TransferOperation σ]

namespace Network

variable {H : StateClass → List StateMessage} {n n' : Network σ Holder} {op : σ}
  {nf : Middlebox → Holder} {as : List (Act ReprocessMessage)}

/-- A chunk that is handed over does not replace another one that is still to be put. -/
def KeepsChunks (n : Network σ Holder) : Act ReprocessMessage → Prop
  | .deliver _ i => ∀ source msg, n.inFlight[i]? = some (source, .state msg) →
      (transfer n.op).Keeps msg.content
  | _ => True

theorem Mirrors.keeps {a : Act ReprocessMessage} {act : Flow.Act} (h : Mirrors n a act)
    (hk : KeepsChunks n a) : act.Keeps n.flow := by
  rcases h with h | ⟨sched, i, source, msg, rfl, hi, rfl⟩
  · cases act <;> first | exact h.elim | trivial
  · cases msg <;> first | exact hk _ _ hi | trivial

/-! ## The order of the channels -/

/-- Chunks and get-acks come from `src`, the chunks of a class before its get-ack, and put-acks come
from `dst`. -/
structure Channels (n : Network σ Holder) : Prop where
  from_src : ∀ x ∈ n.inFlight ++ n.handled, x.2.stateContent ≠ none ∨ x.2.getAckClass ≠ none →
    x.1 = (transfer n.op).src
  from_dst : ∀ x ∈ n.inFlight ++ n.handled, x.2.putAckKey ≠ none → x.1 = (transfer n.op).dst
  order : n.inFlight.Pairwise fun x y => ∀ cls c, x.2.getAckClass = some cls →
    y.2.stateContent = some c → c.cls ≠ cls

theorem Channels.countsLast (h : Channels n) {sched : Schedule} {i : Nat} {source : Middlebox}
    {msg : Message} (hi : n.inFlight[i]? = some (source, msg))
    (hs : InSequence n (.deliver sched i : Act ReprocessMessage)) :
    (actOf msg).CountsLast n.flow := by
  cases msg with
  | getAck cls count =>
      intro c hc
      obtain ⟨x, hx, hxc⟩ := List.mem_filterMap.mp (Multiset.mem_coe.mp hc)
      obtain ⟨hlt, hget⟩ := List.getElem?_eq_some_iff.mp hi
      have hsplit : n.inFlight = n.inFlight.take i ++ (source, .getAck cls count) ::
          n.inFlight.drop (i + 1) := by
        rw [← hget, ← List.drop_eq_getElem_cons hlt, List.take_append_drop]
      have hsource : source = (transfer n.op).src :=
        h.from_src (source, .getAck cls count) (List.mem_append_left _ (List.mem_of_getElem? hi))
          (Or.inr (by simp [Message.getAckClass]))
      rw [hsplit] at hx
      rcases List.mem_append.mp hx with hx | hx
      · -- The chunk is on the same channel, and would have to be handed over first.
        refine absurd ?_ (hs x _ hi hx)
        have hxs : x.1 = (transfer n.op).src :=
          h.from_src x (List.mem_append_left _ (List.mem_of_mem_take hx)) (Or.inl (by simp [hxc]))
        refine ⟨hxs.trans hsource.symm, ?_⟩
        cases hm : x.2 with
        | state m => rfl
        | _ => rw [hm] at hxc; cases hxc
      · rcases List.mem_cons.mp hx with rfl | hx
        · cases hxc
        · have horder := h.order
          rw [hsplit, List.pairwise_append] at horder
          exact (List.pairwise_cons.mp horder.2.1).1 x hx cls c rfl hxc
  | _ => trivial

theorem Channels.of_sublist (h : Channels n) (hargs : (transfer n.op).SameArgs (transfer n'.op))
    (hsub : n'.inFlight.Sublist n.inFlight)
    (hmem : ∀ x ∈ n'.handled, x ∈ n.inFlight ++ n.handled) : Channels n' := by
  have hall : ∀ x ∈ n'.inFlight ++ n'.handled, x ∈ n.inFlight ++ n.handled := by
    intro x hx
    rcases List.mem_append.mp hx with hx | hx
    · exact List.mem_append_left _ (hsub.subset hx)
    · exact hmem x hx
  exact ⟨fun x hx hc => (h.from_src x (hall x hx) hc).trans hargs.src.symm,
    fun x hx hc => (h.from_dst x (hall x hx) hc).trans hargs.dst.symm, h.order.sublist hsub⟩

theorem Channels.answer (h : Channels n) {wire : Middlebox → List Command} {mb : Middlebox}
    {r : Holder × List Message}
    (hsrc : ∀ msg ∈ r.2, msg.stateContent ≠ none ∨ msg.getAckClass ≠ none →
      mb = (transfer n.op).src)
    (hdst : ∀ msg ∈ r.2, msg.putAckKey ≠ none → mb = (transfer n.op).dst)
    (hr : r.2.Pairwise fun x y => ∀ cls c, x.getAckClass = some cls →
      y.stateContent = some c → c.cls ≠ cls)
    (hcross : ∀ cls ∈ n.flow.answered, ∀ msg ∈ r.2, ∀ c, msg.stateContent = some c → c.cls ≠ cls) :
    Channels (Network.answer { n with wire := wire } mb r) := by
  have hall : ∀ x ∈ (n.inFlight ++ r.2.map fun msg => (mb, msg)) ++ n.handled,
      x ∈ n.inFlight ++ n.handled ∨ x.1 = mb ∧ x.2 ∈ r.2 := by
    intro x hx
    simp only [List.mem_append, List.mem_map] at hx ⊢
    rcases hx with (hx | ⟨msg, hm, rfl⟩) | hx
    · exact Or.inl (Or.inl hx)
    · exact Or.inr ⟨rfl, hm⟩
    · exact Or.inl (Or.inr hx)
  refine ⟨fun x hx hc => ?_, fun x hx hc => ?_, ?_⟩
  · rcases hall x hx with hx | ⟨hmb, hx⟩
    · exact h.from_src x hx hc
    · exact hmb.trans (hsrc _ hx hc)
  · rcases hall x hx with hx | ⟨hmb, hx⟩
    · exact h.from_dst x hx hc
    · exact hmb.trans (hdst _ hx hc)
  · refine List.pairwise_append.mpr ⟨h.order, List.pairwise_map.mpr hr,
      fun x hx y hy cls c hcls hc => ?_⟩
    obtain ⟨msg, hm, rfl⟩ := List.mem_map.mp hy
    exact hcross cls (List.mem_filterMap.mpr ⟨x, hx, hcls⟩) msg hm c hc

/-- An answer of one message that is neither a chunk nor a get-ack. -/
theorem Channels.answer_one (h : Channels n) {wire : Middlebox → List Command} {mb : Middlebox}
    {nf' : Holder} {msg : Message} (hs : msg.stateContent = none) (hg : msg.getAckClass = none)
    (hdst : msg.putAckKey ≠ none → mb = (transfer n.op).dst) :
    Channels (Network.answer { n with wire := wire } mb (nf', [msg])) := by
  refine h.answer (fun m hm hc => ?_) (fun m hm hc => ?_) (List.pairwise_singleton _ _)
    fun _ _ m hm c hc => ?_
  · rw [List.mem_singleton.mp hm] at hc
    rcases hc with hc | hc
    · exact absurd hs hc
    · exact absurd hg hc
  · rw [List.mem_singleton.mp hm] at hc
    exact hdst hc
  · rw [List.mem_singleton.mp hm, hs] at hc
    cases hc

theorem Channels.step (h : Channels n) (hn : Sound H n)
    (hargs : (transfer n.op).SameArgs (transfer n'.op)) {a : Act ReprocessMessage}
    (hs : n.step a = some n') : Channels n' := by
  cases a with
  | read mb =>
      obtain ⟨cmd, rest, hw, rfl⟩ := step_read hs
      have hmem : cmd ∈ n.wire mb := by
        rw [hw]
        exact List.mem_cons_self
      rcases (n.nf mb).command_cases cmd with ⟨cls, hget, -, hmsgs⟩ | ⟨c, hput, he⟩ | ⟨-, -, hmsgs⟩
      · have hsrc : mb = (transfer n.op).src := hn.routed.get_at mb cmd hmem (by simp [hget])
        have hmsgs : (NetworkFunction.command (n.nf mb) cmd).2 = (n.nf mb).answerGet cls := hmsgs
        have hcls : ∀ msg ∈ (n.nf mb).answerGet cls, ∀ c, msg.stateContent = some c → c.cls = cls := by
          intro msg hm c hc
          rcases List.mem_append.mp hm with hm | hm
          · obtain ⟨m, hheld, rfl⟩ := List.mem_map.mp hm
            cases hc
            exact (n.nf mb).held_cls cls m hheld
          · rw [List.mem_singleton.mp hm] at hc
            cases hc
        refine h.answer (fun _ _ _ => hsrc) (fun msg hm hc => ?_) ?_ ?_
        · rw [hmsgs] at hm
          rcases List.mem_append.mp hm with hm | hm
          · obtain ⟨m, -, rfl⟩ := List.mem_map.mp hm
            exact absurd rfl hc
          · rw [List.mem_singleton.mp hm] at hc
            exact absurd rfl hc
        · rw [hmsgs, Holder.answerGet, List.pairwise_append]
          refine ⟨?_, List.pairwise_singleton _ _, fun x _ y hy _ c _ hc => ?_⟩
          · refine List.pairwise_map.mpr (List.pairwise_of_forall fun x y cls c hx _ => ?_)
            cases hx
          · rw [List.mem_singleton.mp hy] at hc
            cases hc
        · intro cls' hm msg hmsg c hc he
          rw [hmsgs] at hmsg
          have hask : cls ∈ n.flow.asking := by
            refine Multiset.mem_add.mpr (Or.inr ?_)
            exact List.mem_filterMap.mpr ⟨cmd, hsrc ▸ hmem, hget⟩
          have hnodup : (n.flow.asking + n.flow.answered + n.flow.counted).Nodup := by
            rw [hn.conserved.asks]
            exact hn.conserved.nodup
          have hdisjoint := (Multiset.nodup_add.mp (Multiset.nodup_add.mp hnodup).1).2.2
          rw [← he, hcls msg hmsg c hc] at hm
          exact Multiset.disjoint_left.mp hdisjoint hask hm
      · have hdst : mb = (transfer n.op).dst := hn.routed.put_at mb cmd hmem (by simp [hput])
        have he : NetworkFunction.command (n.nf mb) cmd = _ := he
        rw [he]
        exact h.answer_one rfl rfl fun _ => hdst
      · have he : NetworkFunction.command (n.nf mb) cmd =
            (((n.nf mb).command cmd).1, [.eventsAck]) := Prod.ext rfl hmsgs
        rw [he]
        exact h.answer_one rfl rfl fun hc => absurd rfl hc
  | deliver sched i =>
      obtain ⟨source, msg, before, behind, hin, -, hi, hcase⟩ := step_deliver hs
      have hsub : (before ++ behind).Sublist n.inFlight := by
        rw [hin]
        exact (List.Sublist.refl before).append (List.sublist_cons_self _ _)
      rcases hcase with ⟨-, rfl⟩ | ⟨-, rfl⟩
      · exact h.of_sublist (.refl _) hsub fun x hx => List.mem_append_right _ hx
      · refine h.of_sublist hargs hsub fun x hx => ?_
        rcases List.mem_append.mp hx with hx | hx
        · exact List.mem_append_right _ hx
        · rw [List.mem_singleton.mp hx]
          exact List.mem_append_left _ (List.mem_of_getElem? hi)
  | stimulus mb m =>
      obtain ⟨r, hr, rfl⟩ := step_stimulus hs
      obtain ⟨-, rfl⟩ := Holder.stimulus_cases hr
      have hwire : n = { n with wire := n.wire } := rfl
      rw [hwire]
      exact h.answer_one rfl rfl fun hc => absurd rfl hc
  | forward i =>
      obtain ⟨mb, packet, before, behind, -, rfl⟩ := step_forward hs
      refine h.of_sublist (.refl _) ?_ fun x hx => List.mem_append_right _ hx
      show (n.inFlight ++ []).Sublist n.inFlight
      rw [List.append_nil]
  | packetIn packet inSwitch inPort =>
      cases step_packetIn hs
      exact h.of_sublist hargs (List.Sublist.refl _) fun x hx => List.mem_append_right _ hx
  | task i =>
      obtain ⟨task, -, rfl⟩ := step_task hs
      exact h.of_sublist hargs (List.Sublist.refl _) fun x hx => List.mem_append_right _ hx

theorem channels_run (hop : Fresh op) (hnf : ∀ mb, (nf mb).raises = false)
    (hne : (transfer op).ordered = true → (transfer op).src ≠ (transfer op).dst)
    (hr : Machine.run step (start op nf) as = some n) : Channels n := by
  induction as using List.reverseRecOn generalizing n with
  | nil =>
      cases hr
      exact ⟨fun _ hx => absurd hx List.not_mem_nil, fun _ hx => absurd hx List.not_mem_nil, .nil⟩
  | append_singleton as a ih =>
      obtain ⟨t, ht, hs⟩ := Machine.run_snoc_eq_some.mp hr
      obtain ⟨hsound, hargs⟩ := sound_run hop hnf hne ht
      obtain ⟨-, hargs', -⟩ := hsound.step (contentsOf_classed _)
        (by rw [hargs.ordered, hargs.src, hargs.dst]; exact hne) hs
      exact (ih ht).step hsound hargs' hs

/-- Channels that keep their order hand over no chunk of a class that has been get-acked. -/
theorem inTime_run (hop : Fresh op) (hnf : ∀ mb, (nf mb).raises = false)
    (hne : (transfer op).ordered = true → (transfer op).src ≠ (transfer op).dst)
    (hseq : Machine.Along step InSequence (start op nf) as)
    (hr : Machine.run step (start op nf) as = some n) : n.flow.InTime := by
  induction as using List.reverseRecOn generalizing n with
  | nil =>
      cases hr
      exact fun c hc => absurd hc (Multiset.notMem_zero c)
  | append_singleton as a ih =>
      obtain ⟨t, ht, hs⟩ := Machine.run_snoc_eq_some.mp hr
      obtain ⟨hsound, hargs⟩ := sound_run hop hnf hne ht
      obtain ⟨-, -, act, hmirrors, hstep⟩ := hsound.step (contentsOf_classed _)
        (by rw [hargs.ordered, hargs.src, hargs.dst]; exact hne) hs
      refine (ih hseq.of_snoc ht).step hsound.conserved (contentsOf_classed _) hstep ?_
      rcases hmirrors with hsilent | ⟨sched, i, source, msg, rfl, hi, rfl⟩
      · cases act <;> first | exact hsilent.elim | trivial
      · exact (channels_run hop hnf hne ht).countsLast hi (hseq.last ht)

/-! ## What is put -/

/-- A chunk is handed over before those that are held back have been put. -/
def ArrivesInTime (n : Network σ Holder) : Act ReprocessMessage → Prop
  | .deliver _ i => ∀ source msg, n.inFlight[i]? = some (source, .state msg) →
      ¬ (transfer n.op).Released
  | _ => True

theorem arrivesInTime_along (hop : Fresh op) (hnf : ∀ mb, (nf mb).raises = false)
    (hne : (transfer op).ordered = true → (transfer op).src ≠ (transfer op).dst)
    (hseq : Machine.Along step InSequence (start op nf) as) :
    Machine.Along step ArrivesInTime (start op nf : Network σ Holder) as := by
  rintro pre a suf t rfl ht
  cases a with
  | deliver sched i =>
      intro source msg hi hrel
      have hpre : Machine.Along step InSequence (start op nf : Network σ Holder) pre := by
        intro pre' b suf' u he hu
        exact hseq pre' b (suf' ++ .deliver sched i :: suf) u (by simp [he]) hu
      have hsound := (sound_run hop hnf hne ht).1
      have hm : (source, .state msg) ∈ t.inFlight := List.mem_of_getElem? hi
      have hacked := hrel.2 msg.cls (hsound.conserved.cls_mem (contentsOf_classed _)
        (Multiset.mem_add.mpr (Or.inl (mem_statesIn hm))))
      have hnot := inTime_run hop hnf hne hpre ht msg.content (mem_statesIn hm)
      rw [show (transfer t.op).counters.getAcked msg.cls = false from hnot] at hacked
      cases hacked
  | _ => trivial

/-- In runs that replace no chunk that is still to be put, all that has been received is accounted
for, but for what came late. -/
theorem accounts_run (hop : Fresh op) (hnf : ∀ mb, (nf mb).raises = false)
    (hne : (transfer op).ordered = true → (transfer op).src ≠ (transfer op).dst)
    (hk : Machine.Along step KeepsChunks (start op nf : Network σ Holder) as)
    (hr : Machine.run step (start op nf) as = some n) :
    ∃ late, (transfer n.op).Accounts (puts n.log) (statesIn n.handled) late ∧
      (Machine.Along step ArrivesInTime (start op nf : Network σ Holder) as → late = 0) := by
  induction as using List.reverseRecOn generalizing n with
  | nil =>
      cases hr
      refine ⟨0, ?_, fun _ => rfl⟩
      have howed : (transfer op).owed = [] := by
        rw [Transfer.owed, hop.pool, hop.list, ite_self]
        rfl
      show puts (Handlers.execute op).out + (transfer op).owing + 0 = 0
      rw [puts_execute, Transfer.owing_eq howed]
      rfl
  | append_singleton as a ih =>
      obtain ⟨t, ht, hs⟩ := Machine.run_snoc_eq_some.mp hr
      obtain ⟨hsound, hargs⟩ := sound_run hop hnf hne ht
      obtain ⟨-, -, act, hmirrors, hstep⟩ := hsound.step (contentsOf_classed _)
        (by rw [hargs.ordered, hargs.src, hargs.dst]; exact hne) hs
      obtain ⟨late, hlate, hzero⟩ := ih hk.of_snoc ht
      obtain ⟨late', hlate', hsame⟩ := Flow.accounts_step hlate hsound.conserved hstep
        (hmirrors.keeps (hk.last ht))
      refine ⟨late', hlate', fun hin => (hsame fun c hc => ?_).trans (hzero hin.of_snoc)⟩
      subst hc
      rcases hmirrors with hsilent | ⟨sched, i, source, msg, rfl, hi, he⟩
      · exact hsilent.elim
      · cases msg <;> cases he
        exact hin.last ht source _ hi

end Network

end OFM.Controller
