import OFM.Controller.Lemmas.TransferChunks

/-!
# Transfers at rest

When nothing of a transfer is on the way any more, it is complete.
-/

namespace OFM.Controller
open OFM.Lib TransferOperation

variable {σ : Type} [PacketUtil] [TransferOperation σ]

/-! ## Accounts at rest -/

namespace Flow

variable {H : StateClass → Multiset Content} {f : Flow}

omit [PacketUtil] in
/-- Of the chunks of several classes, those of one class. -/
theorem Classed.countP_bind (hH : Classed H) {classes : Multiset StateClass} (hn : classes.Nodup)
    {cls : StateClass} (hcls : cls ∈ classes) :
    (classes.bind H).countP (fun c => c.cls = cls) = (H cls).card := by
  obtain ⟨others, rfl⟩ := Multiset.exists_cons_of_mem hcls
  have hnot : cls ∉ others := (Multiset.nodup_cons.mp hn).1
  have hself : (H cls).countP (fun c => c.cls = cls) = (H cls).card :=
    Multiset.countP_eq_card.mpr (hH cls)
  have hothers : (others.bind H).countP (fun c => c.cls = cls) = 0 := by
    refine Multiset.countP_eq_zero.mpr fun c hc he => ?_
    obtain ⟨cls', hcls', hc⟩ := Multiset.mem_bind.mp hc
    rw [hH cls' c hc] at he
    exact hnot (he ▸ hcls')
  rw [Multiset.cons_bind, Multiset.countP_add, hself, hothers, add_zero]

omit [PacketUtil] in
/-- When nothing is on the way and all chunks that are received have been put, all are acked. -/
theorem Conserved.complete (h : Conserved H f) (hH : Classed H)
    (hput : f.put = f.received.map (Prod.mk f.transfer.dst)) (hasking : f.asking = 0)
    (hanswered : f.answered = 0) (hstates : f.states = 0) (hputting : f.putting = 0)
    (hacking : f.acking = 0) : f.transfer.Complete := by
  intro cls hcls
  have hcounted : f.counted = f.transfer.classes := by
    rw [← h.asks, hasking, hanswered, zero_add, zero_add]
  have hreceived : f.received = (f.transfer.classes : Multiset StateClass).bind H := by
    rw [← h.chunks, hasking, Multiset.zero_bind, add_zero, hstates, zero_add]
  have hacked : f.acked = f.received.map Content.ackKey := by
    have hacks := h.acks
    rw [hputting, hacking, zero_add, zero_add, hput, ackKeys, Multiset.map_map] at hacks
    exact hacks
  have hmem : cls ∈ f.counted := by
    rw [hcounted]
    exact hcls
  refine ⟨(h.getAcked cls).mpr hmem, ?_⟩
  have hcount : (f.received.map Content.ackKey).countP (fun key => key.1 = cls) =
      f.received.countP fun c => c.cls = cls := by
    rw [Multiset.countP_map, Multiset.countP_eq_card_filter]
    rfl
  rw [h.getCount cls hmem, h.putAcks cls, hacked, hcount, hreceived]
  exact_mod_cast hH.countP_bind (Multiset.coe_nodup.mpr h.nodup) hcls

omit [PacketUtil] in
/-- A chunk whose hashkey no other one has replaces nothing. -/
theorem Conserved.keeps (h : Conserved H f)
    (hn : (((f.transfer.classes : Multiset StateClass).bind H).map Content.hashkey).Nodup)
    {c : Content} (hc : c ∈ f.states) : f.transfer.Keeps c := by
  intro ref href he
  have hreceived : ref.hashkey ∈ f.received.map Content.hashkey := by
    refine Multiset.mem_of_le h.keys (Multiset.mem_add.mpr (Or.inr ?_))
    exact List.mem_map.mpr ⟨ref, href, rfl⟩
  have hstates : c.hashkey ∈ f.states.map Content.hashkey := Multiset.mem_map_of_mem _ hc
  rw [← h.chunks, Multiset.map_add, Multiset.map_add] at hn
  have hdisjoint := (Multiset.nodup_add.mp (Multiset.nodup_add.mp hn).1).2.2
  exact absurd (he ▸ hreceived) (Multiset.disjoint_left.mp hdisjoint hstates)

end Flow

/-! ## Networks at rest -/

namespace Network

variable {H : StateClass → List StateMessage} {n n' : Network σ Holder} {op : σ}
  {nf : Middlebox → Holder} {as : List (Act ReprocessMessage)}

/-- No command and no message is on the way, and no submitted chunk is waiting. -/
structure Resting (n : Network σ Holder) : Prop where
  wire : ∀ mb, n.wire mb = []
  inFlight : n.inFlight = []
  tasks : chunkTasks (Handlers.base n.op).threadPool = []

/-- Commands are only sent to `src` and to `dst`. -/
theorem Routed.wire_other (hR : Routed H n) {mb : Middlebox} (hsrc : mb ≠ (transfer n.op).src)
    (hdst : mb ≠ (transfer n.op).dst) : n.wire mb = [] := by
  refine List.eq_nil_iff_forall_not_mem.mpr fun cmd hcmd => ?_
  rcases cmd.kind_cases with hget | hput | htoggle
  · exact hsrc (hR.get_at mb cmd hcmd hget)
  · exact hdst (hR.put_at mb cmd hcmd hput)
  · rcases hR.toggle_at mb cmd hcmd htoggle with ⟨he, -⟩ | ⟨he, -⟩
    · exact hsrc he
    · exact hdst he

theorem Routed.resting (hR : Routed H n) (hsrc : n.wire (transfer n.op).src = [])
    (hdst : n.wire (transfer n.op).dst = []) (hin : n.inFlight = [])
    (htasks : chunkTasks (Handlers.base n.op).threadPool = []) : Resting n := by
  refine ⟨fun mb => ?_, hin, htasks⟩
  by_cases hs : mb = (transfer n.op).src
  · rw [hs, hsrc]
  by_cases hd : mb = (transfer n.op).dst
  · rw [hd, hdst]
  exact hR.wire_other hs hd

theorem Sound.complete (hn : Sound H n) (hH : Flow.Classed (contentsOf H)) (hrest : Resting n)
    (ha : (transfer n.op).Accounts (puts n.log) (statesIn n.handled) 0) :
    (transfer n.op).Complete := by
  have hasking : n.flow.asking = 0 := by
    show asking (transfer n.op).classes (n.wire (transfer n.op).src) (n.inFlight.count _) = 0
    rw [hrest.wire, hrest.inFlight]
    exact (add_zero _).trans (zero_nsmul _)
  have hanswered : n.flow.answered = 0 := by
    show getAcksIn n.inFlight = 0
    rw [hrest.inFlight]
    rfl
  have hstates : n.flow.states = 0 := by
    show statesIn n.inFlight = 0
    rw [hrest.inFlight]
    rfl
  have hputting : n.flow.putting = 0 := by
    show (putsIn (n.wire (transfer n.op).dst)).map Content.ackKey = 0
    rw [hrest.wire]
    rfl
  have hacking : n.flow.acking = 0 := by
    show putAcksIn n.inFlight = 0
    rw [hrest.inFlight]
    rfl
  have hpool : (transfer n.op).pool = [] := (pool_eq n.op).trans hrest.tasks
  -- All classes are acked, so that held chunks have been put.
  have hacked : (transfer n.op).AllAcked := by
    intro cls hcls
    refine (hn.conserved.getAcked cls).mpr ?_
    have hasks := hn.conserved.asks
    rw [hasking, hanswered, zero_add, zero_add] at hasks
    rw [hasks]
    exact hcls
  have howed : (transfer n.op).owed = [] := by
    rw [Transfer.owed, hpool, List.nil_append]
    cases hh : (transfer n.op).holds with
    | false => rw [show (transfer n.op).list = [] from hn.conserved.unheld hh, ite_self]
    | true => rw [if_pos ⟨hh, hacked⟩]
  rw [Transfer.Accounts, Transfer.owing_eq howed, List.map_nil, List.sum_nil, add_zero, add_zero]
    at ha
  exact hn.conserved.complete hH ha hasking hanswered hstates hputting hacking

/-- Chunks with hashkeys of their own do not replace each other. -/
theorem keepsChunks_along (hop : Fresh op) (hnf : ∀ mb, (nf mb).raises = false)
    (hne : (transfer op).ordered = true → (transfer op).src ≠ (transfer op).dst)
    (hnodup : ((((transfer op).classes : Multiset StateClass).bind
      (contentsOf (nf (transfer op).src).held)).map Content.hashkey).Nodup) :
    Machine.Along step KeepsChunks (start op nf : Network σ Holder) as := by
  intro pre a suf t he ht
  cases a with
  | deliver sched i =>
      intro source msg hi
      obtain ⟨hsound, hargs⟩ := sound_run hop hnf hne ht
      refine hsound.conserved.keeps ?_ (mem_statesIn (List.mem_of_getElem? hi))
      rw [show t.flow.transfer.classes = _ from hargs.classes]
      exact hnodup
  | _ => trivial

/-- Without an order of its own, a transfer that holds nothing back takes every chunk in time. -/
theorem arrivesInTime_of_unheld (hh : (transfer op).holds = false)
    (hop : Fresh op) (hnf : ∀ mb, (nf mb).raises = false)
    (hne : (transfer op).ordered = true → (transfer op).src ≠ (transfer op).dst) :
    Machine.Along step ArrivesInTime (start op nf : Network σ Holder) as := by
  intro pre a suf t he ht
  cases a with
  | deliver sched i =>
      intro source msg hi hrel
      have hholds := hrel.1
      rw [(sound_run hop hnf hne ht).2.holds, hh] at hholds
      cases hholds
  | _ => trivial

end Network

end OFM.Controller
