import OFM.Controller.Lemmas.TransferChunks
import OFM.Controller.Lemmas.TransferCopy
import OFM.Controller.Lemmas.TransferMove
import OFM.Controller.Theorems.Chunks
import OFM.Controller.Theorems.RouteUpdate

/-!
# When an operation finishes

Over all runs of a network of an operation and its instances: `finish` is called once at most, and only
when all requested chunks have been put and acked.
-/

namespace OFM.Controller
open OFM.Lib TransferOperation

variable [PacketUtil] {σ : Type} [TransferOperation σ] {op : σ}

namespace Network

variable {nf : Middlebox → Holder} {n : Network σ Holder} {as : List (Act ReprocessMessage)}

instance (n : Network σ Holder) : (a : Act ReprocessMessage) → Decidable (KeepsChunks n a)
  | .deliver _ i =>
      match h : n.inFlight[i]? with
      | some (source, .state msg) =>
          decidable_of_iff ((transfer n.op).Keeps msg.content) (by simp [KeepsChunks, h])
      | some (_, .getAck _ _) | some (_, .putAck _ _) | some (_, .eventsAck)
      | some (_, .reprocess _) | none => isTrue (by simp [KeepsChunks, h])
  | .read _ | .stimulus .. | .forward _ | .packetIn .. | .task _ => isTrue trivial

/-- All requested chunks have been put to `dst` and acked, each of them once. -/
structure AllMoved (H : StateClass → List StateMessage) (n : Network σ Holder) : Prop where
  getAcked : ∀ cls ∈ (transfer n.op).classes, ∃ count,
    ((transfer n.op).src, .getAck cls count) ∈ n.handled
  put : puts n.log = ((transfer n.op).classes.flatMap fun cls =>
    (H cls).map fun msg => ((transfer n.op).dst, msg.content) : List (Middlebox × Content))
  putAcked : putAcksIn n.handled = (puts n.log).map fun x => x.2.ackKey
  acked_by : ∀ source cls hashkey, (source, .putAck cls hashkey) ∈ n.handled →
    source = (transfer n.op).dst

/-- In states where the operation has called `finish`, it has done so once and all chunks have been
moved. -/
def FinishesSound (H : StateClass → List StateMessage) (n : Network σ Holder) : Prop :=
  n.log.count .operationFinished ≤ 1 ∧ (.operationFinished ∈ n.log → AllMoved H n)

theorem allMoved (hop : Fresh op) (hnf : ∀ mb, (nf mb).raises = false)
    (hord : (transfer op).ordered = false)
    (hk : Machine.Along step KeepsChunks (start op nf : Network σ Holder) as)
    (hr : Machine.run step (start op nf) as = some n) (hc : (transfer n.op).Complete) :
    AllMoved (nf (transfer op).src).held n := by
  have hne : (transfer op).ordered = true → (transfer op).src ≠ (transfer op).dst := by
    rw [hord]
    exact fun h => by cases h
  obtain ⟨hsound, -⟩ := sound_run hop hnf hne hr
  have hchannels := channels_run hop hnf hne hr
  have hsettled := hsound.conserved.settled hc
  refine ⟨fun cls hcls => ?_, ?_, hsettled.acked, fun source cls hashkey hm => ?_⟩
  · have hcounted : cls ∈ getAcksIn n.handled :=
      (hsound.conserved.getAcked cls).mp (hc cls hcls).1
    obtain ⟨⟨source, msg⟩, hm, hmsg⟩ := List.mem_filterMap.mp (Multiset.mem_coe.mp hcounted)
    cases msg <;> cases hmsg
    rename_i count
    have hsource : source = (transfer n.op).src :=
      hchannels.from_src _ (List.mem_append_right _ hm) (Or.inr (by simp [Message.getAckClass]))
    exact ⟨count, hsource ▸ hm⟩
  · obtain ⟨late, haccounts, -⟩ := accounts_run hop hnf hne hk hr
    have howing : (transfer n.op).owing = 0 := Transfer.owing_eq hsettled.owed
    have hcard : (puts n.log).card = (statesIn n.handled).card := by
      have hkeys := congrArg Multiset.card hsettled.keys
      rwa [Flow.hashkeys, Multiset.card_map, Multiset.card_map] at hkeys
    -- As many are put as are received, so that none came late.
    have hlate : late = 0 := by
      have hall := congrArg Multiset.card haccounts
      rw [howing, add_zero, Multiset.card_add, Multiset.card_map, hcard] at hall
      exact Multiset.card_eq_zero.mp (by omega)
    rw [Transfer.Accounts, howing, hlate, add_zero, add_zero] at haccounts
    have hreceived : statesIn n.handled = _ := hsettled.received
    rw [haccounts, hreceived]
    show (((transfer n.op).classes : Multiset StateClass).bind _).map _ = _
    rw [Multiset.map_bind, ← Multiset.coe_bind]
    refine Multiset.bind_congr fun cls _ => ?_
    simp only [contentsOf, Multiset.map_coe, List.map_map]
    rfl
  · exact hchannels.from_dst _ (List.mem_append_right _ hm) (by simp [Message.putAckKey])

theorem finishesSound (hop : Fresh op) (hnf : ∀ mb, (nf mb).raises = false)
    (hord : (transfer op).ordered = false)
    (hk : Machine.Along step KeepsChunks (start op nf : Network σ Holder) as)
    (hr : Machine.run step (start op nf) as = some n) :
    FinishesSound (nf (transfer op).src).held n :=
  have hfinishes := finishes_run hop hnf hord hr
  ⟨hfinishes.count, fun hm => allMoved hop hnf hord hk hr (hfinishes.complete hm)⟩

end Network

/-! ## Copies, moves of configuration, and moves -/

/-- In every run in which no chunk replaces another one that is still to be put. -/
def FinishSound (op : σ) : Prop :=
  ∀ (nf : Middlebox → Holder) as n, (∀ mb, (nf mb).raises = false) →
    Machine.Along Network.step Network.KeepsChunks (Network.start op nf) as →
    Machine.run Network.step (Network.start op nf) as = some n →
    Network.FinishesSound (nf (transfer op).src).held n

/-- In every run. -/
def FinishAlwaysSound (op : σ) : Prop :=
  ∀ (nf : Middlebox → Holder) as n, (∀ mb, (nf mb).raises = false) →
    Machine.run Network.step (Network.start op nf) as = some n →
    Network.FinishesSound (nf (transfer op).src).held n

theorem MoveConfigOperation.threadPool_step {s s' : Session MoveConfigOperation} {input : Input}
    (h : s.op.threadPool = []) (hs : s.step input = some s') : s'.op.threadPool = [] := by
  cases input with
  | message sched source msg =>
      rcases Session.step_message hs with ⟨-, rfl⟩ | ⟨-, rfl⟩
      · exact h
      have hcheck : ∀ op : MoveConfigOperation, op.threadPool = [] →
          op.checkIfFinished.val.threadPool = [] := by
        intro op hpool
        rcases op.checkIfFinished_cases with ⟨-, he⟩ | ⟨-, he⟩ <;> rw [he] <;> exact hpool
      show (receive msg s.op).val.threadPool = []
      cases msg with
      | state msg => cases msg <;> exact h
      | getAck cls count =>
          cases cls with
          | config => exact hcheck _ h
          | _ => exact h
      | putAck cls hashkey =>
          cases cls with
          | config =>
              obtain ⟨chunk, op', -, -, -, rfl, he | ⟨-, e, he⟩⟩ := s.op.receive_putAck_cases hashkey
              · rw [he]
                exact hcheck _ h
              · rw [he]
                exact h
          | _ => exact h
      | eventsAck => exact h
      | reprocess m => exact h
  | packet packet inSwitch inPort =>
      cases Session.step_packet hs
      exact h
  | task i =>
      obtain ⟨task, ht, -⟩ := Session.step_task hs
      rw [show (Handlers.base s.op).threadPool = [] from h] at ht
      cases ht

/-- Configuration is put at once, so that no chunk is ever still to be put. -/
theorem MoveConfigOperation.keepsChunks_along (id : Int) (src dst : Middlebox) (key : PerflowKey)
    (nf : Middlebox → Holder) (as : List (Act ReprocessMessage)) :
    Machine.Along Network.step Network.KeepsChunks
      (Network.start (MoveConfigOperation.new id src dst key) nf) as := by
  intro pre a suf n he hr
  have hpool : n.op.threadPool = [] :=
    Network.session_invariant (I := fun s : Session MoveConfigOperation => s.op.threadPool = []) rfl
      (fun s input s' h hs => threadPool_step h hs) hr
  have howed : n.op.transfer.owed = [] := by
    show chunkTasks n.op.threadPool ++ (if _ then [] else ([] : List ChunkRef)) = []
    rw [hpool, ite_self]
    rfl
  cases a with
  | deliver sched i =>
      intro source msg hm ref href
      have href : ref ∈ n.op.transfer.owed := href
      rw [howed] at href
      exact absurd href List.not_mem_nil
  | _ => trivial

/-- An operation that ends without a route update finishes at most once, and only when each chunk of
the requested classes has been put to `dst` and acked, in every run that replaces no chunk that is
still to be put; a move of configuration, in every run. -/
theorem finish_sound :
    (∀ id args, args.Admitted → args.guarantee ≠ .orderPreserving →
      FinishSound (MoveOperation.new id args)) ∧
    (∀ id src dst key scope, FinishSound (CopyOperation.new id src dst key scope)) ∧
    ∀ id src dst key, FinishAlwaysSound (MoveConfigOperation.new id src dst key) := by
  refine ⟨fun id args hargs hg nf as n hnf hk hr => ?_,
    fun id src dst key scope nf as n hnf hk hr => ?_, fun id src dst key nf as n hnf hr => ?_⟩
  · exact Network.finishesSound (MoveOperation.fresh_new id hargs) hnf (decide_eq_false hg) hk hr
  · exact Network.finishesSound (CopyOperation.fresh_new id src dst key scope) hnf rfl hk hr
  · exact Network.finishesSound (MoveConfigOperation.fresh_new id src dst key) hnf rfl
      (MoveConfigOperation.keepsChunks_along id src dst key nf as) hr

/-- Instances of which `src` holds the messages, and the others nothing. -/
def sampleHolders (held : StateClass → List StateMessage)
    (h : ∀ cls, ∀ msg ∈ held cls, msg.cls = cls) (mb : Middlebox) : Holder :=
  if mb = MoveOperation.sampleSrc then ⟨held, h, false⟩
  else ⟨fun _ => [], fun _ _ hm => absurd hm List.not_mem_nil, false⟩

/-- Per-flow chunks, one for each of the given hashkeys and states. -/
def perflowHolders (chunks : List (Int × UInt16)) : Middlebox → Holder :=
  sampleHolders (fun cls =>
      if cls = .perflow then chunks.map fun c => sampleChunk c.1 c.2 else []) fun cls msg hm => by
    split at hm
    · rename_i hcls
      obtain ⟨c, -, rfl⟩ := List.mem_map.mp hm
      exact hcls.symm
    · exact absurd hm List.not_mem_nil

omit [PacketUtil] in
theorem perflowHolders_raises (chunks : List (Int × UInt16)) (mb : Middlebox) :
    (perflowHolders chunks mb).raises = false := by
  rw [perflowHolders, sampleHolders]
  split <;> rfl

/-- One chunk is got, put and acked. -/
def sampleTransfer : List (Act ReprocessMessage) :=
  [.read MoveOperation.sampleSrc, .deliver .inOrder 0, .deliver .inOrder 0, .task 0,
    .read MoveOperation.sampleDst, .deliver .inOrder 0]

omit [PacketUtil] in
theorem finish_sound_sample :
    letI := plainFrames
    (∃ n, Machine.run Network.step (Network.start
          (MoveOperation.new 1 (MoveOperation.sampleMove .perflow .noGuarantee .pz))
          (perflowHolders [(5, 0x61)])) sampleTransfer = some n ∧
        .operationFinished ∈ n.log ∧
        Network.FinishesSound (perflowHolders [(5, 0x61)] MoveOperation.sampleSrc).held n) ∧
    (∃ n, Machine.run Network.step (Network.start sampleCopy (perflowHolders [(5, 0x61)]))
          sampleTransfer = some n ∧
        .operationFinished ∈ n.log ∧
        Network.FinishesSound (perflowHolders [(5, 0x61)] MoveOperation.sampleSrc).held n) ∧
    ∃ n, Machine.run Network.step (Network.start (MoveConfigOperation.new 1 MoveOperation.sampleSrc
          MoveOperation.sampleDst PerflowKey.new) (perflowHolders []))
          [.read MoveOperation.sampleSrc, .deliver .inOrder 0] = some n ∧
        .operationFinished ∈ n.log ∧
        Network.FinishesSound (perflowHolders [] MoveOperation.sampleSrc).held n := by
  let _ := plainFrames
  have hmove : Machine.Along Network.step Network.KeepsChunks (Network.start
      (MoveOperation.new 1 (MoveOperation.sampleMove .perflow .noGuarantee .pz))
      (perflowHolders [(5, 0x61)])) sampleTransfer := by
    iterate 6
      refine Machine.along_cons.mpr ⟨by decide, ?_⟩
      rintro t ⟨⟩
    exact Machine.along_nil
  have hcopy : Machine.Along Network.step Network.KeepsChunks
      (Network.start sampleCopy (perflowHolders [(5, 0x61)])) sampleTransfer := by
    iterate 6
      refine Machine.along_cons.mpr ⟨by decide, ?_⟩
      rintro t ⟨⟩
    exact Machine.along_nil
  refine ⟨⟨_, rfl, by decide, ?_⟩, ⟨_, rfl, by decide, ?_⟩, ⟨_, rfl, by decide, ?_⟩⟩
  · exact finish_sound.1 1 (MoveOperation.sampleMove .perflow .noGuarantee .pz) (by decide)
      (by decide) _ sampleTransfer _ (perflowHolders_raises _) hmove rfl
  · exact finish_sound.2.1 1 MoveOperation.sampleSrc MoveOperation.sampleDst PerflowKey.new .perflow
      _ sampleTransfer _ (perflowHolders_raises _) hcopy rfl
  · exact finish_sound.2.2 1 MoveOperation.sampleSrc MoveOperation.sampleDst PerflowKey.new _
      [.read MoveOperation.sampleSrc, .deliver .inOrder 0] _ (perflowHolders_raises _) rfl

omit [PacketUtil] in
/-- Two chunks with one hashkey are received before the pool runs: the operation finishes when the
second one has been put twice, and the first one never. -/
theorem finish_without_chunk :
    letI := plainFrames
    ∃ n, Machine.run Network.step
        (Network.start sampleCopy (perflowHolders [(5, 0x61), (5, 0x62)]))
        [.read MoveOperation.sampleSrc, .deliver .inOrder 0, .deliver .inOrder 0,
          .deliver .inOrder 0, .task 0, .task 0, .read MoveOperation.sampleDst,
          .read MoveOperation.sampleDst, .deliver .inOrder 0, .deliver .inOrder 0] = some n ∧
      .operationFinished ∈ n.log ∧
      (MoveOperation.sampleDst, (sampleChunk 5 0x61).content) ∉ puts n.log := by
  let _ := plainFrames
  exact ⟨_, rfl, by decide, by decide⟩

end OFM.Controller
