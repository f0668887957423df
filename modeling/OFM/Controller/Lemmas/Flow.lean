import OFM.Controller.Flow
import OFM.Controller.Lemmas.Transfer

/-!
# What a transfer conserves

The laws of conservation hold after every step, and what they say of a transfer that is complete.
-/

namespace OFM.Controller.Flow

@[simp] theorem ackKeys_add (put put' : Multiset (Middlebox × Content)) :
    ackKeys (put + put') = ackKeys put + ackKeys put' := Multiset.map_add _ _ _

@[simp] theorem ackKeys_zero : ackKeys 0 = 0 := rfl

@[simp] theorem hashkeys_add (put put' : Multiset (Middlebox × Content)) :
    hashkeys (put + put') = hashkeys put + hashkeys put' := Multiset.map_add _ _ _

@[simp] theorem hashkeys_zero : hashkeys 0 = 0 := rfl

/-- Chunks that are stored put what their references say. -/
theorem hashkeys_stored {t : Transfer} {refs : List ChunkRef} (h : ∀ ref ∈ refs, ∃ c : Content,
    c.hashkey = ref.hashkey ∧ c.cls ∈ t.classes ∧ t.store ref = {(t.dst, c)}) :
    hashkeys (refs.map t.store).sum = refs.map ChunkRef.hashkey := by
  induction refs with
  | nil => rfl
  | cons ref refs ih =>
      obtain ⟨c, hc, -, hs⟩ := h ref List.mem_cons_self
      rw [List.map_cons, List.sum_cons, hashkeys_add,
        ih fun ref hm => h ref (List.mem_cons_of_mem _ hm), hs, List.map_cons, ← hc]
      rfl

theorem mem_sum_stored {t : Transfer} {refs : List ChunkRef} (h : ∀ ref ∈ refs, ∃ c : Content,
    c.hashkey = ref.hashkey ∧ c.cls ∈ t.classes ∧ t.store ref = {(t.dst, c)})
    {x : Middlebox × Content} (hx : x ∈ (refs.map t.store).sum) :
    x.1 = t.dst ∧ x.2.cls ∈ t.classes := by
  induction refs with
  | nil => exact absurd hx (Multiset.notMem_zero x)
  | cons ref refs ih =>
      rw [List.map_cons, List.sum_cons] at hx
      rcases Multiset.mem_add.mp hx with hx | hx
      · obtain ⟨c, -, hcls, hs⟩ := h ref List.mem_cons_self
        rw [hs, Multiset.mem_singleton] at hx
        rw [hx]
        exact ⟨rfl, hcls⟩
      · exact ih (fun ref hm => h ref (List.mem_cons_of_mem _ hm)) hx

namespace Conserved

variable {H : StateClass → Multiset Content} {f f' : Flow} {act : Act}

theorem mem_classes (h : Conserved H f) {cls : StateClass}
    (hm : cls ∈ f.asking + f.answered + f.counted) : cls ∈ f.transfer.classes := by
  rw [h.asks] at hm
  exact hm

theorem cls_mem (h : Conserved H f) (hH : Classed H) {c : Content}
    (hm : c ∈ f.states + f.received) : c.cls ∈ f.transfer.classes := by
  have hc : c ∈ (f.transfer.classes : Multiset StateClass).bind H := by
    rw [← h.chunks]
    exact Multiset.mem_add.mpr (Or.inl hm)
  obtain ⟨cls, hcls, hc⟩ := Multiset.mem_bind.mp hc
  rw [hH cls c hc]
  exact hcls

/-- A class is answered and get-acked once. -/
theorem not_counted (h : Conserved H f) {cls : StateClass} (hm : cls ∈ f.asking + f.answered) :
    f.transfer.counters.getAcked cls = false := by
  rw [Bool.eq_false_iff, Ne, h.getAcked cls]
  intro hc
  have hn : (f.asking + f.answered + f.counted).Nodup := by rw [h.asks]; exact h.nodup
  exact Multiset.disjoint_left.mp (Multiset.nodup_add.mp hn).2.2 hm hc

theorem answer (h : Conserved H f) {cls : StateClass} {asking : Multiset StateClass}
    (hcls : f.asking = cls ::ₘ asking) : Conserved H { f with
      asking := asking
      answered := f.answered + {cls}
      states := f.states + H cls } where
  nodup := h.nodup
  asks := by
    have ha := h.asks
    rw [hcls, ← Multiset.singleton_add] at ha
    rw [← ha]
    dsimp only
    ac_rfl
  chunks := by
    have hc := h.chunks
    rw [hcls, Multiset.cons_bind] at hc
    rw [← hc]
    dsimp only
    ac_rfl
  acks := h.acks
  getAcked := h.getAcked
  getCount := h.getCount
  putAcks := h.putAcks
  put_dst := h.put_dst
  stored := h.stored
  keys := h.keys
  held := h.held
  unheld := h.unheld

theorem take (h : Conserved H f) (hH : Classed H) {c : Content} {states : Multiset Content}
    {t : Transfer} {p : Multiset (Middlebox × Content)} (hc : f.states = c ::ₘ states)
    (ht : f.transfer.Takes c t p) : Conserved H { f with
      transfer := t
      states := states
      received := f.received + {c}
      put := f.put + p
      putting := f.putting + ackKeys p } := by
  have hcls : c.cls ∈ f.transfer.classes := by
    refine h.cls_mem hH (Multiset.mem_add.mpr (Or.inl ?_))
    rw [hc]
    exact Multiset.mem_cons_self c states
  have hchunks : states + (f.received + {c}) + f.asking.bind H =
      (f.transfer.classes : Multiset StateClass).bind H := by
    rw [← h.chunks, hc, ← Multiset.singleton_add]
    ac_rfl
  have hacks : f.putting + ackKeys p + f.acking + f.acked = ackKeys (f.put + p) := by
    rw [ackKeys_add, ← h.acks]
    ac_rfl
  have hreceived : (f.received + {c}).map Content.hashkey =
      f.received.map Content.hashkey + {c.hashkey} := Multiset.map_add _ _ _
  -- A reference that is given the chunk now puts the chunk, and the others what they did.
  have hstored : ∀ ref : ChunkRef, ref.hashkey = c.hashkey →
      ∀ ref', (∃ c : Content, c.hashkey = ref'.hashkey ∧ c.cls ∈ f.transfer.classes ∧
        f.transfer.store ref' = {(f.transfer.dst, c)}) ∨ ref' = ref →
      ∃ c' : Content, c'.hashkey = ref'.hashkey ∧ c'.cls ∈ f.transfer.classes ∧
        Function.update f.transfer.store ref {(f.transfer.dst, c)} ref' =
          {(f.transfer.dst, c')} := by
    intro ref href ref' hold
    by_cases he : ref' = ref
    · subst he
      exact ⟨c, href.symm, hcls, Function.update_self _ _ _⟩
    · rw [Function.update_of_ne he]
      exact hold.resolve_right he
  have hsame : Conserved H f → ∀ x ∈ f.put + 0, x.1 = f.transfer.dst ∧
      x.2.cls ∈ f.transfer.classes := fun h x hx => h.put_dst x (by simpa using hx)
  cases ht with
  | put hh =>
      refine ⟨h.nodup, h.asks, hchunks, hacks, h.getAcked, h.getCount, h.putAcks, ?_, h.stored, ?_,
        fun hh' => absurd hh' (by simp [hh]), h.unheld⟩
      · intro x hx
        rcases Multiset.mem_add.mp hx with hx | hx
        · exact h.put_dst x hx
        · rw [Multiset.mem_singleton.mp hx]
          exact ⟨rfl, hcls⟩
      · calc hashkeys (f.put + {(f.transfer.dst, c)}) + f.transfer.owed.map ChunkRef.hashkey
            = hashkeys f.put + f.transfer.owed.map ChunkRef.hashkey + {c.hashkey} := by
              rw [hashkeys_add]
              exact add_right_comm _ _ _
          _ ≤ (f.received + {c}).map Content.hashkey := by
              rw [hreceived]
              exact Multiset.add_le_add_right h.keys
  | @submit ref href hh =>
      refine ⟨h.nodup, h.asks, hchunks, hacks, h.getAcked, h.getCount, h.putAcks, hsame h, ?_, ?_,
        fun hh' => absurd hh' (by simp [hh]), h.unheld⟩
      · intro ref' hm
        refine hstored ref href ref' ?_
        simp only [List.mem_append, List.mem_singleton] at hm
        rcases hm with (hm | hm) | hm
        · exact Or.inl (h.stored ref' (List.mem_append_left _ hm))
        · exact Or.inr hm
        · exact Or.inl (h.stored ref' (List.mem_append_right _ hm))
      · have hkeys := h.keys
        simp only [Transfer.owed, h.unheld hh, ite_self, List.append_nil, add_zero] at hkeys ⊢
        rw [hreceived, List.map_append, ← Multiset.coe_add, ← add_assoc, List.map_singleton, href]
        exact Multiset.add_le_add_right hkeys
  | @hold ref href hh =>
      refine ⟨h.nodup, h.asks, hchunks, hacks, h.getAcked, h.getCount, h.putAcks, hsame h, ?_, ?_,
        fun hh' ha => ?_, fun hh' => absurd hh' (by simp [hh])⟩
      · intro ref' hm
        refine hstored ref href ref' ?_
        simp only [List.mem_append, List.mem_singleton] at hm
        rcases hm with hm | hm | hm
        · exact Or.inl (h.stored ref' (List.mem_append_left _ hm))
        · exact Or.inl (h.stored ref' (List.mem_append_right _ hm))
        · exact Or.inr hm
      · have hkeys := h.keys
        by_cases hr : f.transfer.Released
        · have hr' : ∀ l, ({ f.transfer with
              store := Function.update f.transfer.store ref {(f.transfer.dst, c)}
              list := l } : Transfer).Released := fun _ => hr
          simp only [Transfer.owed, if_pos hr, if_pos (hr' _), add_zero] at hkeys ⊢
          rw [hreceived]
          exact hkeys.trans (Multiset.le_add_right _ _)
        · have hr' : ∀ l, ¬ ({ f.transfer with
              store := Function.update f.transfer.store ref {(f.transfer.dst, c)}
              list := l } : Transfer).Released := fun _ => hr
          simp only [Transfer.owed, if_neg hr, if_neg (hr' _), add_zero] at hkeys ⊢
          rw [hreceived, ← List.append_assoc, List.map_append, ← Multiset.coe_add,
            ← add_assoc, List.map_singleton, href]
          exact Multiset.add_le_add_right hkeys
      · obtain ⟨hput, hpool⟩ := h.held hh' ha
        exact ⟨by rw [hput]; rfl, hpool⟩

theorem read (h : Conserved H f) {key : StateClass × Int} {putting : Multiset (StateClass × Int)}
    (hkey : f.putting = key ::ₘ putting) : Conserved H { f with
      putting := putting
      acking := f.acking + {key} } where
  nodup := h.nodup
  asks := h.asks
  chunks := h.chunks
  acks := by
    have ha := h.acks
    rw [hkey, ← Multiset.singleton_add] at ha
    rw [← ha]
    dsimp only
    ac_rfl
  getAcked := h.getAcked
  getCount := h.getCount
  putAcks := h.putAcks
  put_dst := h.put_dst
  stored := h.stored
  keys := h.keys
  held := h.held
  unheld := h.unheld

theorem ack (h : Conserved H f) {key : StateClass × Int} {acking : Multiset (StateClass × Int)}
    (hkey : f.acking = key ::ₘ acking) : Conserved H { f with
      transfer := { f.transfer with counters := f.transfer.counters.recordPutAck key.1 }
      acking := acking
      acked := f.acked + {key} } where
  nodup := h.nodup
  asks := h.asks
  chunks := h.chunks
  acks := by
    have ha := h.acks
    rw [hkey, ← Multiset.singleton_add] at ha
    rw [← ha]
    dsimp only
    ac_rfl
  getAcked := h.getAcked
  getCount := h.getCount
  putAcks := by
    intro cls
    have hp := h.putAcks cls
    have hone : Multiset.countP (fun k : StateClass × Int => k.1 = cls) {key} =
        if key.1 = cls then 1 else 0 := by
      rw [← Multiset.cons_zero, Multiset.countP_cons, Multiset.countP_zero, zero_add]
    dsimp only
    rw [Multiset.countP_add, ← hp, Counters.recordPutAck_putAcks, hone]
    by_cases hc : cls = key.1
    · subst hc
      simp
    · rw [Function.update_of_ne hc, if_neg (Ne.symm hc), add_zero]
  put_dst := h.put_dst
  stored := h.stored
  keys := h.keys
  held := h.held
  unheld := h.unheld

theorem task (h : Conserved H f) {ref : ChunkRef} {pool₁ pool₂ : List ChunkRef}
    (hpool : f.transfer.pool = pool₁ ++ ref :: pool₂) : Conserved H { f with
      transfer := { f.transfer with pool := pool₁ ++ pool₂ }
      put := f.put + f.transfer.store ref
      putting := f.putting + ackKeys (f.transfer.store ref) } := by
  obtain ⟨c, hc, hcls, hs⟩ := h.stored ref (by rw [hpool]; simp)
  refine ⟨h.nodup, h.asks, h.chunks, ?_, h.getAcked, h.getCount, h.putAcks, ?_, ?_, ?_,
    fun hh ha => ?_, h.unheld⟩
  · dsimp only
    rw [ackKeys_add, ← h.acks]
    ac_rfl
  · intro x hx
    rcases Multiset.mem_add.mp hx with hx | hx
    · exact h.put_dst x hx
    · rw [hs, Multiset.mem_singleton] at hx
      rw [hx]
      exact ⟨rfl, hcls⟩
  · intro ref' hm
    refine h.stored ref' ?_
    rw [hpool]
    simp only [List.mem_append, List.mem_cons] at hm ⊢
    tauto
  · have hkeys := h.keys
    have howed : ((f.transfer.owed.map ChunkRef.hashkey : List Int) : Multiset Int) = {c.hashkey} +
        (({ f.transfer with pool := pool₁ ++ pool₂ } : Transfer).owed.map ChunkRef.hashkey :
          List Int) := by
      rw [Multiset.singleton_add, Multiset.cons_coe, Multiset.coe_eq_coe, hc]
      simp only [Transfer.owed, hpool, List.append_assoc, List.cons_append, List.map_append,
        List.map_cons]
      exact List.perm_middle
    rw [howed] at hkeys
    dsimp only
    rw [hashkeys_add, hs, add_assoc]
    exact hkeys
  · rw [(h.held hh ha).2] at hpool
    simp at hpool

/-- The get-ack that completes the get-acks releases what is held. -/
theorem count (h : Conserved H f) {cls : StateClass} {answered : Multiset StateClass}
    {t : Transfer} {p : Multiset (Middlebox × Content)} (hcls : f.answered = cls ::ₘ answered)
    (ht : t = { f.transfer with
      counters := f.transfer.counters.recordGetAck cls (H cls).card })
    (hp : p = if t.Released then (f.transfer.list.map f.transfer.store).sum else 0) :
    Conserved H { f with
      transfer := t
      answered := answered
      counted := f.counted + {cls}
      put := f.put + p
      putting := f.putting + ackKeys p } := by
  have hm : cls ∈ f.asking + f.answered := by
    rw [hcls]
    exact Multiset.mem_add.mpr (Or.inr (Multiset.mem_cons_self cls answered))
  have hmem : cls ∈ f.transfer.classes := h.mem_classes (Multiset.mem_add.mpr (Or.inl hm))
  have hbefore : ¬ f.transfer.AllAcked := fun ha => by
    have hc : f.transfer.counters.getAcked cls = true := ha cls hmem
    rw [h.not_counted hm] at hc
    cases hc
  have hkeys := h.keys
  have howed : f.transfer.owed = f.transfer.pool ++ f.transfer.list := by
    rw [Transfer.owed, if_neg fun hr => hbefore hr.2]
  have hfields : t.classes = f.transfer.classes ∧ t.dst = f.transfer.dst ∧
      t.pool = f.transfer.pool ∧ t.list = f.transfer.list ∧ t.store = f.transfer.store ∧
      t.holds = f.transfer.holds := by
    rw [ht]
    exact ⟨rfl, rfl, rfl, rfl, rfl, rfl⟩
  obtain ⟨hclasses, hdst, hpool, hlist, hstore, hholds⟩ := hfields
  have hlisted : ∀ ref ∈ f.transfer.list, ∃ c : Content, c.hashkey = ref.hashkey ∧
      c.cls ∈ f.transfer.classes ∧ f.transfer.store ref = {(f.transfer.dst, c)} :=
    fun ref hm => h.stored ref (List.mem_append_right _ hm)
  refine ⟨?_, ?_, ?_, ?_, ?_, ?_, ?_, ?_, ?_, ?_, ?_, ?_⟩
  · rw [hclasses]
    exact h.nodup
  · have ha := h.asks
    rw [hcls, ← Multiset.singleton_add] at ha
    dsimp only
    rw [hclasses, ← ha]
    ac_rfl
  · dsimp only
    rw [hclasses]
    exact h.chunks
  · dsimp only
    rw [ackKeys_add, ← h.acks]
    ac_rfl
  · intro cls'
    dsimp only
    rw [Multiset.mem_add, Multiset.mem_singleton, ← h.getAcked, ht, Counters.recordGetAck_getAcked]
    by_cases he : cls' = cls
    · simp [he]
    · simp [he]
  · intro cls' hc
    dsimp only
    rw [ht, Counters.recordGetAck_getCount]
    by_cases he : cls' = cls
    · rw [he, Function.update_self]
    · rw [Function.update_of_ne he]
      refine h.getCount cls' ?_
      rcases Multiset.mem_add.mp hc with hc | hc
      · exact hc
      · exact absurd (Multiset.mem_singleton.mp hc) he
  · intro cls'
    dsimp only
    rw [ht, Counters.recordGetAck_putAcks]
    exact h.putAcks cls'
  · intro x hx
    dsimp only
    rw [hclasses, hdst]
    rcases Multiset.mem_add.mp hx with hx | hx
    · exact h.put_dst x hx
    · rw [hp] at hx
      split at hx
      · exact mem_sum_stored hlisted hx
      · exact absurd hx (Multiset.notMem_zero x)
  · dsimp only
    rw [hpool, hlist, hstore, hclasses, hdst]
    exact h.stored
  · dsimp only
    rw [howed, List.map_append, ← Multiset.coe_add] at hkeys
    rw [hp, Transfer.owed, hpool, hlist]
    split
    · rw [hashkeys_add, hashkeys_stored hlisted, List.append_nil, add_assoc]
      rw [add_comm (f.transfer.pool.map ChunkRef.hashkey : Multiset Int)] at hkeys
      exact hkeys
    · rw [add_zero, List.map_append, ← Multiset.coe_add]
      exact hkeys
  · intro hh ha
    obtain ⟨hput, hpool'⟩ := h.held (hholds ▸ hh) hbefore
    have hrel : ¬ t.Released := fun hr => ha hr.2
    refine ⟨?_, hpool.trans hpool'⟩
    dsimp only
    rw [hput, hp, if_neg hrel]
    rfl
  · intro hh
    exact hlist.trans (h.unheld (hholds ▸ hh))

/-- Every step conserves what is conserved. -/
theorem step (h : Conserved H f) (hH : Classed H) (hs : Step H f act f') : Conserved H f' := by
  cases hs with
  | idle => exact h
  | answer hcls => exact h.answer hcls
  | take hc ht => exact h.take hH hc ht
  | count hcls ht hp => exact h.count hcls ht hp
  | read hkey => exact h.read hkey
  | ack hkey => exact h.ack hkey
  | task hpool => exact h.task hpool

/-! ## Transfers that are complete -/

theorem card_acked (h : Conserved H f) : f.acked.card =
    (f.transfer.classes.map f.transfer.counters.putAcks).sum := by
  have hcls : ∀ cls ∈ f.acked.map Prod.fst, cls ∈ f.transfer.classes.toFinset := by
    intro cls hm
    obtain ⟨key, hkey, rfl⟩ := Multiset.mem_map.mp hm
    have hkey' : key ∈ ackKeys f.put := by
      rw [← h.acks]
      exact Multiset.mem_add.mpr (Or.inr hkey)
    obtain ⟨x, hx, rfl⟩ := Multiset.mem_map.mp hkey'
    exact List.mem_toFinset.mpr (h.put_dst x hx).2
  rw [← Multiset.card_map Prod.fst, ← Multiset.sum_count_eq_card hcls,
    List.sum_toFinset _ h.nodup]
  refine congrArg List.sum (List.map_congr_left fun cls _ => ?_)
  rw [h.putAcks cls, Multiset.count, Multiset.countP_map, Multiset.countP_eq_card_filter]
  simp only [eq_comm]

/-- A transfer is complete only when nothing of it is on the way. -/
theorem settled (h : Conserved H f) (hc : f.transfer.Complete) : Settled H f := by
  have hcounted : ∀ cls ∈ f.transfer.classes, cls ∈ f.counted := fun cls hm =>
    (h.getAcked cls).mp (hc cls hm).1
  have hle : (f.transfer.classes : Multiset StateClass) ≤ f.counted :=
    (Multiset.le_iff_subset (Multiset.coe_nodup.mpr h.nodup)).mpr hcounted
  have hasks : f.asking.card + f.answered.card = 0 := by
    have hcard := Multiset.card_le_card (h.asks.le.trans hle)
    rw [Multiset.card_add, Multiset.card_add] at hcard
    omega
  have hasking : f.asking = 0 := Multiset.card_eq_zero.mp (by omega)
  have hchunks := h.chunks
  rw [hasking, Multiset.zero_bind, add_zero] at hchunks
  -- As many chunks are acked as there are; and a chunk is put before it is acked.
  have hacked : f.acked.card = f.states.card + f.received.card := by
    rw [h.card_acked, ← Multiset.card_add, hchunks, Multiset.card_bind, Multiset.map_coe,
      Multiset.sum_coe]
    refine congrArg List.sum (List.map_congr_left fun cls hm => ?_)
    have hdone := (hc cls hm).2
    rw [h.getCount cls (hcounted cls hm)] at hdone
    exact_mod_cast hdone
  have hput : f.putting.card + f.acking.card + f.acked.card = f.put.card := by
    have ha := congrArg Multiset.card h.acks
    rwa [Multiset.card_add, Multiset.card_add, ackKeys, Multiset.card_map] at ha
  have hkeys : f.put.card + f.transfer.owed.length ≤ f.received.card := by
    have hk := Multiset.card_le_card h.keys
    rwa [Multiset.card_add, hashkeys, Multiset.card_map, Multiset.coe_card, List.length_map,
      Multiset.card_map] at hk
  have hstates : f.states = 0 := Multiset.card_eq_zero.mp (by omega)
  have hputting : f.putting = 0 := Multiset.card_eq_zero.mp (by omega)
  have hacking : f.acking = 0 := Multiset.card_eq_zero.mp (by omega)
  have howed : f.transfer.owed = [] := List.eq_nil_of_length_eq_zero (by omega)
  refine ⟨hasking, Multiset.card_eq_zero.mp (by omega), hstates, ?_, hputting, hacking, ?_, howed, ?_⟩
  · rw [← hchunks, hstates, zero_add]
  · rw [← h.acks, hputting, hacking, zero_add, zero_add]
  · refine Multiset.eq_of_le_of_card_le ((Multiset.le_add_right _ _).trans h.keys) ?_
    rw [hashkeys, Multiset.card_map, Multiset.card_map]
    omega

end Conserved

/-! ## Chunks as they are -/

/-- The chunks on the way are of classes that have not been get-acked. -/
def InTime (f : Flow) : Prop := ∀ c ∈ f.states, f.transfer.counters.getAcked c.cls = false

variable {H : StateClass → Multiset Content} {f f' : Flow} {act : Act}
  {late : Multiset (Middlebox × Content)}

theorem accounts_step (ha : f.transfer.Accounts f.put f.received late) (h : Conserved H f)
    (hs : Step H f act f') (hk : act.Keeps f) :
    ∃ late', f'.transfer.Accounts f'.put f'.received late' ∧
      ((∀ c, act = .take c → ¬ f.transfer.Released) → late' = late) := by
  cases hs with
  | idle => exact ⟨late, ha, fun _ => rfl⟩
  | answer hcls => exact ⟨late, ha, fun _ => rfl⟩
  | read hkey => exact ⟨late, ha, fun _ => rfl⟩
  | ack hkey => exact ⟨late, ha, fun _ => rfl⟩
  | @take c states t p hc ht =>
      obtain ⟨late', ha', hlate⟩ := ha.take h.unheld hk ht
      exact ⟨late', ha', fun hi => hlate (hi c rfl)⟩
  | @count cls answered t p hcls ht hp =>
      have hm : cls ∈ f.asking + f.answered := by
        rw [hcls]
        exact Multiset.mem_add.mpr (Or.inr (Multiset.mem_cons_self cls answered))
      have hbefore : ¬ f.transfer.Released := fun hr => by
        have hacked := hr.2 cls (h.mem_classes (Multiset.mem_add.mpr (Or.inl hm)))
        rw [h.not_counted hm] at hacked
        cases hacked
      subst ht
      exact ⟨late, ha.count hbefore hp, fun _ => rfl⟩
  | task hpool => exact ⟨late, ha.task hpool, fun _ => rfl⟩

/-- A get-ack that comes last leaves the chunks on the way in time. -/
theorem InTime.step (hi : InTime f) (h : Conserved H f) (hH : Classed H) (hs : Step H f act f')
    (hk : act.CountsLast f) : InTime f' := by
  cases hs with
  | idle => exact hi
  | read hkey => exact hi
  | ack hkey => exact hi
  | task hpool => exact hi
  | @answer cls asking hcls =>
      intro c hc
      rcases Multiset.mem_add.mp hc with hc | hc
      · exact hi c hc
      · rw [hH cls c hc]
        refine h.not_counted (Multiset.mem_add.mpr (Or.inl ?_))
        rw [hcls]
        exact Multiset.mem_cons_self cls asking
  | @take c states t p hc ht =>
      intro c' hm
      have hsame : t.counters = f.transfer.counters := by cases ht <;> rfl
      dsimp only
      rw [hsame]
      refine hi c' ?_
      rw [hc]
      exact Multiset.mem_cons_of_mem hm
  | @count cls answered t p hcls ht hp =>
      intro c hc
      dsimp only
      rw [ht, Counters.recordGetAck_getAcked, Function.update_of_ne (hk c hc)]
      exact hi c hc

end OFM.Controller.Flow
