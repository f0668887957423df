import OFM.Bro.Lemmas.Instance
import OFM.Bro.Theorems.KeySelection
import Mathlib.Data.List.Pairwise

/-!
# What a get that fails leaves behind

A connection whose state is not had keeps its mark and its lock.
-/

namespace OFM.Bro
open OFM.Lib OFM.Shared

variable [TextArchive] {input : GetInput}

/-! ## One loop -/

omit [TextArchive] in
/-- A lock that is held stays held, and where it is free in the end nothing was wrong with a connection that
passes the checks. Other connections are left alone. -/
structure LocksKept (input : GetInput) (conns : List Pointer) (s s' : NetSessions) : Prop where
  others : ∀ p, p ∉ conns → s'.heap p = s.heap p
  held : ∀ p, (s.heap p).lock = true → (s'.heap p).lock = true
  sendable : ∀ p ∈ conns, input.selects (s.heap p) = true → (s'.heap p).lock = false →
    Sendable input p (s.heap p)

omit [TextArchive] in
theorem GetInput.lock_take (input : GetInput) (c : Connection) : (input.take c).lock = c.lock := by
  rw [take]
  split <;> rfl

omit [TextArchive] in
theorem LocksKept.cons {p : Pointer} {rest : List Pointer} {s s₁ s' : NetSessions}
    (h : LocksKept input rest s₁ s') (hp : p ∉ rest) (hheap : ∀ q ≠ p, s₁.heap q = s.heap q)
    (hheld : (s.heap p).lock = true → (s₁.heap p).lock = true)
    (hhere : input.selects (s.heap p) = true → (s₁.heap p).lock = false → Sendable input p (s.heap p)) :
    LocksKept input (p :: rest) s s' := by
  constructor
  · intro q hq
    rw [List.mem_cons, not_or] at hq
    obtain ⟨hne, hq⟩ := hq
    exact (h.others q hq).trans (hheap q hne)
  · intro q hq
    by_cases he : q = p
    · subst he
      exact h.held q (hheld hq)
    · rw [← hheap q he] at hq
      exact h.held q hq
  · intro q hq hsel hfree
    rcases List.mem_cons.mp hq with rfl | hq
    · refine hhere hsel (Bool.eq_false_iff.mpr fun hlock => ?_)
      rw [h.held q hlock] at hfree
      cases hfree
    · have hne : q ≠ p := fun he => hp (he ▸ hq)
      rw [← hheap q hne] at hsel ⊢
      exact h.sendable q hq hsel hfree

theorem getConns_locks (input : GetInput) : ∀ (conns : List Pointer) (s : NetSessions) (count : Nat),
    conns.Nodup →
      Ends (fun _ => True) (getConns input conns s count) fun r => LocksKept input conns s r.1
  | [], s, _, _ => ⟨fun _ _ => rfl, fun _ h => h, fun _ h => absurd h List.not_mem_nil⟩
  | p :: rest, s, count, hnd => by
      obtain ⟨hp, hnd⟩ := List.nodup_cons.mp hnd
      rw [getConns]
      dsimp only
      split
      case isTrue hnot =>
        refine (getConns_locks input rest s count hnd).mono fun r hr => ?_
        refine hr.cons hp (fun _ _ => rfl) id fun hsel _ => ?_
        have hsel' : getSelects input.u input.key (s.heap p) = true := hsel
        simp [hsel'] at hnot
      case isFalse =>
        split
        · trivial
        case isFalse hfree =>
          split
          · trivial
          · refine (getConns_locks input rest _ count hnd).mono fun r hr => ?_
            refine hr.cons hp (fun q hq => s.heap_modify_of_ne hq _) (fun _ => ?_) fun _ hlock => ?_
            · rw [NetSessions.heap_modify_self]
            · rw [NetSessions.heap_modify_self] at hlock
              cases hlock
          case h_3 hstate =>
            obtain ⟨hassert, hgood, -⟩ := sdmbnBoostEncode_eq_some hstate
            refine (getConns_locks input rest _ _ hnd).bind fun r hr => ?_
            refine hr.cons hp (fun q hq => s.heap_modify_of_ne hq _) (fun hlock => ?_) fun _ _ => ?_
            · exact absurd hlock hfree
            · exact ⟨by simpa using hfree, hassert, hgood⟩

/-! ## One table after the other -/

omit [TextArchive] in
theorem NetSessions.Orderly.alike {s s' : NetSessions} (h : s.Orderly) (ha : s.Alike s') : s'.Orderly where
  distinct := by
    rw [ha.conns]
    exact h.distinct
  proto t p hp := by
    rw [ha.conns] at hp
    rw [ha.proto]
    exact h.proto t p hp

omit [TextArchive] in
theorem LocksKept.append {conns conns' : List Pointer} {s s₁ s' : NetSessions}
    (h : LocksKept input conns s s₁) (h' : LocksKept input conns' s₁ s') (hapart : ∀ p ∈ conns', p ∉ conns) :
    LocksKept input (conns ++ conns') s s' := by
  constructor
  · intro p hp
    rw [List.mem_append, not_or] at hp
    exact (h'.others p hp.2).trans (h.others p hp.1)
  · exact fun p hp => h'.held p (h.held p hp)
  · intro p hp hsel hfree
    rcases List.mem_append.mp hp with hp | hp
    · refine h.sendable p hp hsel (Bool.eq_false_iff.mpr fun hlock => ?_)
      rw [h'.held p hlock] at hfree
      cases hfree
    · rw [← h.others p (hapart p hp)] at hsel ⊢
      exact h'.sendable p hp hsel hfree

theorem getTables_locks (input : GetInput) : ∀ (tables : List Table) (s : NetSessions), s.Orderly →
    tables.Nodup → Ends (fun _ => True) (getTables input tables s) fun r =>
      LocksKept input (tables.flatMap fun t => (s.conns t).values) s r.1
  | [], s, _, _ => ⟨fun _ _ => rfl, fun _ h => h, fun _ h => absurd h List.not_mem_nil⟩
  | t :: rest, s, ho, hnd => by
      obtain ⟨ht, hnd⟩ := List.nodup_cons.mp hnd
      have hone := (getConns_locks input (s.conns t).values s 0 (ho.distinct t)).and
        (getConns_alike input (s.conns t).values s 0)
      refine hone.bind fun r hr => ?_
      refine (getTables_locks input rest r.1 (ho.alike hr.2) hnd).bind fun r' hr' => ?_
      rw [hr.2.conns] at hr'
      exact hr.1.append hr' (ho.apart ht)

/-! ## Numbers -/

omit [TextArchive] in
/-- Ranges one after the other make a range if and only if at most one of them is not empty. -/
theorem flatMap_range_eq_iff {α : Type} {f : α → Nat} {l : List α} (hnd : l.Nodup) :
    l.flatMap (fun a => List.range (f a)) = List.range (l.map f).sum ↔
      ∀ a ∈ l, ∀ b ∈ l, 0 < f a → 0 < f b → a = b := by
  constructor
  · intro h a ha b hb hfa hfb
    have hpair := (List.nodup_flatMap.mp (h ▸ List.nodup_range)).2
    have hsymm : Std.Symm (Function.onFun List.Disjoint fun a => List.range (f a)) := ⟨fun _ _ h => h.symm⟩
    by_contra hne
    exact hpair.forall ha hb hne (List.mem_range.mpr hfa) (List.mem_range.mpr hfb)
  · induction l with
    | nil => exact fun _ => rfl
    | cons a l ih =>
        intro h
        obtain ⟨ha, hnd⟩ := List.nodup_cons.mp hnd
        have hl := ih hnd fun b hb c hc => h b (List.mem_cons_of_mem a hb) c (List.mem_cons_of_mem a hc)
        rw [List.flatMap_cons, List.map_cons, List.sum_cons, hl]
        rcases Nat.eq_zero_or_pos (f a) with hzero | hpos
        · simp [hzero]
        · have hrest : (l.map f).sum = 0 := by
            rw [List.sum_eq_zero_iff_forall_eq_nat]
            intro n hn
            obtain ⟨b, hb, rfl⟩ := List.mem_map.mp hn
            by_contra hne
            refine ha ?_
            rw [h a (List.mem_cons_self ..) b (List.mem_cons_of_mem a hb) hpos (Nat.pos_of_ne_zero hne)]
            exact hb
          simp [hrest]

theorem map_seq_sentsOf (s : NetSessions) (count : Nat) (conns : List Pointer) :
    (sentsOf input s count conns).map Sent.seq = List.range' count conns.length := by
  induction conns generalizing count with
  | nil => rfl
  | cons p rest ih =>
      rw [sentsOf_cons, List.map_cons, ih, List.length_cons, List.range'_succ]
      rfl

theorem map_seq_tableSents (s : NetSessions) (tables : List Table) :
    (tableSents input s tables).map Sent.seq =
      tables.flatMap fun t => List.range (s.selected input (s.conns t).values).length := by
  rw [tableSents, List.map_flatMap]
  refine List.flatMap_congr fun t _ => ?_
  rw [map_seq_sentsOf, List.range_eq_range']

/-! ## What is left behind -/

/-- The get returns, and the locks, the marks, the count and the numbers are as they should be. -/
def Usable (s : NetSessions) (result : Except Halt (NetSessions × List Sent × Nat)) : Prop :=
  ∃ s' sent n, result = .ok (s', sent, n) ∧
    (∀ t, ∀ p ∈ (s'.conns t).values, (s'.heap p).lock = false) ∧
    (∀ t, ∀ p ∈ (s'.conns t).values,
      (s'.heap p).moved = true ↔ (s.heap p).moved = true ∨ p ∈ sent.map Sent.conn) ∧
    n = sent.length ∧ sent.map Sent.seq = List.range n

omit [TextArchive] in
/-- No lock is held, the connections that pass the checks can be encoded, and those of one table at most do
so. -/
structure Untroubled (input : GetInput) (tables : List Table) (s : NetSessions) : Prop where
  lock : ∀ t, ∀ p ∈ (s.conns t).values, (s.heap p).lock = false
  assertions : ∀ t ∈ tables, ∀ p ∈ s.selected input (s.conns t).values, (s.heap p).assertions = true
  encode : ∀ t ∈ tables, ∀ p ∈ s.selected input (s.conns t).values, input.encode p = .good
  oneTable : ∀ t ∈ tables, ∀ t' ∈ tables, s.selected input (s.conns t).values ≠ [] →
    s.selected input (s.conns t').values ≠ [] → t = t'

theorem map_conn_tableSents (s : NetSessions) (tables : List Table) :
    (tableSents input s tables).map Sent.conn =
      s.selected input (tables.flatMap fun t => (s.conns t).values) := by
  rw [tableSents, List.map_flatMap, NetSessions.selected, List.filter_flatMap]
  exact List.flatMap_congr fun t _ => map_conn_sentsOf

/-- The numbers are those of one list if and only if one table at most has something to send. -/
theorem map_seq_tableSents_iff (s : NetSessions) {tables : List Table} (hnd : tables.Nodup) :
    (tableSents input s tables).map Sent.seq =
        List.range (s.selected input (tables.flatMap fun t => (s.conns t).values)).length ↔
      ∀ t ∈ tables, ∀ t' ∈ tables, s.selected input (s.conns t).values ≠ [] →
        s.selected input (s.conns t').values ≠ [] → t = t' := by
  have hlength : (s.selected input (tables.flatMap fun t => (s.conns t).values)).length =
      (tables.map fun t => (s.selected input (s.conns t).values).length).sum := by
    rw [NetSessions.selected, List.filter_flatMap, List.length_flatMap]
    rfl
  rw [map_seq_tableSents, hlength, flatMap_range_eq_iff hnd]
  simp only [List.length_pos_iff]

/-- Where nothing is wrong with the connections that pass the checks, it is a matter of the other locks and
of the numbers. -/
theorem usable_getTables_of_sendable (hraise : input.raiseEvents = true) {s : NetSessions} (ho : s.Orderly)
    {tables : List Table} (hnd : tables.Nodup)
    (h : ∀ p ∈ tables.flatMap fun t => (s.conns t).values,
      input.selects (s.heap p) = true → Sendable input p (s.heap p)) :
    Usable s (getTables input tables s) ↔
      (∀ t, ∀ p ∈ (s.conns t).values, (s.heap p).lock = false) ∧
        ∀ t ∈ tables, ∀ t' ∈ tables, s.selected input (s.conns t).values ≠ [] →
          s.selected input (s.conns t').values ≠ [] → t = t' := by
  rw [← map_seq_tableSents_iff s hnd, getTables_eq ho hnd h]
  have hlock : ∀ conns p, ((s.taken input conns).heap p).lock = (s.heap p).lock := by
    intro conns p
    rw [NetSessions.taken]
    dsimp only
    split
    · exact input.lock_take _
    · rfl
  have hmoved : ∀ conns p, ((s.taken input conns).heap p).moved = true ↔
      (s.heap p).moved = true ∨ p ∈ s.selected input conns := by
    intro conns p
    rw [NetSessions.taken, NetSessions.selected, List.mem_filter]
    dsimp only
    split
    case isTrue hp => simp [GetInput.take, hraise, Connection.markMoved, hp]
    case isFalse hp => simp [hp]
  constructor
  · rintro ⟨s', sent, n, hok, hfree, -, -, hseq⟩
    cases hok
    refine ⟨fun t p hp => ?_, hseq⟩
    rw [← hlock]
    exact hfree t p hp
  · rintro ⟨hfree, hseq⟩
    refine ⟨_, _, _, rfl, fun t p hp => ?_, fun t p _ => ?_, ?_, hseq⟩
    · rw [hlock]
      exact hfree t p hp
    · rw [hmoved, map_conn_tableSents]
    · rw [← map_conn_tableSents, List.length_map]

/-- The get of a list of tables leaves everything as it should be if and only if there is no trouble. -/
theorem usable_getTables_iff (hraise : input.raiseEvents = true) {s : NetSessions} (ho : s.Orderly)
    {tables : List Table} (hnd : tables.Nodup) :
    Usable s (getTables input tables s) ↔ Untroubled input tables s := by
  constructor
  · intro h
    have hsend : ∀ p ∈ tables.flatMap fun t => (s.conns t).values,
        input.selects (s.heap p) = true → Sendable input p (s.heap p) := by
      obtain ⟨s', sent, n, hok, hfree, -⟩ := h
      intro p hp hsel
      have hlocks := (getTables_locks input tables s ho hnd).of_eq hok
      have halike := (getTables_alike input tables s).of_eq hok
      refine hlocks.sendable p hp hsel ?_
      obtain ⟨t, -, hp⟩ := List.mem_flatMap.mp hp
      exact hfree t p (halike.conns ▸ hp)
    obtain ⟨hfree, hone⟩ := (usable_getTables_of_sendable hraise ho hnd hsend).mp h
    have hselected : ∀ t ∈ tables, ∀ p ∈ s.selected input (s.conns t).values,
        Sendable input p (s.heap p) := by
      intro t ht p hp
      obtain ⟨hp, hsel⟩ := List.mem_filter.mp hp
      exact hsend p (List.mem_flatMap.mpr ⟨t, ht, hp⟩) hsel
    exact ⟨hfree, fun t ht p hp => (hselected t ht p hp).assertions,
      fun t ht p hp => (hselected t ht p hp).encode, hone⟩
  · intro h
    refine (usable_getTables_of_sendable hraise ho hnd fun p hp hsel => ?_).mpr ⟨h.lock, h.oneTable⟩
    obtain ⟨t, ht, hp⟩ := List.mem_flatMap.mp hp
    have hp' : p ∈ s.selected input (s.conns t).values := List.mem_filter.mpr ⟨hp, hsel⟩
    exact ⟨h.lock t p hp, h.assertions t ht p hp', h.encode t ht p hp'⟩

/-- A get of one table, and a get of all that the key names, leave everything as it should be if and only if
there is no trouble. -/
theorem usable_iff (hraise : input.raiseEvents = true) {s : NetSessions} (ho : s.Orderly) :
    (∀ proto, Usable s (handleGetProto input proto s) ↔ Untroubled input (protoTable proto).toList s) ∧
      (Usable s (localGetPerflow input s) ↔ Untroubled input (listedTables input.key.nwProto) s) := by
  constructor
  · intro proto
    rw [handleGetProto_eq]
    refine usable_getTables_iff hraise ho ?_
    cases protoTable proto <;> simp
  · rw [localGetPerflow_eq_getTables]
    exact usable_getTables_iff hraise ho (listedTables_nodup _)

/-! ## A sample -/

/-- A get of all connections, where the temporary file cannot be opened again. -/
def closedFile : GetInput where
  u := ⟨.zero, fun _ => 0⟩
  key := jsonParsePerflowKey .new
  id := 1
  raiseEvents := true
  encode _ := { EncodeInput.good with fopen := false }

omit [TextArchive] in
/-- One TCP connection. -/
theorem orderly_single : (NetSessions.single .tcp (ipv4Connection .tcp 1 2 3 4)).Orderly :=
  (NetSessions.ready_single ..).toOrderly

omit [TextArchive] in
theorem usable_iff_sample : letI := plainArchive
    (∀ proto, Usable (.single .tcp (ipv4Connection .tcp 1 2 3 4))
        (handleGetProto closedFile proto (.single .tcp (ipv4Connection .tcp 1 2 3 4))) ↔
      Untroubled closedFile (protoTable proto).toList (.single .tcp (ipv4Connection .tcp 1 2 3 4))) ∧
    (Usable (.single .tcp (ipv4Connection .tcp 1 2 3 4))
        (localGetPerflow closedFile (.single .tcp (ipv4Connection .tcp 1 2 3 4))) ↔
      Untroubled closedFile (listedTables closedFile.key.nwProto)
        (.single .tcp (ipv4Connection .tcp 1 2 3 4))) := by
  let _ := plainArchive
  exact usable_iff rfl orderly_single

omit [TextArchive] in
/-- Its lock is not given back. -/
theorem not_usable_closedFile : letI := plainArchive
    ¬ Usable (.single .tcp (ipv4Connection .tcp 1 2 3 4))
      (handleGetProto closedFile 6 (.single .tcp (ipv4Connection .tcp 1 2 3 4))) := by
  let _ := plainArchive
  intro h
  rw [handleGetProto_eq, usable_getTables_iff rfl orderly_single (by decide)] at h
  have hmem : (0 : Pointer) ∈ (NetSessions.single .tcp (ipv4Connection .tcp 1 2 3 4)).selected closedFile
      ((NetSessions.single .tcp (ipv4Connection .tcp 1 2 3 4)).conns .tcp).values := by
    decide
  have hgood := h.encode .tcp (by decide) 0 hmem
  cases hgood

end OFM.Bro
