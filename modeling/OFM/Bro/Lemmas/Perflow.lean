import OFM.Bro.Perflow

/-!
# What a get returns

The loop of `handle_get_proto` in one equation, for connections whose state can be had, and what is left
of a connection whose state cannot.
-/

namespace OFM.Bro
open OFM.Shared (Undefined PerflowKey)

section Take

variable (input : GetInput) (s : NetSessions)

/-- The connection passes the checks. -/
def GetInput.selects (c : Connection) : Bool := getSelects input.u input.key c

/-- The connections that pass the checks. -/
def NetSessions.selected (conns : List Pointer) : List Pointer :=
  conns.filter fun p => input.selects (s.heap p)

/-- The connections after a get of some of them. -/
def NetSessions.taken (conns : List Pointer) : NetSessions :=
  { s with heap := fun p =>
      if p ∈ conns ∧ input.selects (s.heap p) = true then input.take (s.heap p) else s.heap p }

/-- Nothing keeps the state of a connection from being sent. -/
structure Sendable (p : Pointer) (c : Connection) : Prop where
  lock : c.lock = false
  assertions : c.assertions = true
  encode : input.encode p = .good

@[simp] theorem NetSessions.conns_modify (p : Pointer) (f : Connection → Connection) :
    (s.modify p f).conns = s.conns := rfl

@[simp] theorem NetSessions.heap_modify_self (p : Pointer) (f : Connection → Connection) :
    (s.modify p f).heap p = f (s.heap p) := Function.update_self ..

theorem NetSessions.heap_modify_of_ne {p q : Pointer} (h : q ≠ p) (f : Connection → Connection) :
    (s.modify p f).heap q = s.heap q := Function.update_of_ne h ..

@[simp] theorem NetSessions.conns_taken (conns : List Pointer) : (s.taken input conns).conns = s.conns := rfl

variable {input s} {p : Pointer} {conns : List Pointer}

theorem NetSessions.taken_cons_of_not (h : input.selects (s.heap p) = false) :
    s.taken input (p :: conns) = s.taken input conns := by
  simp only [taken, NetSessions.mk.injEq, true_and, and_true]
  funext q
  by_cases hq : q = p
  · simp [hq, h]
  · simp [hq]

theorem NetSessions.taken_cons_of_selects (h : input.selects (s.heap p) = true) (hp : p ∉ conns) :
    s.taken input (p :: conns) = (s.modify p input.take).taken input conns := by
  simp only [taken, NetSessions.mk.injEq]
  refine ⟨rfl, ?_, rfl⟩
  funext q
  by_cases hq : q = p
  · subst hq
    simp [h, hp]
  · simp [hq, s.heap_modify_of_ne hq]

end Take

/-! ## Tables -/

def Table.all : List Table := [.tcp, .udp, .icmp]

theorem Table.mem_all (t : Table) : t ∈ all := by cases t <;> decide

/-- The tables that `local_get_perflow` goes through. -/
def listedTables (proto : BitVec 8) : List Table :=
  if proto = 0 then Table.all else (protoTable proto).toList

theorem listedTables_nodup (proto : BitVec 8) : (listedTables proto).Nodup := by
  rw [listedTables]
  split
  · decide
  · cases protoTable proto <;> simp

namespace NetSessions

/-- The connections that `local_get_perflow` goes through. -/
def listed (s : NetSessions) (key : PerflowKey) : List Pointer :=
  (listedTables key.nwProto).flatMap fun t => (s.conns t).values

/-- A connection is in one place, which is the table of its protocol. -/
structure Orderly (s : NetSessions) : Prop where
  distinct : ∀ t, (s.conns t).values.Nodup
  proto : ∀ t, ∀ p ∈ (s.conns t).values, (s.heap p).proto.table = some t

end NetSessions

variable [TextArchive] {input : GetInput}

/-- What is sent for a connection. -/
def sentOf (input : GetInput) (s : NetSessions) (seq : Nat) (p : Pointer) : Sent :=
  ⟨p, input.id, connkey input.u (s.heap p),
    TextArchive.write (Lib.save true ++ (s.heap p).save), (s.heap p).key.hash, seq⟩

theorem Sendable.encodes {p : Pointer} {c : Connection} (h : Sendable input p c) :
    sdmbnBoostEncode (input.encode p) c = .ok (some (TextArchive.write (Lib.save true ++ c.save))) := by
  simp [sdmbnBoostEncode, h.assertions, h.encode, EncodeInput.good]

/-- A state that is had comes of a connection with nothing wrong. -/
theorem sdmbnBoostEncode_eq_some {e : EncodeInput} {c : Connection} {text : Text}
    (h : sdmbnBoostEncode e c = .ok (some text)) :
    c.assertions = true ∧ e = .good ∧ text = TextArchive.write (Lib.save true ++ c.save) := by
  obtain ⟨stream, fopen, malloc, fread⟩ := e
  rw [sdmbnBoostEncode] at h
  cases hc : c.assertions <;> cases stream <;> cases fopen <;> cases malloc <;> cases fread <;>
    simp_all [EncodeInput.good]

/-- One step of the loop. -/
theorem getConns_cons {p : Pointer} {rest : List Pointer} {s : NetSessions} {count : Nat}
    (h : Sendable input p (s.heap p)) (hsel : input.selects (s.heap p) = true) :
    getConns input (p :: rest) s count =
      (getConns input rest (s.modify p input.take) (count + 1)).map fun (s', sent, total) =>
        (s', sentOf input s count p :: sent, total) := by
  have hsel' : getSelects input.u input.key (s.heap p) = true := hsel
  rw [getConns]
  simp only [hsel', h.lock, h.encodes, Bool.not_true, Bool.false_eq_true, if_false]
  cases getConns input rest (s.modify p input.take) (count + 1) <;> rfl

/-- What is sent for some connections. -/
def sentsOf (input : GetInput) (s : NetSessions) (count : Nat) (conns : List Pointer) : List Sent :=
  conns.mapIdx fun i => sentOf input s (count + i)

theorem sentsOf_cons {s : NetSessions} {count : Nat} {p : Pointer} {conns : List Pointer} :
    sentsOf input s count (p :: conns) = sentOf input s count p :: sentsOf input s (count + 1) conns := by
  rw [sentsOf, List.mapIdx_cons, Nat.add_zero, sentsOf]
  simp only [Nat.add_assoc, Nat.add_comm 1]

theorem sentsOf_congr {s s' : NetSessions} {count : Nat} {conns : List Pointer}
    (h : ∀ p ∈ conns, s'.heap p = s.heap p) : sentsOf input s' count conns = sentsOf input s count conns := by
  refine List.mapIdx_eq_mapIdx_iff.mpr fun i hi => ?_
  rw [sentOf, sentOf, h _ (List.getElem_mem hi)]

omit [TextArchive] in
theorem NetSessions.selected_congr {s s' : NetSessions} {conns : List Pointer}
    (h : ∀ p ∈ conns, s'.heap p = s.heap p) : s'.selected input conns = s.selected input conns :=
  List.filter_congr fun p hp => by rw [h p hp]

/-- A get of connections whose state can be had: all that pass the checks are sent, in order. -/
theorem getConns_eq : ∀ {conns : List Pointer} {s : NetSessions} {count : Nat}, conns.Nodup →
    (∀ p ∈ conns, input.selects (s.heap p) = true → Sendable input p (s.heap p)) →
    getConns input conns s count = .ok (s.taken input conns,
      sentsOf input s count (s.selected input conns), count + (s.selected input conns).length)
  | [], s, count, _, _ => by simp [getConns, NetSessions.taken, NetSessions.selected, sentsOf]
  | p :: rest, s, count, hnd, h => by
      obtain ⟨hp, hnd⟩ := List.nodup_cons.mp hnd
      cases hsel : input.selects (s.heap p) with
      | false =>
          have hrest := @getConns_eq rest s count hnd
            fun q hq => h q (List.mem_cons_of_mem p hq)
          have hsel' : getSelects input.u input.key (s.heap p) = false := hsel
          have hselected : s.selected input (p :: rest) = s.selected input rest :=
            List.filter_cons_of_neg (by simp [hsel])
          rw [getConns, NetSessions.taken_cons_of_not hsel, hselected, ← hrest]
          simp [hsel']
      | true =>
          have hheap : ∀ q ∈ rest, (s.modify p input.take).heap q = s.heap q := by
            intro q hq
            have hne : q ≠ p := fun he => hp (he ▸ hq)
            exact s.heap_modify_of_ne hne _
          have hrest := @getConns_eq rest (s.modify p input.take) (count + 1) hnd
            fun q hq hq' => by
              rw [hheap q hq] at hq' ⊢
              exact h q (List.mem_cons_of_mem p hq) hq'
          have hsents : sentsOf input (s.modify p input.take) (count + 1) (s.selected input rest) =
              sentsOf input s (count + 1) (s.selected input rest) :=
            sentsOf_congr fun q hq => hheap q (List.mem_filter.mp hq).1
          have hselected : s.selected input (p :: rest) = p :: s.selected input rest :=
            List.filter_cons_of_pos hsel
          rw [getConns_cons (h p (List.mem_cons_self ..) hsel) hsel, hrest,
            NetSessions.taken_cons_of_selects hsel hp, NetSessions.selected_congr hheap, hsents,
            hselected, sentsOf_cons, List.length_cons, Nat.add_assoc, Nat.add_comm 1]
          rfl

/-! ## The three tables -/

/-- One table after the other. -/
def getTables (input : GetInput) : List Table → NetSessions → Except Halt (NetSessions × List Sent × Nat)
  | [], s => pure (s, [], 0)
  | t :: rest, s => do
      let (s, sent, n) ← getConns input (s.conns t).values s 0
      let (s, sent', m) ← getTables input rest s
      return (s, sent ++ sent', n + m)

theorem handleGetProto_eq (proto : BitVec 8) (s : NetSessions) :
    handleGetProto input proto s = getTables input (protoTable proto).toList s := by
  rw [handleGetProto]
  cases protoTable proto with
  | none => rfl
  | some t =>
      simp only [Option.toList_some, getTables]
      cases getConns input (s.conns t).values s 0 with
      | error => rfl
      | ok result => simp [Bind.bind, Except.bind, pure, Except.pure]

theorem localGetPerflow_eq_getTables (s : NetSessions) :
    localGetPerflow input s = getTables input (listedTables input.key.nwProto) s := by
  rw [localGetPerflow, listedTables]
  split
  · have htcp : protoTable 6 = some .tcp := rfl
    have hudp : protoTable 17 = some .udp := rfl
    have hicmp : protoTable 1 = some .icmp := rfl
    simp only [handleGetProto, htcp, hudp, hicmp, Table.all, getTables, bind_assoc, pure_bind]
    simp only [List.append_nil, Nat.add_zero, List.append_assoc, Nat.add_assoc]
  · exact handleGetProto_eq ..

/-- What is sent of some tables, each of them numbered from 0. -/
def tableSents (input : GetInput) (s : NetSessions) (tables : List Table) : List Sent :=
  tables.flatMap fun t => sentsOf input s 0 (s.selected input (s.conns t).values)

omit [TextArchive] in
theorem NetSessions.heap_taken_of_not_mem {s : NetSessions} {p : Pointer} {conns : List Pointer}
    (h : p ∉ conns) : (s.taken input conns).heap p = s.heap p := by
  simp [taken, h]

omit [TextArchive] in
theorem NetSessions.taken_taken {s : NetSessions} {conns conns' : List Pointer}
    (h : ∀ p ∈ conns', p ∉ conns) :
    (s.taken input conns).taken input conns' = s.taken input (conns ++ conns') := by
  simp only [taken, NetSessions.mk.injEq, true_and, and_true]
  funext p
  by_cases hp : p ∈ conns'
  · simp [hp, h p hp]
  · simp [hp]

/-- What the loop does with the connections that are left, when the ones before are not among them. -/
theorem tableSents_congr {s s' : NetSessions} {tables : List Table} (hc : s'.conns = s.conns)
    (h : ∀ t ∈ tables, ∀ p ∈ (s.conns t).values, s'.heap p = s.heap p) :
    tableSents input s' tables = tableSents input s tables := by
  refine List.flatMap_congr fun t ht => ?_
  rw [hc, NetSessions.selected_congr (h t ht)]
  exact sentsOf_congr fun p hp => h t ht p (List.mem_filter.mp hp).1

omit [TextArchive] in
theorem NetSessions.Orderly.taken {s : NetSessions} (h : s.Orderly) (conns : List Pointer) :
    (s.taken input conns).Orderly := by
  refine ⟨h.distinct, fun t p hp => ?_⟩
  have hproto : ((s.taken input conns).heap p).proto = (s.heap p).proto := by
    simp only [NetSessions.taken]
    split
    · rw [GetInput.take]
      split <;> rfl
    · rfl
  rw [hproto]
  exact h.proto t p hp

omit [TextArchive] in
/-- No connection is in two tables. -/
theorem NetSessions.Orderly.apart {s : NetSessions} (h : s.Orderly) {t : Table} {tables : List Table}
    (ht : t ∉ tables) : ∀ p ∈ tables.flatMap fun t => (s.conns t).values, p ∉ (s.conns t).values := by
  intro p hp hp'
  obtain ⟨t', ht', hp⟩ := List.mem_flatMap.mp hp
  obtain rfl := Option.some.inj ((h.proto t' p hp).symm.trans (h.proto t p hp'))
  exact ht ht'

theorem getTables_eq : ∀ {tables : List Table} {s : NetSessions}, s.Orderly → tables.Nodup →
    (∀ p ∈ tables.flatMap fun t => (s.conns t).values,
      input.selects (s.heap p) = true → Sendable input p (s.heap p)) →
    getTables input tables s = .ok (s.taken input (tables.flatMap fun t => (s.conns t).values),
      tableSents input s tables,
      (s.selected input (tables.flatMap fun t => (s.conns t).values)).length)
  | [], s, _, _, _ => by
      simp [getTables, NetSessions.taken, tableSents, NetSessions.selected, pure, Except.pure]
  | t :: rest, s, ho, hnd, h => by
      obtain ⟨ht, hnd⟩ := List.nodup_cons.mp hnd
      have hhere : ∀ p ∈ (s.conns t).values, input.selects (s.heap p) = true →
          Sendable input p (s.heap p) :=
        fun p hp => h p (List.mem_flatMap.mpr ⟨t, List.mem_cons_self .., hp⟩)
      have hapart := ho.apart ht
      have hheap : ∀ p ∈ rest.flatMap fun t => (s.conns t).values,
          (s.taken input (s.conns t).values).heap p = s.heap p :=
        fun p hp => NetSessions.heap_taken_of_not_mem (hapart p hp)
      have ho' : (s.taken input (s.conns t).values).Orderly := ho.taken _
      have hrest := getTables_eq ho' hnd fun p hp hsel => by
        rw [hheap p hp] at hsel ⊢
        refine h p ?_ hsel
        rw [List.flatMap_cons]
        exact List.mem_append_right _ hp
      have hsents : tableSents input (s.taken input (s.conns t).values) rest = tableSents input s rest :=
        tableSents_congr (NetSessions.conns_taken ..)
          fun t' ht' p hp => hheap p (List.mem_flatMap.mpr ⟨t', ht', hp⟩)
      rw [NetSessions.conns_taken] at hrest
      rw [getTables, getConns_eq (ho.distinct t) hhere]
      simp only [Bind.bind, Except.bind]
      rw [hrest, hsents, NetSessions.taken_taken hapart, NetSessions.selected_congr hheap]
      simp only [pure, Except.pure, tableSents, List.flatMap_cons, NetSessions.selected,
        List.filter_append, List.length_append, Nat.zero_add]

/-- A get of connections whose state can be had: each table sends those that pass the checks. -/
theorem localGetPerflow_eq {s : NetSessions} (ho : s.Orderly)
    (h : ∀ p ∈ s.listed input.key, input.selects (s.heap p) = true → Sendable input p (s.heap p)) :
    localGetPerflow input s = .ok (s.taken input (s.listed input.key),
      tableSents input s (listedTables input.key.nwProto),
      (s.selected input (s.listed input.key)).length) := by
  rw [localGetPerflow_eq_getTables]
  exact getTables_eq ho (listedTables_nodup _) h

end OFM.Bro
