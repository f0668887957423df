import OFM.Bro.Perflow
import OFM.Bro.Lemmas.Perflow
import OFM.Lib.Computations
import OFM.Lib.Machine

/-!
# What can happen to the tables

What an event does is a composition of few changes. What they leave alone holds in every run: a connection
has one entry at most, in the table of its protocol and under its key.
-/

namespace OFM.Bro
open OFM.Lib OFM.Lib.Machine

namespace NetSessions

variable {s s' s'' : NetSessions}

/-! ## What a get leaves alone -/

/-- The same tables, of connections with the same keys and protocols. -/
structure Alike (s s' : NetSessions) : Prop where
  conns : s'.conns = s.conns
  fresh : s'.fresh = s.fresh
  key : ∀ p, (s'.heap p).key = (s.heap p).key
  proto : ∀ p, (s'.heap p).proto = (s.heap p).proto

theorem Alike.refl (s : NetSessions) : Alike s s := ⟨rfl, rfl, fun _ => rfl, fun _ => rfl⟩

theorem Alike.trans (h : Alike s s') (h' : Alike s' s'') : Alike s s'' :=
  ⟨h'.conns.trans h.conns, h'.fresh.trans h.fresh, fun p => (h'.key p).trans (h.key p),
    fun p => (h'.proto p).trans (h.proto p)⟩

theorem alike_modify (s : NetSessions) {conn : Pointer} {f : Connection → Connection}
    (hk : (f (s.heap conn)).key = (s.heap conn).key) (hp : (f (s.heap conn)).proto = (s.heap conn).proto) :
    Alike s (s.modify conn f) := by
  refine ⟨rfl, rfl, fun p => ?_, fun p => ?_⟩
  all_goals
    by_cases he : p = conn
    · subst he
      rw [heap_modify_self]
      assumption
    · rw [heap_modify_of_ne s he]

end NetSessions

open NetSessions

theorem GetInput.key_take (input : GetInput) (c : Connection) : (input.take c).key = c.key := by
  rw [take]
  split <;> rfl

theorem GetInput.proto_take (input : GetInput) (c : Connection) : (input.take c).proto = c.proto := by
  rw [take]
  split <;> rfl

variable [TextArchive]

/-- The loop changes nothing but marks, ids and locks. -/
theorem getConns_alike (input : GetInput) : ∀ (conns : List Pointer) (s : NetSessions) (count : Nat),
    Ends (fun _ => True) (getConns input conns s count) fun r => Alike s r.1
  | [], s, _ => .refl s
  | p :: rest, s, count => by
      rw [getConns]
      dsimp only
      split
      · exact getConns_alike input rest s count
      · split
        · trivial
        · split
          · trivial
          · refine (getConns_alike input rest _ count).mono fun r hr => .trans ?_ hr
            exact alike_modify s (input.key_take _) (input.proto_take _)
          · refine (getConns_alike input rest _ _).bind fun r hr => .trans ?_ hr
            exact alike_modify s (input.key_take _) (input.proto_take _)

theorem getTables_alike (input : GetInput) : ∀ (tables : List Table) (s : NetSessions),
    Ends (fun _ => True) (getTables input tables s) fun r => Alike s r.1
  | [], s => .refl s
  | _ :: rest, s =>
      (getConns_alike input _ s 0).bind fun r hr =>
        (getTables_alike input rest r.1).bind fun _ hr' => hr.trans hr'

theorem localGetPerflow_alike (input : GetInput) (s : NetSessions) :
    Ends (fun _ => True) (localGetPerflow input s) fun r => Alike s r.1 := by
  rw [localGetPerflow_eq_getTables]
  exact getTables_alike input _ s

/-! ## Changes -/

omit [TextArchive] in
/-- Changes of the tables, where the connections that are new are of a kind. -/
inductive Change (made : Connection → Prop) : NetSessions → NetSessions → Prop
  | alike {s s' : NetSessions} (h : Alike s s') : Change made s s'
  | allocate {s : NetSessions} {c : Connection} {t : Table} (hc : made c) (ht : c.proto.table = some t) :
      Change made s (s.allocate c)
  | removeEntry {s : NetSessions} {t : Table} {k : HashKey} : Change made s (s.removeEntry t k)
  | insertEntry {s : NetSessions} {t : Table} {conn : Pointer} (hc : conn < s.fresh)
      (ht : (s.heap conn).proto.table = some t) :
      Change made s (s.insertEntry t (s.heap conn).key conn hc)
  | trans {s s' s'' : NetSessions} (h : Change made s s') (h' : Change made s' s'') : Change made s s''

omit [TextArchive] in
/-- A connection as a packet makes it, where the hash function is this one. -/
structure MadeBy (hashBytes : List (BitVec 8) → BitVec 64) (p : Packet) (c : Connection) : Prop where
  key : c.key = buildConnIDHashKey hashBytes p.connID
  proto : c.proto = p.tproto

omit [TextArchive] in
theorem Packet.table_tproto (p : Packet) : p.tproto.table = some p.table := by
  rw [tproto, table]
  split <;> rfl

/-- The connections that are new after an event. -/
def Event.Makes (hashBytes : List (BitVec 8) → BitVec 64) (c : Connection) : Event → Prop
  | .packet p _ => MadeBy hashBytes p c
  | .put input text => ∃ conn, sdmbnBoostDecode input text = .ok (.new conn) ∧ c = conn.setGetOpId 0
  | _ => False

section Changes

variable {made : Connection → Prop} {s s' : NetSessions} {conn : Pointer}

omit [TextArchive] in
theorem Change.insert (hc : conn < s.fresh) (hs : s.insert conn hc = some s') : Change made s s' := by
  obtain ⟨t, ht, rfl⟩ := Option.map_eq_some_iff.mp hs
  exact .trans .removeEntry (.insertEntry (s := s.removeEntry t (s.heap conn).key) hc ht)

omit [TextArchive] in
theorem Change.remove (hs : s.remove conn = some s') : Change made s s' := by
  obtain ⟨t, -, rfl⟩ := Option.map_eq_some_iff.mp hs
  exact .removeEntry

variable {hashBytes : List (BitVec 8) → BitVec 64}

omit [TextArchive] in
theorem change_create (s : NetSessions) (p : Packet) (input : PacketInput) :
    Change (MadeBy hashBytes p) s (s.create hashBytes p input).1 := by
  rw [NetSessions.create]
  split
  · exact .alike (.refl s)
  case h_2 setup _ =>
    have hheap : (s.allocate (newConn hashBytes p input.flip setup)).heap s.fresh =
        newConn hashBytes p input.flip setup := Function.update_self ..
    have hinsert : Change (MadeBy hashBytes p) (s.allocate (newConn hashBytes p input.flip setup))
        ((s.allocate (newConn hashBytes p input.flip setup)).insertEntry p.table
          ((s.allocate (newConn hashBytes p input.flip setup)).heap s.fresh).key s.fresh
          (s.fresh_lt_allocate _)) := by
      refine .insertEntry _ ?_
      rw [hheap]
      exact p.table_tproto
    rw [hheap] at hinsert
    exact .trans (.allocate ⟨rfl, rfl⟩ p.table_tproto) hinsert

omit [TextArchive] in
theorem change_doNextPacket {p : Packet} {input : PacketInput} {r : NetSessions × Option Pointer}
    (hs : s.doNextPacket hashBytes p input = some r) : Change (MadeBy hashBytes p) s r.1 := by
  rw [NetSessions.doNextPacket] at hs
  split at hs
  · exact Option.some.inj hs ▸ change_create s p input
  · split at hs
    · exact Option.some.inj hs ▸ .alike (.refl s)
    · exact Option.some.inj hs ▸ .alike (.refl s)
    · obtain ⟨s', hr, rfl⟩ := Option.map_eq_some_iff.mp hs
      exact .trans (.remove hr) (change_create s' p input)

theorem localPutPerflow_change (input : DecodeInput) (text : Text) (s : NetSessions) :
    Ends (fun _ => True) (localPutPerflow input text s) fun r =>
      Change (fun c => (Event.put input text).Makes hashBytes c) s r.1 := by
  rw [localPutPerflow]
  split
  · trivial
  · trivial
  case h_3 conn _ =>
    split
    · split
      · trivial
      case h_2 hs =>
        have halike : Alike s (s.modify conn (·.setGetOpId 0)) := alike_modify s rfl rfl
        exact .trans (.alike halike) (.insert _ hs)
    · trivial
  case h_4 conn hdecode =>
    split
    · trivial
    case h_2 hs =>
      obtain ⟨t, ht, -⟩ := Option.map_eq_some_iff.mp hs
      have hheap : (s.allocate (conn.setGetOpId 0)).heap s.fresh = conn.setGetOpId 0 :=
        Function.update_self ..
      rw [hheap] at ht
      exact .trans (.allocate ⟨conn, hdecode, rfl⟩ ht) (.insert _ hs)

/-- What an event does. -/
theorem step_change {event : Event} (hs : step hashBytes s event = some s') :
    Change (fun c => event.Makes hashBytes c) s s' := by
  cases event with
  | packet p input =>
      obtain ⟨r, hr, rfl⟩ := Option.map_eq_some_iff.mp hs
      exact change_doNextPacket hr
  | work conn c =>
      rw [step] at hs
      split at hs
      case isTrue hc => exact Option.some.inj hs ▸ .alike (alike_modify s hc.1 hc.2)
      case isFalse => cases hs
  | remove conn =>
      rw [step] at hs
      split at hs
      · exact .remove hs
      · exact Option.some.inj hs ▸ .alike (.refl s)
  | get input =>
      obtain ⟨r, hr, rfl⟩ := Option.map_eq_some_iff.mp hs
      exact .alike ((localGetPerflow_alike input s).of_toOption hr)
  | put input text =>
      obtain ⟨r, hr, rfl⟩ := Option.map_eq_some_iff.mp hs
      exact (localPutPerflow_change input text s).of_toOption hr

end Changes

/-! ## The entry of a connection -/

omit [TextArchive]

/-- The connection is in memory, and the only entry that it can have is in the table of its protocol and
under its key. -/
structure Placed (t : Table) (k : HashKey) (conn : Pointer) (s : NetSessions) : Prop where
  entry : ∀ t', ∀ e ∈ (s.conns t').entries, e.value = conn → t' = t ∧ e.name = k.name
  key : (s.heap conn).key = k
  proto : (s.heap conn).proto.table = some t
  used : conn < s.fresh

section Placed

variable {t : Table} {k : HashKey} {conn : Pointer} {s s' : NetSessions} {made : Connection → Prop}

/-- A connection that is new has no entry. -/
theorem placed_allocate (s : NetSessions) {c : Connection} (ht : c.proto.table = some t) :
    Placed t c.key s.fresh (s.allocate c) := by
  have hheap : (s.allocate c).heap s.fresh = c := Function.update_self ..
  refine ⟨fun t' e he hv => absurd (s.allocated t' e he) (hv ▸ Nat.lt_irrefl _), ?_, ?_,
    s.fresh_lt_allocate c⟩
  · rw [hheap]
  · rw [hheap]; exact ht

theorem Placed.allocate (h : Placed t k conn s) (c : Connection) : Placed t k conn (s.allocate c) := by
  have hheap : (s.allocate c).heap conn = s.heap conn := Function.update_of_ne (Nat.ne_of_lt h.used) ..
  refine ⟨h.entry, ?_, ?_, Nat.lt_succ_of_lt h.used⟩
  · rw [hheap]; exact h.key
  · rw [hheap]; exact h.proto

theorem Placed.removeEntry (h : Placed t k conn s) (t' : Table) (k' : HashKey) :
    Placed t k conn (s.removeEntry t' k') := by
  refine ⟨fun t₁ e he hv => ?_, h.key, h.proto, h.used⟩
  simp only [NetSessions.removeEntry, setTable, Function.update_apply] at he
  split at he
  case isTrue ht => exact h.entry t₁ e (ht ▸ Dictionary.mem_of_mem_remove he) hv
  case isFalse => exact h.entry t₁ e he hv

/-- An entry is added for another connection, or for this one where it belongs. -/
theorem Placed.insertEntry (h : Placed t k conn s) {t' : Table} {conn' : Pointer} (hc : conn' < s.fresh)
    (ht : (s.heap conn').proto.table = some t') :
    Placed t k conn (s.insertEntry t' (s.heap conn').key conn' hc) := by
  refine ⟨fun t₁ e he hv => ?_, h.key, h.proto, h.used⟩
  simp only [NetSessions.insertEntry, setTable, Function.update_apply] at he
  split at he
  case isTrue ht₁ =>
    rcases Dictionary.mem_insert he with he | ⟨hname, hvalue⟩
    · exact h.entry t₁ e (ht₁ ▸ he) hv
    · obtain rfl := hvalue.symm.trans hv
      refine ⟨ht₁.trans (Option.some.inj (ht.symm.trans h.proto)), ?_⟩
      rw [hname, h.key]
  case isFalse => exact h.entry t₁ e he hv

/-- Whatever happens, a connection stays where it is, or is removed. -/
theorem Placed.change (h : Placed t k conn s) (hs : Change made s s') : Placed t k conn s' := by
  induction hs with
  | alike ha =>
      refine ⟨?_, (ha.key conn).trans h.key, ?_, ?_⟩
      · rw [ha.conns]; exact h.entry
      · rw [ha.proto]; exact h.proto
      · rw [ha.fresh]; exact h.used
  | allocate => exact h.allocate _
  | removeEntry => exact h.removeEntry ..
  | insertEntry hc ht => exact h.insertEntry hc ht
  | trans _ _ ih ih' => exact ih' (ih h)

theorem Placed.after_run [TextArchive] (h : Placed t k conn s)
    {hashBytes : List (BitVec 8) → BitVec 64} {events : List Event}
    (hs : run (step hashBytes) s events = some s') : Placed t k conn s' :=
  run_invariant' h (fun _ _ _ h hs => h.change (step_change hs)) hs

/-- A connection that is still in its table is found by its key, and by no other one. -/
theorem Placed.lookup_iff (h : Placed t k conn s) (hstill : conn ∈ (s.conns t).values) {k' : HashKey} :
    (s.conns t).lookup k' = some conn ↔ k' = k := by
  obtain ⟨e, he, hv⟩ := List.mem_map.mp hstill
  have hname := (h.entry t e he hv).2
  rw [Dictionary.lookup_eq_some_iff]
  constructor
  · rintro ⟨e', he', hname', hv'⟩
    exact HashKey.name_inj.mp (hname'.symm.trans (h.entry t e' he' hv').2)
  · rintro rfl
    exact ⟨e, he, hname, hv⟩

end Placed

/-! ## Order in the tables -/

/-- Every connection in memory has its place. -/
def Settled (s : NetSessions) : Prop := ∀ conn < s.fresh, ∃ t k, Placed t k conn s

section Settled

variable {s s' : NetSessions} {made : Connection → Prop}

theorem Settled.change (h : Settled s) (hs : Change made s s') : Settled s' := by
  induction hs with
  | @alike s s' ha =>
      intro conn hc
      obtain ⟨t, k, hp⟩ := h conn (ha.fresh ▸ hc)
      have hchange : Change made s s' := .alike ha
      exact ⟨t, k, hp.change hchange⟩
  | @allocate s c t _ ht =>
      intro conn hc
      rcases Nat.lt_succ_iff_lt_or_eq.mp hc with hc | rfl
      · obtain ⟨t, k, hp⟩ := h conn hc
        exact ⟨t, k, hp.allocate c⟩
      · exact ⟨t, c.key, placed_allocate s ht⟩
  | removeEntry =>
      intro conn hc
      obtain ⟨t, k, hp⟩ := h conn hc
      exact ⟨t, k, hp.removeEntry ..⟩
  | insertEntry hc' ht =>
      intro conn hc
      obtain ⟨t, k, hp⟩ := h conn hc
      exact ⟨t, k, hp.insertEntry hc' ht⟩
  | trans _ _ ih ih' => exact ih' (ih h)

theorem Settled.orderly (h : Settled s) : s.Orderly where
  distinct t := by
    refine List.Nodup.map_on (fun e he e' he' hv => ?_) (List.Nodup.of_map _ (s.conns t).distinct)
    obtain ⟨t', k, hp⟩ := h e.value (s.allocated t e he)
    refine Dictionary.eq_of_name_eq he he' ?_
    rw [(hp.entry t e he rfl).2, (hp.entry t e' he' hv.symm).2]
  proto t conn hconn := by
    obtain ⟨e, he, rfl⟩ := List.mem_map.mp hconn
    obtain ⟨t', k, hp⟩ := h e.value (s.allocated t e he)
    rw [(hp.entry t e he rfl).1]
    exact hp.proto

/-- The tables are in order whatever has happened. -/
theorem orderly_of_run [TextArchive] {hashBytes : List (BitVec 8) → BitVec 64} {heap : Pointer → Connection}
    {events : List Event} (hs : run (step hashBytes) (.start heap) events = some s) : s.Orderly := by
  have hstart : Settled (.start heap) := fun _ hc => absurd hc (Nat.not_lt_zero _)
  have hsettled : Settled s := run_invariant' hstart (fun _ _ _ h hs => h.change (step_change hs)) hs
  exact hsettled.orderly

end Settled

end OFM.Bro
