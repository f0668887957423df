import OFM.Bro.Lemmas.Instance
import OFM.Shared.Thresholds

/-!
# How many connections there are

What insertions and removals do to the number of connections in the tables.
-/

namespace OFM.Bro
open OFM.Lib OFM.Shared

/-! ## Flows in Bro

What Bro tells the library of the connections in its tables, and how many there are.
-/

section Flows

variable [TextArchive]

/-- What happens to an instance, a command for a deletion included: Bro has no function for it. -/
inductive FlowEvent where
  | event (event : Event)
  | deletePerflow

/-- What the library is told during an event. Where the connection of a packet has been reused, it is told of
the one that is removed only. -/
def happenings (hashBytes : List (BitVec 8) → BitVec 64) (s : NetSessions) : Event → List Happening
  | .packet p input =>
      .packetReceived ::
        match s.find hashBytes p with
        | none => [.flowCreated]
        | some _ =>
            match input.consistency, input.isReuse with
            | .ignored, _ => []
            | .consistent, false => []
            | _, _ => [.flowDestroyed]
  | .remove conn => if conn ∈ s.connections then [.flowDestroyed] else []
  | .put input state =>
      match localPutPerflow input state s with
      | .ok (_, result) => [.put result]
      | .error _ => []
  | _ => []

/-- The connections in the tables. -/
def flowTables (hashBytes : List (BitVec 8) → BitVec 64) : FlowTables NetSessions FlowEvent where
  flows s := s.connections.length
  step s
    | .event event => (step hashBytes s event).map fun s' => (s', happenings hashBytes s event)
    | .deletePerflow => some (s, [])

/-- The key and the table of what a put inserts. -/
def putKey (input : DecodeInput) (state : Text) (s : NetSessions) : Option (Table × HashKey) :=
  match sdmbnBoostDecode input state with
  | .ok (.new conn) => conn.proto.table.map fun t => (t, conn.key)
  | .ok (.old (some conn)) => (s.heap conn).proto.table.map fun t => (t, (s.heap conn).key)
  | _ => none

/-- The library is told the truth: a new connection is made where one is announced, none where a connection
has been reused, and what is put is new to its table. -/
def CountsRight (hashBytes : List (BitVec 8) → BitVec 64) (s : NetSessions) : FlowEvent → Prop
  | .event (.packet p input) =>
      match s.find hashBytes p with
      | none => input.setup.isSome = true
      | some _ =>
          match input.consistency, input.isReuse with
          | .ignored, _ => True
          | .consistent, false => True
          | _, _ => input.setup = none
  | .event (.put input state) => ∀ place ∈ putKey input state s, (s.conns place.1).lookup place.2 = none
  | _ => True

end Flows

namespace Dictionary

variable {β : Type} {d : Dictionary β} {k : HashKey} {value : β}

theorem lookup_eq_none_iff : d.lookup k = none ↔ ∀ e ∈ d.entries, e.name ≠ k.name := by
  rw [lookup, Option.map_eq_none_iff, List.find?_eq_none]
  simp

theorem any_iff : (d.entries.any fun e => e.name = k.name) = true ↔ d.lookup k ≠ none := by
  rw [ne_eq, lookup_eq_none_iff, List.any_eq_true]
  simp

/-- An entry is added if there is none for the key. -/
theorem insert_length : (d.insert k value).entries.length =
    d.entries.length + if d.lookup k = none then 1 else 0 := by
  simp only [insert, any_iff]
  by_cases h : d.lookup k = none
  · rw [if_neg (not_not.mpr h), if_pos h, List.length_append, List.length_singleton]
  · rw [if_pos h, if_neg h, List.length_map, Nat.add_zero]

/-- An entry is taken away if there is one for the key. -/
theorem remove_length : (d.remove k).entries.length + (if d.lookup k = none then 0 else 1) =
    d.entries.length := by
  simp only [remove]
  by_cases h : d.lookup k = none
  · rw [if_pos h, List.eraseP_of_forall_not, Nat.add_zero]
    simpa using lookup_eq_none_iff.mp h
  · obtain ⟨e, he, hname⟩ := List.any_eq_true.mp (any_iff.mpr h)
    rw [if_neg h, List.length_eraseP_of_mem he hname]
    have hpos := List.length_pos_of_mem he
    omega

/-- Nothing is found for a key that has been removed. -/
theorem lookup_remove : (d.remove k).lookup k = none := by
  refine lookup_eq_none_iff.mpr fun e he hname => ?_
  obtain ⟨e', pre, post, -, hname', hd, hremove⟩ := List.exists_of_eraseP (p := fun e => e.name = k.name)
    (mem_of_mem_remove he) (decide_eq_true hname)
  have hnodup := d.distinct
  rw [hd] at hnodup
  have he' : e ∈ pre ++ post := by rwa [← hremove]
  rw [List.map_append, List.map_cons, List.nodup_middle, ← List.map_append] at hnodup
  refine (List.nodup_cons.mp hnodup).1 ?_
  rw [of_decide_eq_true hname', ← hname]
  exact List.mem_map_of_mem he'

end Dictionary

namespace NetSessions

variable {s s' : NetSessions} {t : Table} {k : HashKey} {conn : Pointer}

/-- A change of one table. -/
theorem connections_setTable {d : Dictionary Pointer} (h : ∀ e ∈ d.entries, e.value < s.fresh) :
    (s.setTable t d h).connections.length + (s.conns t).entries.length =
      s.connections.length + d.entries.length := by
  simp only [connections, setTable, Dictionary.values, List.length_append, List.length_map]
  cases t <;> simp [Function.update] <;> omega

theorem connections_removeEntry : (s.removeEntry t k).connections.length +
    (if (s.conns t).lookup k = none then 0 else 1) = s.connections.length := by
  have hset := connections_setTable (s := s) (t := t) (d := (s.conns t).remove k)
    fun e he => s.allocated t e (Dictionary.mem_of_mem_remove he)
  have hlength := Dictionary.remove_length (d := s.conns t) (k := k)
  rw [removeEntry]
  omega

theorem connections_insertEntry (hc : conn < s.fresh) : (s.insertEntry t k conn hc).connections.length =
    s.connections.length + if (s.conns t).lookup k = none then 1 else 0 := by
  have hlength := @Dictionary.insert_length _ (s.conns t) k conn
  rw [insertEntry]
  have hset := connections_setTable (s := s) (t := t) (d := (s.conns t).insert k conn) fun e he => by
    rcases Dictionary.mem_insert he with he | ⟨-, he⟩
    · exact s.allocated t e he
    · exact he ▸ hc
  omega

theorem conns_removeEntry : (s.removeEntry t k).conns t = (s.conns t).remove k := by
  simp [removeEntry, setTable]

/-- What is put takes the place of what has been there. -/
theorem connections_insert (hc : conn < s.fresh) (ht : (s.heap conn).proto.table = some t)
    (hs : s.insert conn hc = some s') : s'.connections.length =
      s.connections.length + if (s.conns t).lookup (s.heap conn).key = none then 1 else 0 := by
  rw [insert, ht] at hs
  cases hs
  have hremove := connections_removeEntry (s := s) (t := t) (k := (s.heap conn).key)
  have hc' : conn < (s.removeEntry t (s.heap conn).key).fresh := hc
  have hinsert := connections_insertEntry (t := t) (k := (s.heap conn).key) hc'
  rw [conns_removeEntry, Dictionary.lookup_remove, if_pos rfl] at hinsert
  dsimp only
  rw [hinsert]
  split at hremove <;> rename_i hlookup
  · rw [if_pos hlookup]
    omega
  · rw [if_neg hlookup]
    omega

theorem mem_connections : conn ∈ s.connections ↔ ∃ t, conn ∈ (s.conns t).values := by
  simp only [connections, List.mem_append]
  constructor
  · rintro ((h | h) | h)
    · exact ⟨_, h⟩
    · exact ⟨_, h⟩
    · exact ⟨_, h⟩
  · rintro ⟨t, h⟩
    cases t
    · exact Or.inl (Or.inl h)
    · exact Or.inl (Or.inr h)
    · exact Or.inr h

end NetSessions

section Settled

open NetSessions

variable {s s' : NetSessions} {t : Table} {conn : Pointer}

/-- A connection in a table has its place there. -/
theorem Settled.placed (h : Settled s) (hconn : conn ∈ (s.conns t).values) :
    Placed t (s.heap conn).key conn s := by
  obtain ⟨e, he, rfl⟩ := List.mem_map.mp hconn
  obtain ⟨t', k, hplaced⟩ := h e.value (s.allocated t e he)
  obtain ⟨rfl, -⟩ := hplaced.entry t e he rfl
  rwa [hplaced.key]

/-- Whoever is removed from a table is not there any more. -/
theorem Settled.remove_eq (h : Settled s) (hconn : conn ∈ (s.conns t).values) :
    s.remove conn = some (s.removeEntry t (s.heap conn).key) ∧
      (s.removeEntry t (s.heap conn).key).connections.length + 1 = s.connections.length := by
  have hplaced := h.placed hconn
  refine ⟨by rw [remove, hplaced.proto]; rfl, ?_⟩
  have hremove := connections_removeEntry (s := s) (t := t) (k := (s.heap conn).key)
  rwa [(hplaced.lookup_iff hconn).mpr rfl, if_neg (Option.some_ne_none conn)] at hremove

end Settled

/-! ## Events -/

section Packets

open NetSessions

variable {hashBytes : List (BitVec 8) → BitVec 64} {s : NetSessions} {p : Packet} {input : PacketInput}
  {conn : Pointer}

theorem connections_create (hfind : s.find hashBytes p = none) :
    (s.create hashBytes p input).1.connections.length =
      s.connections.length + if input.setup.isSome = true then 1 else 0 := by
  rw [create]
  cases input.setup with
  | none => rfl
  | some setup =>
      have hc : s.fresh < (s.allocate (newConn hashBytes p input.flip setup)).fresh := s.fresh_lt_allocate _
      have hinsert := connections_insertEntry (t := p.table) (k := buildConnIDHashKey hashBytes p.connID) hc
      have hlookup : ((s.allocate (newConn hashBytes p input.flip setup)).conns p.table).lookup
          (buildConnIDHashKey hashBytes p.connID) = none := hfind
      rw [hlookup, if_pos rfl] at hinsert
      exact hinsert

/-- A connection that has been found is not found once it is removed. -/
theorem removed_of_find (hsettled : Settled s) (hfind : s.find hashBytes p = some conn) :
    ∃ s', s.remove conn = some s' ∧ s'.find hashBytes p = none ∧
      s'.connections.length + 1 = s.connections.length := by
  have hconn : conn ∈ (s.conns p.table).values := by
    obtain ⟨e, he, -, hvalue⟩ := Dictionary.lookup_eq_some_iff.mp hfind
    exact List.mem_map.mpr ⟨e, he, hvalue⟩
  have hkey : buildConnIDHashKey hashBytes p.connID = (s.heap conn).key :=
    ((hsettled.placed hconn).lookup_iff hconn).mp hfind
  obtain ⟨hremove, hlength⟩ := hsettled.remove_eq hconn
  refine ⟨_, hremove, ?_, hlength⟩
  rw [find, conns_removeEntry, hkey, Dictionary.lookup_remove]

end Packets

section Events

open NetSessions

variable [TextArchive] {hashBytes : List (BitVec 8) → BitVec 64} {s s' : NetSessions}

omit [TextArchive] in
/-- One that takes the place of another is not announced. -/
theorem replaced_iff {p : Packet} {input : PacketInput} {conn : Pointer} {r : NetSessions × Option Pointer}
    (hsettled : Settled s) (hfind : s.find hashBytes p = some conn)
    (hr : ((s.remove conn).map fun s => s.create hashBytes p input) = some r) :
    (r.1.connections.length : Int) = s.connections.length + adjusted [.packetReceived, .flowDestroyed] ↔
      input.setup = none := by
  obtain ⟨s₁, hremove, hfind₁, hlength⟩ := removed_of_find hsettled hfind
  rw [hremove] at hr
  obtain rfl : s₁.create hashBytes p input = r := Option.some.inj hr
  have hcreate := @connections_create hashBytes s₁ p input hfind₁
  have hadjusted : adjusted [.packetReceived, .flowDestroyed] = -1 := rfl
  rw [hadjusted]
  cases hsetup : input.setup with
  | none =>
      have hlength' : (s₁.create hashBytes p input).1.connections.length = s₁.connections.length := by
        simpa [hsetup] using hcreate
      refine iff_of_true ?_ rfl
      omega
  | some setup =>
      have hlength' : (s₁.create hashBytes p input).1.connections.length = s₁.connections.length + 1 := by
        simpa [hsetup] using hcreate
      refine iff_of_false ?_ (Option.some_ne_none setup)
      omega

/-- A connection that is made where nothing is found is announced. -/
theorem packet_iff (hsettled : Settled s) {p : Packet} {input : PacketInput}
    (hs : step hashBytes s (.packet p input) = some s') :
    (s'.connections.length : Int) =
        s.connections.length + adjusted (happenings hashBytes s (.packet p input)) ↔
      CountsRight hashBytes s (.event (.packet p input)) := by
  obtain ⟨r, hr, rfl⟩ := Option.map_eq_some_iff.mp hs
  rw [NetSessions.doNextPacket] at hr
  simp only [happenings, CountsRight]
  cases hfind : s.find hashBytes p with
  | none =>
      rw [hfind] at hr
      cases hr
      rw [connections_create hfind]
      simp only [adjusted, List.map_cons, List.map_nil, Happening.adjusts, List.sum_cons, List.sum_nil]
      split <;> simp_all
  | some conn =>
      rw [hfind] at hr
      have hnothing : (s.connections.length : Int) = s.connections.length + adjusted [.packetReceived] :=
        (Int.add_zero _).symm
      cases hc : input.consistency with
      | ignored =>
          simp only [hc] at hr ⊢
          cases hr
          exact iff_of_true hnothing trivial
      | reinstantiated =>
          simp only [hc] at hr ⊢
          exact replaced_iff hsettled hfind hr
      | consistent =>
          cases hreuse : input.isReuse with
          | false =>
              simp only [hc, hreuse] at hr ⊢
              cases hr
              exact iff_of_true hnothing trivial
          | true =>
              simp only [hc, hreuse] at hr ⊢
              exact replaced_iff hsettled hfind hr

/-- Where what is put comes from: it is new in memory, or has been there before. -/
inductive Decodes (input : DecodeInput) (state : Text) (s : NetSessions) : NetSessions → Pointer → Prop
  | new {conn : Connection} (h : sdmbnBoostDecode input state = .ok (.new conn)) :
      Decodes input state s (s.allocate (conn.setGetOpId 0)) s.fresh
  | old {conn : Pointer} (h : sdmbnBoostDecode input state = .ok (.old (some conn))) (hc : conn < s.fresh) :
      Decodes input state s (s.modify conn (·.setGetOpId 0)) conn

/-- A put that returns inserts a connection into the table that is its own. -/
theorem localPutPerflow_inserts (input : DecodeInput) (state : Text) (s : NetSessions) :
    Ends (fun _ => True) (localPutPerflow input state s) fun r => r.2 = 1 ∧
      ∃ s₁ conn hc t, Decodes input state s s₁ conn ∧ s₁.insert conn hc = some r.1 ∧
        (s₁.heap conn).proto.table = some t ∧ putKey input state s = some (t, (s₁.heap conn).key) := by
  rw [localPutPerflow, putKey]
  split
  · trivial
  · trivial
  case h_3 conn hdecode =>
    split
    case isTrue hc =>
      have hheap : (s.modify conn (·.setGetOpId 0)).heap conn = (s.heap conn).setGetOpId 0 :=
        heap_modify_self ..
      split
      · trivial
      case h_2 s' hs =>
        obtain ⟨t, ht, -⟩ := Option.map_eq_some_iff.mp hs
        refine ⟨rfl, s.modify conn (·.setGetOpId 0), conn, hc, t, .old hdecode hc, hs, ht, ?_⟩
        rw [hheap] at ht ⊢
        have ht' : (s.heap conn).proto.table = some t := ht
        simp only [hdecode, ht', Option.map_some]
        rfl
    case isFalse => trivial
  case h_4 conn hdecode =>
    have hheap : (s.allocate (conn.setGetOpId 0)).heap s.fresh = conn.setGetOpId 0 :=
      Function.update_self ..
    split
    · trivial
    case h_2 s' hs =>
      obtain ⟨t, ht, -⟩ := Option.map_eq_some_iff.mp hs
      refine ⟨rfl, s.allocate (conn.setGetOpId 0), s.fresh, Nat.lt_succ_self _, t, .new hdecode, hs, ht, ?_⟩
      rw [hheap] at ht ⊢
      have ht' : conn.proto.table = some t := ht
      simp only [hdecode, ht', Option.map_some]
      rfl

omit [TextArchive] in
theorem connections_congr (h : s'.conns = s.conns) : s'.connections = s.connections := by
  simp only [connections, h]

theorem Decodes.conns {input : DecodeInput} {state : Text} {s₁ : NetSessions} {conn : Pointer}
    (h : Decodes input state s s₁ conn) : s₁.conns = s.conns := by
  cases h <;> rfl

/-- What is put is counted as one more. -/
theorem put_iff {input : DecodeInput} {state : Text} (hs : step hashBytes s (.put input state) = some s') :
    (s'.connections.length : Int) =
        s.connections.length + adjusted (happenings hashBytes s (.put input state)) ↔
      CountsRight hashBytes s (.event (.put input state)) := by
  obtain ⟨⟨s₁, result⟩, hr, rfl⟩ := Option.map_eq_some_iff.mp hs
  obtain ⟨hone, s₀, conn, hc, t, hdecodes, hinsert, ht, hkey⟩ :=
    (localPutPerflow_inserts input state s).of_toOption hr
  have hlength := connections_insert hc ht hinsert
  rw [connections_congr hdecodes.conns, hdecodes.conns] at hlength
  have hput : happenings hashBytes s (.put input state) = [.put 1] := by
    rw [happenings]
    cases hp : localPutPerflow input state s with
    | error halt =>
        rw [hp] at hr
        cases hr
    | ok r =>
        rw [hp] at hr
        cases hr
        rw [← hone]
  have hright : CountsRight hashBytes s (.event (.put input state)) ↔
      (s.conns t).lookup (s₀.heap conn).key = none := by
    simp [CountsRight, hkey]
  have hadjusted : adjusted [.put 1] = 1 := rfl
  rw [hput, hadjusted, hright, hlength]
  split
  · exact iff_of_true (Nat.cast_add ..) ‹_›
  · refine iff_of_false ?_ ‹_›
    omega

/-- An event that counts for as much as it changes. -/
theorem flowTables_step_iff (hsettled : Settled s) {event : FlowEvent} {out : NetSessions × List Happening}
    (hs : (flowTables hashBytes).step s event = some out) :
    ((flowTables hashBytes).flows out.1 : Int) = (flowTables hashBytes).flows s + adjusted out.2 ↔
      CountsRight hashBytes s event := by
  have hnothing : (s.connections.length : Int) = s.connections.length + adjusted [] := (Int.add_zero _).symm
  cases event with
  | deletePerflow =>
      cases hs
      exact iff_of_true hnothing trivial
  | event event =>
      obtain ⟨s', hstep, rfl⟩ := Option.map_eq_some_iff.mp hs
      cases event with
      | packet p input => exact packet_iff hsettled hstep
      | put input state => exact put_iff hstep
      | work conn c =>
          rw [step] at hstep
          split at hstep
          · cases hstep
            exact iff_of_true hnothing trivial
          · cases hstep
      | get input =>
          obtain ⟨r, hr, rfl⟩ := Option.map_eq_some_iff.mp hstep
          have halike := (localGetPerflow_alike input s).of_toOption hr
          have hsame : r.1.connections = s.connections := connections_congr halike.conns
          have hcount : (r.1.connections.length : Int) = s.connections.length + adjusted [] := by
            rw [hsame]
            exact hnothing
          exact iff_of_true hcount trivial
      | remove conn =>
          have hcount : (s'.connections.length : Int) =
              s.connections.length + adjusted (happenings hashBytes s (.remove conn)) := by
            rw [step] at hstep
            rw [happenings]
            split at hstep
            case isTrue hconn =>
              obtain ⟨t, hmem⟩ := mem_connections.mp hconn
              obtain ⟨hremove, hlength⟩ := hsettled.remove_eq hmem
              rw [hremove] at hstep
              cases hstep
              have hadjusted : adjusted [.flowDestroyed] = -1 := rfl
              rw [if_pos hconn, hadjusted]
              omega
            case isFalse hconn =>
              cases hstep
              rw [if_neg hconn]
              exact hnothing
          exact iff_of_true hcount trivial

theorem flowTables_step_settled (hsettled : Settled s) {event : FlowEvent}
    {out : NetSessions × List Happening} (hs : (flowTables hashBytes).step s event = some out) :
    Settled out.1 := by
  cases event with
  | deletePerflow =>
      cases hs
      exact hsettled
  | event event =>
      obtain ⟨s', hstep, rfl⟩ := Option.map_eq_some_iff.mp hs
      exact hsettled.change (step_change hstep)

end Events

end OFM.Bro
