import OFM.Bro.Lemmas.FlowsActive
import OFM.Bro.TcpStats
import OFM.Bro.Theorems.FoundAgain

/-!
# When `tcp_stats` is consistent

A connection that is moved is not left, and is not entered where it is put. So the counters are wrong from the
first get that marks a connection of TCP and the first put of one, unless it takes the place of another one in the
same states.
-/

namespace OFM.Bro
open OFM.Lib OFM.Lib.Machine
open OFM.Lib

/-! ## What is counted of the states of TCP connections

What each event does to the number of connections in some states, and to the counters.
-/

section Counts

namespace Dictionary

variable {β γ : Type} [DecidableEq γ] {d : Dictionary β} {k : HashKey} {value : β} {f : β → Option γ} {b : γ}

/-- What is found for a key is not there any more. -/
theorem tally_remove : tally f (d.remove k).values b + share ((d.lookup k).bind f) b = tally f d.values b := by
  cases hlookup : d.lookup k with
  | none =>
      have hsame : (d.remove k).entries = d.entries :=
        List.eraseP_of_forall_not (by simpa using lookup_eq_none_iff.mp hlookup)
      rw [values, hsame]
      rfl
  | some value =>
      obtain ⟨e, he, hname, rfl⟩ := lookup_eq_some_iff.mp hlookup
      obtain ⟨e', pre, post, -, hname', hd, hremove⟩ := List.exists_of_eraseP
        (p := fun e => e.name = k.name) he (decide_eq_true hname)
      have he' : e' ∈ d.entries := by
        rw [hd]
        exact List.mem_append_right pre List.mem_cons_self
      obtain rfl := eq_of_name_eq he he' (hname.trans (of_decide_eq_true hname').symm)
      have hvalues : (d.remove k).values = (pre ++ post).map DictEntry.value :=
        congrArg (List.map DictEntry.value) hremove
      rw [hvalues, values, hd, List.map_append, List.map_append, List.map_cons, tally_middle]
      exact Nat.add_comm ..

theorem tally_insert (h : d.lookup k = none) :
    tally f (d.insert k value).values b = tally f d.values b + share (f value) b := by
  have hentries : (d.insert k value).entries = d.entries ++ [.ofKey k value] := by
    simp only [insert, any_iff, h, ne_eq, not_true, if_false]
  rw [values, hentries, List.map_append]
  exact tally_concat

end Dictionary

/-! ## The counters -/

namespace TCPStateStats

variable {stats : TCPStateStats} {x e : EndpointStates}

theorem stateCnt_stateEntered :
    (stats.stateEntered x).stateCnt e = stats.stateCnt e + share (some x) e := by
  by_cases h : x = e
  · subst h
    simp [stateEntered, share]
  · simp [stateEntered, share, h, Function.update_of_ne (Ne.symm h)]

theorem stateCnt_stateLeft : (stats.stateLeft x).stateCnt e = stats.stateCnt e - share (some x) e := by
  by_cases h : x = e
  · subst h
    simp [stateLeft, share]
  · simp [stateLeft, share, h, Function.update_of_ne (Ne.symm h)]

theorem below_stateLeft (h : 0 < stats.stateCnt x) : (stats.stateLeft x).below = stats.below := by
  simp [stateLeft, h]

end TCPStateStats

/-! ## The tables -/

section Tables

open NetSessions

variable {s : NetSessions} {t : Table} {k : HashKey} {conn : Pointer} {f : Pointer → Option EndpointStates}
  {e : EndpointStates}

/-- Only an entry of the table of TCP counts. -/
theorem tally_removeEntry :
    tally f ((s.removeEntry t k).conns .tcp).values e +
        (if t = .tcp then share (((s.conns .tcp).lookup k).bind f) e else 0) =
      tally f (s.conns .tcp).values e := by
  by_cases ht : t = .tcp
  · subst ht
    rw [conns_removeEntry, if_pos rfl]
    exact Dictionary.tally_remove
  · rw [if_neg ht, removeEntry, setTable]
    simp only [Function.update_of_ne (Ne.symm ht), Nat.add_zero]

theorem tally_insertEntry (hc : conn < s.fresh) (h : (s.conns t).lookup k = none) :
    tally f ((s.insertEntry t k conn hc).conns .tcp).values e =
      tally f (s.conns .tcp).values e + if t = .tcp then share (f conn) e else 0 := by
  rw [insertEntry, setTable]
  by_cases ht : t = .tcp
  · subst ht
    rw [if_pos rfl]
    simp only [Function.update_self]
    exact Dictionary.tally_insert h
  · rw [if_neg ht]
    simp only [Function.update_of_ne (Ne.symm ht), Nat.add_zero]

/-- A connection that is in a table is in memory. -/
theorem NetSessions.lt_fresh (h : conn ∈ (s.conns t).values) : conn < s.fresh := by
  obtain ⟨e, he, rfl⟩ := List.mem_map.mp h
  exact s.allocated t e he

end Tables

/-! ## What a get marks -/

section Marks

variable {input : GetInput} {s s' s'' : NetSessions} {conns conns' : List Pointer}

/-- The connections of a list that pass the checks are marked if the get raises events, and nothing else is. -/
structure Marks (input : GetInput) (conns : List Pointer) (s s' : NetSessions) : Prop where
  hasTCPAnalyzer : ∀ p, (s'.heap p).hasTCPAnalyzer = (s.heap p).hasTCPAnalyzer
  moved : ∀ p, (s'.heap p).moved = true ↔
    (s.heap p).moved = true ∨ (input.raiseEvents = true ∧ p ∈ conns ∧ input.selects (s.heap p) = true)
  selects : ∀ p, (s'.heap p).moved = false → input.selects (s'.heap p) = input.selects (s.heap p)

theorem Marks.refl (input : GetInput) (s : NetSessions) : Marks input [] s s :=
  ⟨fun _ => rfl, by simp, fun _ _ => rfl⟩

theorem Marks.append (h : Marks input conns s s') (h' : Marks input conns' s' s'') :
    Marks input (conns ++ conns') s s'' where
  hasTCPAnalyzer p := (h'.hasTCPAnalyzer p).trans (h.hasTCPAnalyzer p)
  moved p := by
    rw [h'.moved, List.mem_append]
    cases hm : (s'.heap p).moved with
    | true =>
        have hp := (h.moved p).mp hm
        refine iff_of_true (Or.inl rfl) (hp.imp_right ?_)
        exact fun ⟨hraise, hmem, hsel⟩ => ⟨hraise, Or.inl hmem, hsel⟩
    | false =>
        have hp : ¬ ((s.heap p).moved = true ∨
            (input.raiseEvents = true ∧ p ∈ conns ∧ input.selects (s.heap p) = true)) := by
          rw [← h.moved, hm]
          exact Bool.false_ne_true
        rw [h.selects p hm]
        tauto
  selects p hp := by
    have hp' : (s'.heap p).moved = false := by
      rw [← Bool.not_eq_true, h'.moved, not_or, Bool.not_eq_true] at hp
      exact hp.1
    exact (h'.selects p hp).trans (h.selects p hp')

/-- A connection that does not pass the checks. -/
theorem Marks.single_of_not {p : Pointer} (h : input.selects (s.heap p) = false) : Marks input [p] s s where
  hasTCPAnalyzer _ := rfl
  moved q := by
    refine ⟨Or.inl, fun hq => hq.elim id ?_⟩
    rintro ⟨-, hmem, hsel⟩
    rw [List.mem_singleton.mp hmem, h] at hsel
    cases hsel
  selects _ _ := rfl

/-- One that does. -/
theorem Marks.single {p : Pointer} (h : input.selects (s.heap p) = true) {f : Connection → Connection}
    (hf : ∀ c, ∃ lock, f c = { input.take c with lock := lock }) : Marks input [p] s (s.modify p f) := by
  obtain ⟨lock, hlock⟩ := hf (s.heap p)
  have hself : (s.modify p f).heap p = { input.take (s.heap p) with lock := lock } := by
    rw [NetSessions.heap_modify_self, hlock]
  have hmoved : (input.take (s.heap p)).moved = true ↔
      (s.heap p).moved = true ∨ input.raiseEvents = true := by
    rw [GetInput.take]
    cases input.raiseEvents <;> simp [Connection.setGetOpId, Connection.markMoved]
  refine ⟨fun q => ?_, fun q => ?_, fun q hq => ?_⟩
  · by_cases he : q = p
    · rw [he, hself, Connection.hasTCPAnalyzer, Connection.hasTCPAnalyzer, GetInput.take]
      split <;> rfl
    · rw [NetSessions.heap_modify_of_ne _ he]
  · by_cases he : q = p
    · rw [he, hself]
      refine hmoved.trans (or_congr_right ?_)
      simp [h]
    · rw [NetSessions.heap_modify_of_ne _ he]
      simp [he]
  · by_cases he : q = p
    · rw [he, hself] at hq ⊢
      have hraise : input.raiseEvents = false := by
        rw [← Bool.not_eq_true]
        exact fun hr => Bool.false_ne_true (hq.symm.trans (hmoved.mpr (Or.inr hr)))
      rw [GetInput.selects, GetInput.selects, GetInput.take, hraise]
      rfl
    · rw [NetSessions.heap_modify_of_ne _ he]

variable [TextArchive]

theorem getConns_marks (input : GetInput) : ∀ (conns : List Pointer) (s : NetSessions) (count : Nat),
    Ends (fun _ => True) (getConns input conns s count) fun r => Marks input conns s r.1
  | [], s, _ => .refl input s
  | p :: rest, s, count => by
      rw [getConns]
      dsimp only
      split
      case isTrue hsel =>
        have hsel : input.selects (s.heap p) = false := by simpa [GetInput.selects] using hsel
        exact (getConns_marks input rest s count).mono fun r hr => (Marks.single_of_not hsel).append hr
      case isFalse hsel =>
        have hsel : input.selects (s.heap p) = true := by simpa [GetInput.selects] using hsel
        split
        · trivial
        · split
          · trivial
          · have hone : Marks input [p] s (s.modify p fun c => { input.take c with lock := true }) :=
              .single hsel fun c => ⟨true, rfl⟩
            exact (getConns_marks input rest _ count).mono fun r hr => hone.append hr
          · have hone : Marks input [p] s (s.modify p input.take) := .single hsel fun c => ⟨_, rfl⟩
            exact (getConns_marks input rest _ _).bind fun r hr => hone.append hr

theorem getTables_marks (input : GetInput) : ∀ (tables : List Table) (s : NetSessions),
    Ends (fun _ => True) (getTables input tables s) fun r =>
      Marks input (tables.flatMap fun t => (s.conns t).values) s r.1
  | [], s => .refl input s
  | t :: rest, s =>
      ((getConns_alike input (s.conns t).values s 0).and (getConns_marks input _ s 0)).bind fun r hr =>
        (getTables_marks input rest r.1).bind fun r' hr' => by
          have hboth := hr.2.append hr'
          rwa [hr.1.conns] at hboth

theorem localGetPerflow_marks (input : GetInput) (s : NetSessions) :
    Ends (fun _ => True) (localGetPerflow input s) fun r => Marks input (s.listed input.key) s r.1 := by
  rw [localGetPerflow_eq_getTables]
  exact getTables_marks input _ s

end Marks

/-! ## Events -/

namespace TCPSessions

open NetSessions

variable {s s' : TCPSessions} {conn : Pointer} {e : EndpointStates}

theorem Active.statesOf_eq (h : s.Active conn) : s.statesOf conn = some (s.states conn) := by
  simp [statesOf, h.2.1, h.2.2]

theorem statesOf_of_table {t : Table} (ht : (s.sessions.heap conn).proto.table = some t) (hne : t ≠ .tcp) :
    s.statesOf conn = none := by
  have hproto : (s.sessions.heap conn).proto ≠ .tcp := fun hp => by
    rw [hp] at ht
    exact hne (Option.some.inj ht).symm
  simp [statesOf, Connection.hasTCPAnalyzer, hproto]

/-- A connection that is counted leaves one of the counters above zero. -/
theorem Consistent.pos (h : s.Consistent) (hconn : conn ∈ (s.sessions.conns .tcp).values)
    (hstates : s.statesOf conn = some e) : 0 < s.tcpStats.stateCnt e := by
  have hshare : share (s.statesOf conn) e ≤ s.inStates e := share_le_tally hconn
  rw [hstates, share, if_pos rfl] at hshare
  rw [h.counted]
  omega

/-- One connection changes its states, and the counters with it. -/
theorem Consistent.changeState (h : s.Consistent) (hs : s.sessions.Orderly) (hactive : s.Active conn)
    {now : EndpointStates} (hsessions : s'.sessions = s.sessions)
    (hstates : s'.states = Function.update s.states conn now)
    (hstats : s'.tcpStats = s.tcpStats.changeState (s.states conn) now) : s'.Consistent := by
  have hother : ∀ y, y ≠ conn → s'.statesOf y = s.statesOf y := fun y hy => by
    simp only [statesOf, hsessions, hstates, Function.update_of_ne hy]
  have hnow : s'.statesOf conn = some now := by
    simp [statesOf, hsessions, hstates, hactive.2.1, hactive.2.2]
  constructor
  · intro e
    have htally := tally_update (b := e) (hs.distinct .tcp) hactive.1 fun y _ hy => hother y hy
    rw [hnow, hactive.statesOf_eq] at htally
    have hcount : s.tcpStats.stateCnt e = tally s.statesOf (s.sessions.conns .tcp).values e := h.counted e
    rw [hstats, TCPStateStats.changeState, TCPStateStats.stateCnt_stateEntered,
      TCPStateStats.stateCnt_stateLeft, inStates, hsessions, hcount]
    omega
  · rw [hstats]
    exact (TCPStateStats.below_stateLeft (h.pos hactive.1 hactive.statesOf_eq)).trans h.above

theorem Consistent.setState (h : s.Consistent) (hs : s.sessions.Orderly) (hactive : s.Active conn)
    (isOrig : Bool) (newState : EndpointState) : (s.setState conn isOrig newState).Consistent := by
  rw [TCPSessions.setState]
  dsimp only
  split <;> split
  · exact h.changeState hs hactive rfl rfl rfl
  · exact h
  · exact h.changeState hs hactive rfl rfl rfl
  · exact h

theorem Consistent.flipRoles (h : s.Consistent) (hs : s.sessions.Orderly) (hactive : s.Active conn) :
    (s.flipRoles conn).Consistent := h.changeState hs hactive rfl rfl rfl

/-- The counter of a connection that is not marked goes down when it is removed. -/
theorem Consistent.remove (h : s.Consistent) (hs : Settled s.sessions) {t : Table}
    (hconn : conn ∈ (s.sessions.conns t).values) (hremove : s.remove conn = some s') : s'.Consistent := by
  have hplaced := hs.placed hconn
  obtain ⟨s₁, hs₁, rfl⟩ := Option.map_eq_some_iff.mp hremove
  rw [(hs.remove_eq hconn).1] at hs₁
  cases hs₁
  have htally : ∀ e, tally s.statesOf
      ((s.sessions.removeEntry t (s.sessions.heap conn).key).conns .tcp).values e +
        share (s.statesOf conn) e = s.inStates e := by
    intro e
    have hentry := tally_removeEntry (s := s.sessions) (t := t) (k := (s.sessions.heap conn).key)
      (f := s.statesOf) (e := e)
    by_cases ht : t = .tcp
    · subst ht
      rw [if_pos rfl, (hplaced.lookup_iff hconn).mpr rfl] at hentry
      exact hentry
    · rw [if_neg ht] at hentry
      rw [statesOf_of_table hplaced.proto ht]
      exact hentry
  dsimp only
  split
  case isTrue hcounted =>
    have hstates : s.statesOf conn = some (s.states conn) := if_pos hcounted
    have htcp : t = .tcp := by
      by_contra hne
      rw [statesOf_of_table hplaced.proto hne] at hstates
      cases hstates
    subst htcp
    constructor
    · intro e
      have hcount := h.counted e
      have he := htally e
      rw [hstates] at he
      rw [TCPStateStats.stateCnt_stateLeft, hcount, ← he]
      exact (by omega : ∀ n m : Nat, ((n + m : Nat) : Int) - m = n) _ _
    · exact (TCPStateStats.below_stateLeft (h.pos hconn hstates)).trans h.above
  case isFalse hcounted =>
    have hstates : s.statesOf conn = none := if_neg hcounted
    refine ⟨fun e => ?_, h.above⟩
    have he := htally e
    rw [hstates, share_none, Nat.add_zero] at he
    exact (h.counted e).trans (congrArg Nat.cast he.symm)

/-! ### Insertions -/

theorem inStates_congr (hconns : s'.sessions.conns = s.sessions.conns)
    (h : ∀ y < s.sessions.fresh, s'.statesOf y = s.statesOf y) : s'.inStates e = s.inStates e := by
  rw [inStates, inStates, hconns]
  exact tally_congr fun y hy => h y (lt_fresh hy)

/-- What a connection in the table of TCP is found for is counted no more once it is replaced. -/
theorem inStates_insert {t : Table} (ht : (s.sessions.heap conn).proto.table = some t)
    (hc : conn < s.sessions.fresh) {s₁ : NetSessions} (hs : s.sessions.insert conn hc = some s₁) :
    inStates { s with sessions := s₁ } e +
        (if t = .tcp then share (((s.sessions.conns .tcp).lookup (s.sessions.heap conn).key).bind s.statesOf) e
          else 0) =
      s.inStates e + share (s.statesOf conn) e := by
  rw [NetSessions.insert, ht] at hs
  cases hs
  have hremove := tally_removeEntry (s := s.sessions) (t := t) (k := (s.sessions.heap conn).key)
    (f := s.statesOf) (e := e)
  have hnone : ((s.sessions.removeEntry t (s.sessions.heap conn).key).conns t).lookup
      (s.sessions.heap conn).key = none := by
    rw [conns_removeEntry, Dictionary.lookup_remove]
  have hinsert := @tally_insertEntry (s.sessions.removeEntry t (s.sessions.heap conn).key) _ _ conn s.statesOf e
    hc hnone
  have hshare : (if t = .tcp then share (s.statesOf conn) e else 0) = share (s.statesOf conn) e := by
    by_cases htcp : t = .tcp
    · exact if_pos htcp
    · rw [if_neg htcp, statesOf_of_table ht htcp, share_none]
  rw [hshare] at hinsert
  have hstates : inStates { s with
      sessions := (s.sessions.removeEntry t (s.sessions.heap conn).key).insertEntry t
        (s.sessions.heap conn).key conn hc } e = _ := hinsert
  dsimp only
  rw [hstates, inStates, ← hremove]
  omega

theorem inStates_allocate {c : Connection} {t : Table} {k : HashKey}
    (hc : s.sessions.fresh < (s.sessions.allocate c).fresh) (h : (s.sessions.conns t).lookup k = none)
    (hsessions : s'.sessions = (s.sessions.allocate c).insertEntry t k s.sessions.fresh hc)
    (hstates : ∀ y < s.sessions.fresh, s'.states y = s.states y) :
    s'.inStates e = s.inStates e + if t = .tcp then share (s'.statesOf s.sessions.fresh) e else 0 := by
  have hinsert := tally_insertEntry (s := s.sessions.allocate c) (f := s'.statesOf) (e := e) hc h
  have hsame : tally s'.statesOf (s.sessions.conns .tcp).values e = s.inStates e := by
    refine tally_congr fun y hy => ?_
    have hlt : y < s.sessions.fresh := lt_fresh hy
    have hheap : s'.sessions.heap y = s.sessions.heap y := by
      rw [hsessions]
      exact Function.update_of_ne (Nat.ne_of_lt hlt) ..
    rw [statesOf, statesOf, hheap, hstates y hlt]
  rw [inStates, hsessions, hinsert, ← hsame]
  rfl

section Create

variable {c : Connection} {t : Table} {k : HashKey} (hc : s.sessions.fresh < (s.sessions.allocate c).fresh)
  (hlookup : (s.sessions.conns t).lookup k = none)
  (hsessions : s'.sessions = (s.sessions.allocate c).insertEntry t k s.sessions.fresh hc)

include hlookup hsessions

/-- A connection that is counted is in the table of TCP. -/
theorem Consistent.entered (h : s.Consistent) (ht : c.proto.table = some t) (hmoved : c.moved = false)
    (hTCP : c.hasTCPAnalyzer = true) {states : EndpointStates}
    (hstates : s'.states = Function.update s.states s.sessions.fresh states)
    (hstats : s'.tcpStats = s.tcpStats.stateEntered states) : s'.Consistent := by
  have htcp : t = .tcp := by
    rw [Connection.hasTCPAnalyzer, Bool.and_eq_true] at hTCP
    rw [of_decide_eq_true hTCP.1] at ht
    exact (Option.some.inj ht).symm
  have hheap : s'.sessions.heap s.sessions.fresh = c := by
    rw [hsessions]
    exact Function.update_self ..
  have hnew : s'.statesOf s.sessions.fresh = some states := by
    simp [statesOf, hheap, hmoved, hTCP, hstates]
  have hother : ∀ y < s.sessions.fresh, s'.states y = s.states y := fun y hy => by
    rw [hstates, Function.update_of_ne (Nat.ne_of_lt hy)]
  refine ⟨fun e => ?_, by rw [hstats]; exact h.above⟩
  rw [inStates_allocate hc hlookup hsessions hother, if_pos htcp, hnew, hstats,
    TCPStateStats.stateCnt_stateEntered, h.counted]
  rfl

theorem Consistent.unentered (h : s.Consistent) (hTCP : c.hasTCPAnalyzer = false)
    (hstates : s'.states = s.states) (hstats : s'.tcpStats = s.tcpStats) : s'.Consistent := by
  have hheap : s'.sessions.heap s.sessions.fresh = c := by
    rw [hsessions]
    exact Function.update_self ..
  have hnew : s'.statesOf s.sessions.fresh = none := by
    simp [statesOf, hheap, hTCP]
  refine ⟨fun e => ?_, by rw [hstats]; exact h.above⟩
  rw [inStates_allocate hc hlookup hsessions fun y _ => by rw [hstates], hnew, share_none, ite_self,
    Nat.add_zero, hstats, h.counted]

end Create

/-- A new connection is counted. -/
theorem Consistent.create (h : s.Consistent) {hashBytes : List (BitVec 8) → BitVec 64} {p : Packet}
    {input : PacketInput} (hfind : s.sessions.find hashBytes p = none) :
    (s.create hashBytes p input).Consistent := by
  rw [TCPSessions.create, NetSessions.create]
  cases input.setup with
  | none => exact h
  | some setup =>
      have hc := s.sessions.fresh_lt_allocate (newConn hashBytes p input.flip setup)
      have hheap : ((s.sessions.allocate (newConn hashBytes p input.flip setup)).insertEntry p.table
          (buildConnIDHashKey hashBytes p.connID) s.sessions.fresh hc).heap
          s.sessions.fresh = newConn hashBytes p input.flip setup := Function.update_self ..
      dsimp only
      split
      case isTrue hTCP => exact h.entered hc hfind rfl p.table_tproto rfl (hheap ▸ hTCP) rfl rfl
      case isFalse hTCP =>
        exact h.unentered hc hfind rfl (hheap ▸ Bool.eq_false_of_not_eq_true hTCP) rfl rfl

/-! ### Steps -/

section Steps

variable [TextArchive]

/-- The states of what a put inserts. -/
def putStates (s : TCPSessions) (input : DecodeInput) (state : Text) (states : EndpointStates) :
    Option EndpointStates :=
  match sdmbnBoostDecode input state with
  | .ok (.new conn) => if !conn.moved && conn.hasTCPAnalyzer then some states else none
  | .ok (.old (some conn)) => s.statesOf conn
  | _ => none

/-- A get marks no connection that is counted, and a put inserts as much as it replaces. -/
def KeepsCount (s : TCPSessions) : TCPEvent → Prop
  | .get input => input.raiseEvents = true →
      ∀ conn ∈ s.sessions.listed input.key, s.Active conn → input.selects (s.sessions.heap conn) = false
  | .put input state states => ∀ place ∈ putKey input state s.sessions, place.1 = .tcp →
      ((s.sessions.conns .tcp).lookup place.2).bind s.statesOf = s.putStates input state states
  | _ => True

variable {hashBytes : List (BitVec 8) → BitVec 64}

omit [TextArchive] in
theorem Consistent.doNextPacket (h : s.Consistent) (hs : Settled s.sessions) {p : Packet} {input : PacketInput}
    (hstep : s.doNextPacket hashBytes p input = some s') : s'.Consistent := by
  rw [TCPSessions.doNextPacket] at hstep
  split at hstep
  case h_1 hfind =>
    cases hstep
    exact h.create hfind
  case h_2 conn hfind =>
    split at hstep
    · cases hstep
      exact h
    · cases hstep
      exact h
    · obtain ⟨s₁, hremove, rfl⟩ := Option.map_eq_some_iff.mp hstep
      obtain ⟨t, ht, hfind', -⟩ := removed_of_find hs hfind
      have hconn : conn ∈ (s.sessions.conns p.table).values := by
        obtain ⟨e, he, -, hvalue⟩ := Dictionary.lookup_eq_some_iff.mp hfind
        exact List.mem_map.mpr ⟨e, he, hvalue⟩
      refine (h.remove hs hconn hremove).create ?_
      obtain ⟨t', ht', rfl⟩ := Option.map_eq_some_iff.mp hremove
      rw [ht] at ht'
      cases ht'
      exact hfind'

omit [TextArchive] in
/-- Where the counters are left alone, as many connections have to be in each of the states. -/
theorem Consistent.iff_of_stats (h : s.Consistent) (hstats : s'.tcpStats = s.tcpStats) :
    s'.Consistent ↔ ∀ e, s'.inStates e = s.inStates e := by
  constructor
  · intro h' e
    have hcounted := h'.counted e
    rw [hstats, h.counted] at hcounted
    exact (Int.ofNat_inj.mp hcounted).symm
  · intro hsame
    refine ⟨fun e => ?_, by rw [hstats]; exact h.above⟩
    rw [hstats, h.counted, hsame]

omit [TextArchive] in
theorem active_iff (hconn : conn ∈ (s.sessions.conns .tcp).values) : s.Active conn ↔ s.statesOf conn ≠ none := by
  simp [Active, statesOf, hconn]

omit [TextArchive] in
theorem statesOf_marks {input : GetInput} {conns : List Pointer} {t : NetSessions}
    (h : Marks input conns s.sessions t) (conn : Pointer) :
    statesOf { s with sessions := t } conn =
      if input.raiseEvents = true ∧ conn ∈ conns ∧ input.selects (s.sessions.heap conn) = true then none
      else s.statesOf conn := by
  have hmoved := h.moved conn
  by_cases hmark : input.raiseEvents = true ∧ conn ∈ conns ∧ input.selects (s.sessions.heap conn) = true
  · rw [if_pos hmark, statesOf]
    simp [hmoved.mpr (Or.inr hmark)]
  · have hsame : (t.heap conn).moved = (s.sessions.heap conn).moved := by
      rw [Bool.eq_iff_iff, hmoved]
      exact or_iff_left hmark
    rw [if_neg hmark, statesOf, statesOf]
    simp only [hsame, h.hasTCPAnalyzer]

theorem consistent_get_iff (h : s.Consistent) {input : GetInput}
    (hstep : s.step hashBytes (.get input) = some s') : s'.Consistent ↔ s.KeepsCount (.get input) := by
  obtain ⟨t, ht, rfl⟩ := Option.map_eq_some_iff.mp hstep
  obtain ⟨r, hr, rfl⟩ := Option.map_eq_some_iff.mp ht
  have halike := (localGetPerflow_alike input s.sessions).of_toOption hr
  have hmarks := (localGetPerflow_marks input s.sessions).of_toOption hr
  have hstates := statesOf_marks (s := s) hmarks
  have hinStates : ∀ e, inStates { s with sessions := r.1 } e =
      tally (statesOf { s with sessions := r.1 }) (s.sessions.conns .tcp).values e := by
    intro e
    rw [inStates, halike.conns]
  rw [@Consistent.iff_of_stats s { s with sessions := r.1 } h rfl]
  simp only [hinStates]
  rw [inStates, tally_eq_iff]
  · constructor
    · intro hsame hraise conn hlisted hactive
      by_contra hselects
      have hconn := hsame conn hactive.1
      rw [hstates, if_pos ⟨hraise, hlisted, Bool.eq_true_of_not_eq_false hselects⟩] at hconn
      exact (active_iff hactive.1).mp hactive hconn.symm
    · intro hkeeps conn hconn
      rw [hstates]
      split
      case isTrue hmark =>
        by_contra hne
        have hactive : s.Active conn := (active_iff hconn).mpr fun hnone => hne hnone.symm
        rw [hkeeps hmark.1 conn hmark.2.1 hactive] at hmark
        cases hmark.2.2
      case isFalse => rfl
  · intro conn _
    rw [hstates]
    split
    · exact Or.inr rfl
    · exact Or.inl rfl

/-- Before it inserts, a put changes nothing that is counted. -/
theorem statesOf_decodes {input : DecodeInput} {state : Text} {s₁ : NetSessions}
    (h : Decodes input state s.sessions s₁ conn) (hsessions : s'.sessions = s₁) {states : EndpointStates}
    (hstates : s'.states = Function.update s.states s.sessions.fresh states) :
    (∀ y < s.sessions.fresh, s'.statesOf y = s.statesOf y) ∧
      s'.statesOf conn = s.putStates input state states := by
  have hother : ∀ y < s.sessions.fresh, s'.states y = s.states y := fun y hy => by
    rw [hstates, Function.update_of_ne (Nat.ne_of_lt hy)]
  cases h with
  | @new c hdecode =>
      constructor
      · intro y hy
        have hheap : s'.sessions.heap y = s.sessions.heap y := by
          rw [hsessions]
          exact Function.update_of_ne (Nat.ne_of_lt hy) ..
        rw [statesOf, statesOf, hheap, hother y hy]
      · have hheap : s'.sessions.heap s.sessions.fresh = c.setGetOpId 0 := by
          rw [hsessions]
          exact Function.update_self ..
        rw [putStates, hdecode, statesOf, hheap, hstates, Function.update_self]
        rfl
  | old hdecode hc =>
      have hbefore : ∀ y < s.sessions.fresh, s'.statesOf y = s.statesOf y := by
        intro y hy
        rw [statesOf, statesOf, hother y hy, hsessions]
        by_cases he : y = conn
        · rw [he, heap_modify_self]
          rfl
        · rw [heap_modify_of_ne _ he]
      refine ⟨hbefore, ?_⟩
      rw [putStates, hdecode]
      exact hbefore conn hc

/-- A put leaves the counters alone. -/
theorem consistent_put_iff (h : s.Consistent) {input : DecodeInput} {state : Text} {states : EndpointStates}
    (hstep : s.step hashBytes (.put input state states) = some s') :
    s'.Consistent ↔ s.KeepsCount (.put input state states) := by
  obtain ⟨t, ht, rfl⟩ := Option.map_eq_some_iff.mp hstep
  obtain ⟨r, hr, rfl⟩ := Option.map_eq_some_iff.mp ht
  obtain ⟨-, s₁, conn, hc, t, hdecodes, hinsert, htable, hkey⟩ :=
    (localPutPerflow_inserts input state s.sessions).of_toOption hr
  let s₂ : TCPSessions :=
    { s with sessions := s₁, states := Function.update s.states s.sessions.fresh states }
  obtain ⟨hbefore, hput⟩ := @statesOf_decodes s s₂ conn _ input state s₁ hdecodes rfl states rfl
  have hsame : ∀ e, s₂.inStates e = s.inStates e := fun e => inStates_congr hdecodes.conns hbefore
  have hreplaced : ((s₁.conns .tcp).lookup (s₁.heap conn).key).bind s₂.statesOf =
      ((s.sessions.conns .tcp).lookup (s₁.heap conn).key).bind s.statesOf := by
    rw [hdecodes.conns]
    cases hlookup : (s.sessions.conns .tcp).lookup (s₁.heap conn).key with
    | none => rfl
    | some y =>
        obtain ⟨e, he, -, hvalue⟩ := Dictionary.lookup_eq_some_iff.mp hlookup
        exact hbefore y (lt_fresh (List.mem_map.mpr ⟨e, he, hvalue⟩))
  have hcount : ∀ e, inStates { s₂ with sessions := r.1 } e +
      (if t = .tcp then share (((s.sessions.conns .tcp).lookup (s₁.heap conn).key).bind s.statesOf) e else 0) =
        s.inStates e + share (s.putStates input state states) e := by
    intro e
    rw [← hreplaced, ← hsame, ← hput]
    exact inStates_insert htable hc hinsert
  have hkeeps : s.KeepsCount (.put input state states) ↔ (t = .tcp →
      ((s.sessions.conns .tcp).lookup (s₁.heap conn).key).bind s.statesOf = s.putStates input state states) := by
    simp [KeepsCount, hkey]
  have hstats : Consistent { s₂ with sessions := r.1 } ↔
      ∀ e, inStates { s₂ with sessions := r.1 } e = s.inStates e := h.iff_of_stats rfl
  refine (hstats.trans ?_).trans hkeeps.symm
  by_cases htcp : t = .tcp
  · rw [forall_prop_of_true htcp, ← share_eq_iff]
    refine forall_congr' fun e => ?_
    have he := hcount e
    rw [if_pos htcp] at he
    omega
  · have hnone : s.putStates input state states = none := by
      rw [← hput]
      exact statesOf_of_table htable htcp
    refine iff_of_true (fun e => ?_) fun h => absurd h htcp
    have he := hcount e
    rwa [if_neg htcp, hnone, share_none] at he

/-- Analyzers change neither the mark of a connection nor whether it is one of TCP. -/
theorem Consistent.work (h : s.Consistent) {c : Connection} {t : NetSessions}
    (hmoved : c.moved = (s.sessions.heap conn).moved)
    (hroot : c.rootAnalyzer.isSome = (s.sessions.heap conn).rootAnalyzer.isSome)
    (ht : Bro.step hashBytes s.sessions (.work conn c) = some t) : Consistent { s with sessions := t } := by
  rw [Bro.step] at ht
  split at ht
  case isTrue hc =>
    cases ht
    have hTCP : c.hasTCPAnalyzer = (s.sessions.heap conn).hasTCPAnalyzer := by
      rw [Connection.hasTCPAnalyzer, Connection.hasTCPAnalyzer, hroot, hc.2]
    have hstats := @Consistent.iff_of_stats s { s with sessions := s.sessions.modify conn fun _ => c } h rfl
    refine hstats.mpr fun e => inStates_congr rfl fun y _ => ?_
    by_cases he : y = conn
    · rw [he, statesOf, statesOf, heap_modify_self]
      simp only [hTCP, hmoved]
    · rw [statesOf, statesOf, heap_modify_of_ne _ he]
  case isFalse => cases ht

/-- The counters stay consistent exactly where an event keeps what is counted. -/
theorem consistent_step_iff (h : s.Consistent) (hs : Settled s.sessions) {event : TCPEvent}
    (hstep : s.step hashBytes event = some s') : s'.Consistent ↔ s.KeepsCount event := by
  cases event with
  | packet p input => exact iff_of_true (h.doNextPacket hs hstep) trivial
  | setState conn isOrig newState =>
      rw [step] at hstep
      split at hstep
      case isTrue hactive =>
        cases hstep
        exact iff_of_true (h.setState hs.orderly hactive isOrig newState) trivial
      case isFalse => cases hstep
  | flipRoles conn =>
      rw [step] at hstep
      split at hstep
      case isTrue hactive =>
        cases hstep
        exact iff_of_true (h.flipRoles hs.orderly hactive) trivial
      case isFalse => cases hstep
  | work conn c =>
      rw [step] at hstep
      split at hstep
      case isTrue hsame =>
        obtain ⟨t, ht, rfl⟩ := Option.map_eq_some_iff.mp hstep
        exact iff_of_true (h.work hsame.1 hsame.2 ht) trivial
      case isFalse => cases hstep
  | remove conn =>
      rw [step] at hstep
      split at hstep
      case isTrue hconn =>
        obtain ⟨t, hmem⟩ := mem_connections.mp hconn
        exact iff_of_true (h.remove hs hmem hstep) trivial
      case isFalse =>
        cases hstep
        exact iff_of_true h trivial
  | get input => exact consistent_get_iff h hstep
  | put input state states => exact consistent_put_iff h hstep

omit [TextArchive] in
theorem sessions_create (p : Packet) (input : PacketInput) :
    (s.create hashBytes p input).sessions = (s.sessions.create hashBytes p input).1 := by
  rw [TCPSessions.create]
  split
  case h_1 hcreate => rw [hcreate]
  case h_2 hcreate =>
    rw [hcreate]
    split <;> rfl

omit [TextArchive] in
theorem sessions_remove (hremove : s.remove conn = some s') :
    s.sessions.remove conn = some s'.sessions := by
  obtain ⟨t, ht, rfl⟩ := Option.map_eq_some_iff.mp hremove
  exact ht

omit [TextArchive] in
theorem sessions_doNextPacket {p : Packet} {input : PacketInput}
    (hstep : s.doNextPacket hashBytes p input = some s') :
    (s.sessions.doNextPacket hashBytes p input).map Prod.fst = some s'.sessions := by
  have hreplaced : ∀ conn, (s.remove conn).map (fun s => s.create hashBytes p input) = some s' →
      ((s.sessions.remove conn).map fun s => s.create hashBytes p input).map Prod.fst = some s'.sessions := by
    intro conn hs
    obtain ⟨s₁, hremove, rfl⟩ := Option.map_eq_some_iff.mp hs
    rw [sessions_remove hremove, sessions_create]
    rfl
  rw [TCPSessions.doNextPacket] at hstep
  rw [NetSessions.doNextPacket]
  cases hfind : s.sessions.find hashBytes p with
  | none =>
      rw [hfind] at hstep
      cases hstep
      rw [sessions_create]
      rfl
  | some conn =>
      rw [hfind] at hstep
      cases hc : input.consistency with
      | ignored =>
          simp only [hc] at hstep ⊢
          cases hstep
          rfl
      | reinstantiated =>
          simp only [hc] at hstep ⊢
          exact hreplaced conn hstep
      | consistent =>
          cases hreuse : input.isReuse with
          | false =>
              simp only [hc, hreuse] at hstep ⊢
              cases hstep
              rfl
          | true =>
              simp only [hc, hreuse] at hstep ⊢
              exact hreplaced conn hstep

/-- The tables do not depend on the counters. -/
theorem settled_step (hs : Settled s.sessions) {event : TCPEvent} (hstep : s.step hashBytes event = some s') :
    Settled s'.sessions := by
  have hchange : ∀ event {t}, Bro.step hashBytes s.sessions event = some t → Settled t :=
    fun _ _ ht => hs.change (step_change ht)
  cases event with
  | packet p input => exact hchange (.packet p input) (sessions_doNextPacket hstep)
  | setState conn isOrig newState =>
      rw [step] at hstep
      split at hstep <;> cases hstep
      have hsessions : (s.setState conn isOrig newState).sessions = s.sessions := by
        rw [TCPSessions.setState]
        dsimp only
        split_ifs <;> rfl
      rw [hsessions]
      exact hs
  | flipRoles conn =>
      rw [step] at hstep
      split at hstep <;> cases hstep
      exact hs
  | work conn c =>
      rw [step] at hstep
      split at hstep
      case isTrue =>
        obtain ⟨t, ht, rfl⟩ := Option.map_eq_some_iff.mp hstep
        exact hchange _ ht
      case isFalse => cases hstep
  | remove conn =>
      rw [step] at hstep
      split at hstep
      case isTrue hconn =>
        refine hchange (.remove conn) ?_
        rw [Bro.step, if_pos hconn]
        exact sessions_remove hstep
      case isFalse =>
        cases hstep
        exact hs
  | get input =>
      obtain ⟨t, ht, rfl⟩ := Option.map_eq_some_iff.mp hstep
      exact hchange _ ht
  | put input state states =>
      obtain ⟨t, ht, rfl⟩ := Option.map_eq_some_iff.mp hstep
      exact hchange _ ht

end Steps

end TCPSessions

end Counts

/-- Over every run of any instances, the counters of each of them say how many connections there are in each
state, and none is ever decremented below zero, if and only if no event moves what is counted. -/
theorem consistent_iff [TextArchive] {ι : Type} [DecidableEq ι]
    (hashBytes : ι → List (BitVec 8) → BitVec 64) (heap : ι → Pointer → Connection) (as : List (ι × TCPEvent))
    (w : ι → TCPSessions)
    (hr : run (instancesStep hashBytes) (fun i => TCPSessions.start (heap i)) as = some w) :
    (∀ pre suf t, as = pre ++ suf →
      run (instancesStep hashBytes) (fun i => TCPSessions.start (heap i)) pre = some t → ∀ i, (t i).Consistent) ↔
    Along (instancesStep hashBytes) (fun t a => (t a.1).KeepsCount a.2) (fun i => TCPSessions.start (heap i)) as := by
  refine always_iff_along_of (J := fun t => ∀ i, Settled (t i).sessions) ?_ ?_ ?_ ?_ hr
  · exact fun i conn hc => absurd hc (Nat.not_lt_zero _)
  · intro t a t' hJ hs i
    obtain ⟨s', hs', rfl⟩ := Option.map_eq_some_iff.mp hs
    by_cases hi : i = a.1
    · rw [hi, Function.update_self]
      exact TCPSessions.settled_step (hJ a.1) hs'
    · rw [Function.update_of_ne hi]
      exact hJ i
  · exact fun i => ⟨fun states => rfl, rfl⟩
  · intro t a t' hJ hI hs
    obtain ⟨s', hs', rfl⟩ := Option.map_eq_some_iff.mp hs
    rw [← TCPSessions.consistent_step_iff (hI a.1) (hJ a.1) hs']
    constructor
    · intro h
      have ha := h a.1
      rwa [Function.update_self] at ha
    · intro h i
      by_cases hi : i = a.1
      · rw [hi, Function.update_self]
        exact h
      · rw [Function.update_of_ne hi]
        exact hI i

/-! ## Samples -/

/-- A connection with the analyzer of TCP only. -/
def tcpConnection : Connection :=
  { ipv4Connection .tcp 0 0 0 0 with rootAnalyzer := some (.node .tcp [] [] [] [] [] []) }

/-- A get of all connections. -/
def anyGet (raiseEvents : Bool) : GetInput :=
  ⟨⟨.zero, fun _ => 0⟩, OFM.Shared.jsonParsePerflowKey .new, 1, raiseEvents, fun _ => .good⟩

/-- Two instances: a connection is made at one of them, has its originator send a SYN, and is gotten. -/
def makeAndGet (raiseEvents : Bool) : letI := plainArchive; List (Bool × TCPEvent) :=
  letI := plainArchive
  [(true, .packet samplePacket ⟨some tcpConnection, false, .consistent, false⟩),
    (true, .setState 0 true .synSent), (true, .get (anyGet raiseEvents))]

theorem consistent_iff_sample : letI := plainArchive
    (∀ pre suf t, makeAndGet false = pre ++ suf →
      run (instancesStep fun _ _ => 0) (fun _ => TCPSessions.start fun _ => tcpConnection) pre = some t →
        ∀ i, (t i).Consistent) ↔
    Along (instancesStep fun _ _ => 0) (fun t a => (t a.1).KeepsCount a.2)
      (fun _ => TCPSessions.start fun _ => tcpConnection) (makeAndGet false) := by
  let _ := plainArchive
  exact consistent_iff _ _ _ _ rfl

/-- The counter still has the connection that has been marked. -/
theorem not_consistent_get : letI := plainArchive
    ¬ ∀ pre suf t, makeAndGet true = pre ++ suf →
      run (instancesStep fun _ _ => 0) (fun _ => TCPSessions.start fun _ => tcpConnection) pre = some t →
        ∀ i, (t i).Consistent := by
  let _ := plainArchive
  intro h
  have hconsistent := h (makeAndGet true) [] _ rfl rfl true
  exact absurd (hconsistent.counted (.synSent, .inactive)) (by decide)

end OFM.Bro
