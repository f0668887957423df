import OFM.Bro.Lemmas.Perflow
import OFM.Prads.Theorems.Selection

/-!
# Which connections a key selects in Bro

The loop over the three tables against the meaning of the key.
-/

namespace OFM.Bro
open OFM.Lib OFM.Shared
open OFM.Prads (fixes_own add_one_ne prefixKey)

/-! ## Tables and protocols -/

/-- The protocol of the connections of a table. -/
def Table.proto : Table → BitVec 8
  | .tcp => 6
  | .udp => 17
  | .icmp => 1

/-! ## The checks -/

/-- What the checks come to on IPv4 connections: an address is compared with 0, and the ports are flipped
one by one. -/
structure CodeSelects (k : FlowKey) (t : Table) (srcPort dstPort : BitVec 16) : Prop where
  table : t ∈ listedTables (k.nwProto.getD 0)
  tpSrc : ∀ x ∈ k.tpSrc, srcPort = x ∨ k.flip = true ∧ dstPort = x
  tpDst : ∀ x ∈ k.tpDst, dstPort = x ∨ k.flip = true ∧ srcPort = x
  nwSrc : ∀ x ∈ k.nwSrc, x.address = 0
  nwDst : ∀ x ∈ k.nwDst, x.address = 0

/-- Some IPv4 connection over TCP, UDP or ICMP can belong to the traffic of the key. -/
structure Reaches (k : FlowKey) : Prop where
  dlType : FlowKey.Fixes k.dlType (some 0x0800)
  nwProto : ∀ p ∈ k.nwProto, p = 6 ∨ p = 17 ∨ p = 1

/-- The key selects by table and ports only, and not by one port on both sides. -/
structure PortsOnly (k : FlowKey) : Prop where
  nwSrc : ∀ x ∈ k.nwSrc, x.address = 0 ∧ x.length = 0
  nwDst : ∀ x ∈ k.nwDst, x.address = 0 ∧ x.length = 0
  ports : k.flip = true → ∀ x ∈ k.tpSrc, x ∉ k.tpDst

/-- No table, or an address that no comparison finds. -/
def SelectsNothing (k : FlowKey) : Prop :=
  (∃ p ∈ k.nwProto, p ≠ 0 ∧ protoTable p = none) ∨ (∃ x ∈ k.nwSrc, x.address ≠ 0) ∨
    ∃ x ∈ k.nwDst, x.address ≠ 0

structure ExactKey (k : FlowKey) : Prop where
  reached : Reaches k → PortsOnly k
  unreached : ¬ Reaches k → SelectsNothing k

variable {k : FlowKey} {t : Table} {nwSrc nwDst : BitVec 32} {tpSrc tpDst : BitVec 16}

theorem listedTables_reached (h : ∀ p ∈ k.nwProto, p = 6 ∨ p = 17 ∨ p = 1) :
    t ∈ listedTables (k.nwProto.getD 0) ↔ FlowKey.Fixes k.nwProto (some t.proto) := by
  cases hk : k.nwProto with
  | none => simpa [listedTables] using t.mem_all
  | some p =>
      rcases h p hk with rfl | rfl | rfl <;> cases t <;> decide

theorem ports_iff (h : k.flip = true → ∀ x ∈ k.tpSrc, x ∉ k.tpDst) {dl : BitVec 16} {np : BitVec 8} :
    ((∀ x ∈ k.tpSrc, tpSrc = x ∨ k.flip = true ∧ tpDst = x) ∧
      ∀ x ∈ k.tpDst, tpDst = x ∨ k.flip = true ∧ tpSrc = x) ↔
    FlowKey.Ports k.tpSrc k.tpDst (.full dl np nwSrc nwDst tpSrc tpDst) ∨
      k.flip = true ∧ FlowKey.Ports k.tpDst k.tpSrc (.full dl np nwSrc nwDst tpSrc tpDst) := by
  simp only [FlowKey.Ports, FlowHeader.full]
  cases hs : k.tpSrc with
  | none => cases hd : k.tpDst <;> simp
  | some x =>
      cases hd : k.tpDst with
      | none => simp
      | some y =>
          have hne : k.flip = true → x ≠ y := fun hf he => h hf x hs (by rw [hd, he]; rfl)
          simp only [Option.mem_def, Option.some.injEq, forall_eq', FlowKey.fixes_some]
          constructor
          · rintro ⟨rfl | ⟨hf, rfl⟩, hy⟩
            · exact Or.inl ⟨rfl, hy.resolve_right fun hy => hne hy.1 hy.2⟩
            · exact Or.inr ⟨hf, (hy.resolve_left fun hy => hne hf hy).2, rfl⟩
          · rintro (⟨rfl, rfl⟩ | ⟨hf, rfl, rfl⟩)
            · exact ⟨Or.inl rfl, Or.inl rfl⟩
            · exact ⟨Or.inr ⟨hf, rfl⟩, Or.inr ⟨hf, rfl⟩⟩

theorem covers_zero {o : Option AddressPrefix} (h : ∀ x ∈ o, x.address = 0 ∧ x.length = 0) (a : BitVec 32) :
    FlowKey.Covers o (some a) := by
  cases o with
  | none => simp
  | some x => simp [(h x rfl).2]

/-- What satisfies a key belongs to its traffic. -/
theorem Reaches.of_satisfied (h : k.Satisfied (.full 0x0800 t.proto nwSrc nwDst tpSrc tpDst)) :
    Reaches k := by
  refine ⟨h.dlType, fun p hp => ?_⟩
  have hproto := h.nwProto
  rw [Option.mem_def.mp hp] at hproto
  simp only [FlowHeader.full, FlowKey.fixes_some, Option.some.injEq] at hproto
  rw [← hproto]
  cases t <;> simp [Table.proto]

theorem SelectsNothing.not_selects (h : SelectsNothing k) : ¬ CodeSelects k t tpSrc tpDst := by
  rintro ⟨ht, -, -, hs, hd⟩
  rcases h with ⟨p, hp, hp0, hnone⟩ | ⟨x, hx, hne⟩ | ⟨x, hx, hne⟩
  · rw [Option.mem_def.mp hp, Option.getD_some, listedTables, if_neg hp0, hnone] at ht
    cases ht
  · exact hne (hs x hx)
  · exact hne (hd x hx)

/-- Whoever is selected by a key that is exact satisfies it, and the other way round. -/
theorem ExactKey.selects_iff (h : ExactKey k) : CodeSelects k t tpSrc tpDst ↔
    k.Satisfied (.full 0x0800 t.proto nwSrc nwDst tpSrc tpDst) := by
  by_cases hr : Reaches k
  · obtain ⟨hs, hd, hp⟩ := h.reached hr
    have hports := @ports_iff k nwSrc nwDst tpSrc tpDst hp 0x0800 t.proto
    constructor
    · rintro ⟨ht, h₂, h₃, -, -⟩
      exact ⟨hr.dlType, (listedTables_reached hr.nwProto).mp ht, covers_zero hs _, covers_zero hd _,
        hports.mp ⟨h₂, h₃⟩⟩
    · rintro ⟨-, hn, -, -, h₅⟩
      obtain ⟨h₂, h₃⟩ := hports.mpr h₅
      exact ⟨(listedTables_reached hr.nwProto).mpr hn, h₂, h₃, fun x hx => (hs x hx).1,
        fun x hx => (hd x hx).1⟩
  · constructor
    · exact fun hc => absurd hc (h.unreached hr).not_selects
    · exact fun hs => absurd (.of_satisfied hs) hr

/-! ## Connections that tell a key apart -/

section Apart

variable (h : ∀ t nwSrc nwDst tpSrc tpDst, CodeSelects k t tpSrc tpDst ↔
  k.Satisfied (.full 0x0800 t.proto nwSrc nwDst tpSrc tpDst))

/-- The table and the ports of a key. -/
theorem Reaches.exists_own (hr : Reaches k) : ∃ t : Table, ∀ nwSrc nwDst,
    k.Satisfied (.full 0x0800 t.proto nwSrc nwDst (k.tpSrc.getD 0) (k.tpDst.getD 0)) ↔
      FlowKey.Covers k.nwSrc (some nwSrc) ∧ FlowKey.Covers k.nwDst (some nwDst) := by
  obtain ⟨t, ht⟩ : ∃ t : Table, FlowKey.Fixes k.nwProto (some t.proto) := by
    cases hk : k.nwProto with
    | none => exact ⟨.tcp, by simp⟩
    | some p =>
        rcases hr.nwProto p hk with rfl | rfl | rfl
        · exact ⟨.tcp, by decide⟩
        · exact ⟨.udp, by decide⟩
        · exact ⟨.icmp, by decide⟩
  refine ⟨t, fun nwSrc nwDst => ⟨fun h => ⟨h.nwSrc, h.nwDst⟩, fun h => ?_⟩⟩
  exact ⟨hr.dlType, ht, h.1, h.2, Or.inl ⟨fixes_own _, fixes_own _⟩⟩

/-- A prefix that lets all addresses through is empty. -/
theorem length_eq_zero {x : AddressPrefix} (h : ∀ a, SamePrefix x.length x.address a) : x.length = 0 := by
  by_contra hne
  obtain ⟨b, -, hdiff⟩ := exists_differs_at (p := 0) x.address (by decide)
  exact hdiff ((h b).of_le (by omega))

include h

theorem Reaches.portsOnly (hr : Reaches k) : PortsOnly k := by
  obtain ⟨t, ht⟩ := hr.exists_own
  have hown := (h t _ _ _ _).mpr ((ht _ _).mpr ⟨covers_own (o := k.nwSrc), covers_own (o := k.nwDst)⟩)
  have hall : ∀ nwSrc nwDst, FlowKey.Covers k.nwSrc (some nwSrc) ∧ FlowKey.Covers k.nwDst (some nwDst) :=
    fun nwSrc nwDst => (ht _ _).mp ((h t _ _ _ _).mp hown)
  refine ⟨fun x hx => ⟨hown.nwSrc x hx, length_eq_zero fun a => ?_⟩,
    fun x hx => ⟨hown.nwDst x hx, length_eq_zero fun a => ?_⟩, fun hf x hx hx' => ?_⟩
  · have hcov := (hall a 0).1
    rwa [Option.mem_def.mp hx, FlowKey.covers_some] at hcov
  · have hcov := (hall 0 a).2
    rwa [Option.mem_def.mp hx, FlowKey.covers_some] at hcov
  · -- The port of the key on one side, and another one on the other side.
    have hsel : CodeSelects k t x (x + 1) := by
      refine ⟨hown.table, fun y hy => Or.inl ?_, fun y hy => Or.inr ⟨hf, ?_⟩, hown.nwSrc, hown.nwDst⟩
      · exact Option.some.inj (hx.symm.trans hy)
      · exact Option.some.inj (hx'.symm.trans hy)
    have hports := ((h t 0 0 _ _).mp hsel).ports
    simp only [FlowKey.Ports, FlowHeader.full, Option.mem_def.mp hx, Option.mem_def.mp hx',
      FlowKey.fixes_some, Option.some.injEq] at hports
    rcases hports with ⟨-, he⟩ | ⟨-, -, he⟩ <;> exact add_one_ne x he

theorem selectsNothing_of_not_reaches (hr : ¬ Reaches k) : SelectsNothing k := by
  by_contra hnot
  simp only [SelectsNothing, not_or, not_exists, not_and, not_not, ne_eq] at hnot
  obtain ⟨hp, hs, hd⟩ := hnot
  obtain ⟨t, ht⟩ : ∃ t, t ∈ listedTables (k.nwProto.getD 0) := by
    cases hk : k.nwProto with
    | none => exact ⟨.tcp, by decide⟩
    | some p =>
        rw [Option.getD_some, listedTables]
        split
        case isTrue => exact ⟨.tcp, by decide⟩
        case isFalse hne =>
          obtain ⟨t, ht⟩ := Option.ne_none_iff_exists'.mp (hp p hk hne)
          exact ⟨t, by rw [ht]; simp⟩
  have hown : ∀ {o : Option (BitVec 16)}, ∀ x ∈ o, o.getD 0 = x := by
    intro o x hx
    rw [Option.mem_def.mp hx, Option.getD_some]
  have hsel : CodeSelects k t (k.tpSrc.getD 0) (k.tpDst.getD 0) :=
    ⟨ht, fun x hx => Or.inl (hown x hx), fun x hx => Or.inl (hown x hx), hs, hd⟩
  exact hr (.of_satisfied ((h t 0 0 _ _).mp hsel))

end Apart

theorem exactKey_iff : ExactKey k ↔ ∀ t nwSrc nwDst tpSrc tpDst, CodeSelects k t tpSrc tpDst ↔
    k.Satisfied (.full 0x0800 t.proto nwSrc nwDst tpSrc tpDst) :=
  ⟨fun h _ _ _ _ _ => h.selects_iff,
    fun h => ⟨fun hr => hr.portsOnly h, selectsNothing_of_not_reaches h⟩⟩

/-! ## Connections -/

namespace Connection

/-- Both ends are IPv4 hosts. -/
def Ipv4 (c : Connection) : Prop := ∃ src dst, c.origAddr = .ofIn4 src ∧ c.respAddr = .ofIn4 dst

/-- The fields of a connection that keys are about, for a connection in a table. -/
def header (c : Connection) (t : Table) : FlowHeader :=
  .full 0x0800 t.proto (swap32 c.origAddr.copyIPv4) (swap32 c.respAddr.copyIPv4) (swap16 c.origPort)
    (swap16 c.respPort)

end Connection

section Checks

variable {α : Type} {o : Option α} {compared : Prop}

/-- The first word of an IPv4 address is compared. -/
theorem check_first_word {o : Option Controller.JavaString} (length : Nat) {mask : BitVec 32}
    (hc : compared ↔ o.isSome = true) :
    ¬ (compared ∧ mask &&& 0 ≠ (o.map readAddress).getD 0) ↔
      ∀ x ∈ o.map fun text => (⟨(inetAton text).getD 0, length⟩ : AddressPrefix), x.address = 0 := by
  have hzero : ∀ a : BitVec 32, mask &&& 0 = swap32 a ↔ a = 0 := by
    intro a
    have he : mask &&& (0 : BitVec 32) = swap32 0 := BitVec.and_zero.trans (by decide)
    rw [he, swap32_inj, eq_comm]
  rw [ne_eq, check_iff _ (fun text => (inetAton text).getD 0 = 0) hc fun text ht => by
    rw [Option.mem_def.mp ht]
    exact hzero _]
  simp

end Checks

theorem getSelects_iff (u : Undefined) (field : Controller.PerflowKey) {c : Connection} (hc : c.Ipv4)
    {t : Table} (ht : t ∈ listedTables (jsonParsePerflowKey field).nwProto) :
    getSelects u (jsonParsePerflowKey field) c = true ↔
      c.moved = false ∧ CodeSelects (flowKey field) t (swap16 c.origPort) (swap16 c.respPort) := by
  obtain ⟨src, dst, hsrc, hdst⟩ := hc
  obtain ⟨-, hs, -, hd, -, -, hts, htd⟩ := missing_and field
  have ht' : t ∈ listedTables ((flowKey field).nwProto.getD 0) := by
    rwa [jsonParsePerflowKey_eq] at ht
  simp only [getSelects, jsonParsePerflowKey_eq, hsrc, hdst, IPAddr.s6Addr32_zero_ofIn4, continue_iff,
    and_true]
  rw [check_flipped hts, check_flipped htd, Bool.not_eq_true,
    check_first_word ((field.nwSrcMask.map fun n => (jsonObjectGetInt n).toNat).getD 32) hs,
    check_first_word ((field.nwDstMask.map fun n => (jsonObjectGetInt n).toNat).getD 32) hd]
  constructor
  · rintro ⟨h₁, h₂, h₃, h₄, h₅⟩
    exact ⟨h₁, ht', h₂, h₃, h₄, h₅⟩
  · rintro ⟨h₁, -, h₂, h₃, h₄, h₅⟩
    exact ⟨h₁, h₂, h₃, h₄, h₅⟩

/-! ## Tables -/

section Tables

variable [TextArchive]

/-- IPv4 connections, none of them locked, and with analyzers that can be written to an archive. -/
structure NetSessions.Ready (s : NetSessions) : Prop extends s.Orderly where
  ipv4 : ∀ t, ∀ p ∈ (s.conns t).values, (s.heap p).Ipv4
  lock : ∀ t, ∀ p ∈ (s.conns t).values, (s.heap p).lock = false
  assertions : ∀ t, ∀ p ∈ (s.conns t).values, (s.heap p).assertions = true

/-- The connections of the three tables that satisfy the key of a message and are not marked. -/
def NetSessions.satisfying (s : NetSessions) (field : Controller.PerflowKey) : List Pointer :=
  Table.all.flatMap fun t => (s.conns t).values.filter fun p =>
    !(s.heap p).moved && decide ((flowKey field).Satisfied ((s.heap p).header t))

/-- The get returns and sends the connections that satisfy the key. -/
def SendsExactly (field : Controller.PerflowKey) : Prop :=
  ∀ (u : Undefined) (id : BitVec 32) (raiseEvents : Bool) (s : NetSessions), s.Ready →
    ∃ s' sent n, localGetPerflow ⟨u, jsonParsePerflowKey field, id, raiseEvents, fun _ => .good⟩ s =
      .ok (s', sent, n) ∧ sent.map Sent.conn = s.satisfying field

theorem map_conn_sentsOf {input : GetInput} {s : NetSessions} {count : Nat} {conns : List Pointer} :
    (sentsOf input s count conns).map Sent.conn = conns := by
  induction conns generalizing count with
  | nil => rfl
  | cons p rest ih => rw [sentsOf_cons, List.map_cons, ih, sentOf]

/-- What a get of connections that are ready sends, table by table. -/
theorem NetSessions.Ready.get {s : NetSessions} (h : s.Ready) (input : GetInput)
    (hgood : input.encode = fun _ => .good) :
    ∃ s' sent n, localGetPerflow input s = .ok (s', sent, n) ∧
      sent.map Sent.conn = (listedTables input.key.nwProto).flatMap fun t =>
        s.selected input (s.conns t).values := by
  refine ⟨_, _, _, localGetPerflow_eq h.toOrderly fun p hp _ => ?_, ?_⟩
  · obtain ⟨t, -, hp⟩ := List.mem_flatMap.mp hp
    exact ⟨h.lock t p hp, h.assertions t p hp, congrFun hgood p⟩
  · rw [tableSents, List.map_flatMap]
    simp only [map_conn_sentsOf]

/-! ## One connection -/

/-- A connection between two IPv4 hosts, for a table, that nothing is known about but what keys are
about. -/
def ipv4Connection (t : Table) (nwSrc nwDst : BitVec 32) (tpSrc tpDst : BitVec 16) : Connection where
  key := ⟨[], 0⟩
  origAddr := .ofIn4 (swap32 nwSrc)
  respAddr := .ofIn4 (swap32 nwDst)
  origPort := swap16 tpSrc
  respPort := swap16 tpDst
  proto := match t with
    | .tcp => .tcp
    | .udp => .udp
    | .icmp => .icmp
  origFlowLabel := 0
  respFlowLabel := 0
  startTime := 0
  lastTime := 0
  inactivityTimeout := 0
  loginConn := false
  suppressEvent := 0
  bitfields := 0
  history := []
  histSeen := 0
  rootAnalyzer := none
  primaryPia := none
  uid := 0
  moved := false
  getOpId := 0
  lock := false

/-- Sessions with one connection. -/
def NetSessions.single (t : Table) (c : Connection) : NetSessions where
  conns := Function.update (fun _ => .empty) t ⟨[.ofKey c.key 0], by simp⟩
  heap _ := c
  fresh := 1
  allocated := by
    intro t' e he
    by_cases ht : t' = t
    · subst ht
      rw [Function.update_self, List.mem_singleton] at he
      rw [he]
      exact Nat.one_pos
    · rw [Function.update_of_ne ht] at he
      cases he

omit [TextArchive] in
theorem NetSessions.values_single (t t' : Table) (c : Connection) :
    ((single t c).conns t').values = if t' = t then [0] else [] := by
  by_cases ht : t' = t
  · subst ht
    simp [single, Dictionary.values, DictEntry.ofKey]
  · simp [single, ht, Dictionary.values, Dictionary.empty]

omit [TextArchive] in
theorem header_ipv4Connection (t : Table) (nwSrc nwDst : BitVec 32) (tpSrc tpDst : BitVec 16) :
    (ipv4Connection t nwSrc nwDst tpSrc tpDst).header t = .full 0x0800 t.proto nwSrc nwDst tpSrc tpDst := by
  simp [Connection.header, ipv4Connection]

omit [TextArchive] in
theorem NetSessions.ready_single (t : Table) (nwSrc nwDst : BitVec 32) (tpSrc tpDst : BitVec 16) :
    (single t (ipv4Connection t nwSrc nwDst tpSrc tpDst)).Ready where
  distinct t' := by
    rw [values_single]
    split <;> simp
  proto t' p hp := by
    rw [values_single] at hp
    split at hp
    case isTrue he => rw [he]; cases t <;> rfl
    case isFalse => cases hp
  ipv4 _ _ _ := ⟨_, _, rfl, rfl⟩
  lock _ _ _ := rfl
  assertions _ _ _ := rfl

omit [TextArchive] in
/-- What passes the checks in the tables that are gone through, and what satisfies the key in all of
them. -/
theorem listedTables_flatMap {α : Type} (proto : BitVec 8) (f : Table → List α) :
    (listedTables proto).flatMap f = Table.all.flatMap fun t => if t ∈ listedTables proto then f t else [] := by
  rw [listedTables]
  split
  · exact List.flatMap_congr fun t ht => by rw [if_pos ht]
  · cases protoTable proto with
    | none => rfl
    | some t => cases t <;> simp [Table.all]

omit [TextArchive] in
/-- What the key selects is what satisfies it. -/
theorem NetSessions.Ready.selects_iff {s : NetSessions} (h : s.Ready) {field : Controller.PerflowKey}
    {u : Undefined} {t : Table} {p : Pointer} (hp : p ∈ (s.conns t).values) :
    (t ∈ listedTables (jsonParsePerflowKey field).nwProto ∧
        getSelects u (jsonParsePerflowKey field) (s.heap p) = true) ↔
      (s.heap p).moved = false ∧
        CodeSelects (flowKey field) t (swap16 (s.heap p).origPort) (swap16 (s.heap p).respPort) := by
  constructor
  · exact fun ⟨ht, hsel⟩ => (getSelects_iff u field (h.ipv4 t p hp) ht).mp hsel
  · intro hsel
    have ht : t ∈ listedTables (jsonParsePerflowKey field).nwProto := by
      rw [jsonParsePerflowKey_eq]
      exact hsel.2.table
    exact ⟨ht, (getSelects_iff u field (h.ipv4 t p hp) ht).mpr hsel⟩

theorem SendsExactly.codeSelects_iff {field : Controller.PerflowKey} (h : SendsExactly field) (t : Table)
    (nwSrc nwDst : BitVec 32) (tpSrc tpDst : BitVec 16) : CodeSelects (flowKey field) t tpSrc tpDst ↔
      (flowKey field).Satisfied (.full 0x0800 t.proto nwSrc nwDst tpSrc tpDst) := by
  have hready := NetSessions.ready_single t nwSrc nwDst tpSrc tpDst
  obtain ⟨s', sent, n, hget, hsent⟩ := h ⟨.zero, fun _ => 0⟩ 1 true _ hready
  obtain ⟨s'', sent', n', hget', hsent'⟩ := hready.get
    ⟨⟨.zero, fun _ => 0⟩, jsonParsePerflowKey field, 1, true, fun _ => .good⟩ rfl
  rw [hget] at hget'
  cases hget'
  have hvalue : 0 ∈ ((NetSessions.single t (ipv4Connection t nwSrc nwDst tpSrc tpDst)).conns t).values := by
    rw [NetSessions.values_single, if_pos rfl]
    exact List.mem_singleton_self 0
  have hone : ∀ {t'}, 0 ∈ ((NetSessions.single t (ipv4Connection t nwSrc nwDst tpSrc tpDst)).conns t').values →
      t' = t := by
    intro t' ht'
    rw [NetSessions.values_single] at ht'
    split at ht'
    · assumption
    · cases ht'
  have hsel := @NetSessions.Ready.selects_iff _ hready field ⟨.zero, fun _ => 0⟩ t 0 hvalue
  have hleft : (0 ∈ sent.map Sent.conn) ↔ CodeSelects (flowKey field) t tpSrc tpDst := by
    rw [hsent']
    constructor
    · intro hmem
      obtain ⟨t', ht', hp⟩ := List.mem_flatMap.mp hmem
      obtain ⟨hp, hsel'⟩ := List.mem_filter.mp hp
      obtain rfl := hone hp
      simpa [NetSessions.single, ipv4Connection] using (hsel.mp ⟨ht', hsel'⟩).2
    · intro hcode
      obtain ⟨ht', hsel'⟩ := hsel.mpr ⟨rfl, by simpa [NetSessions.single, ipv4Connection] using hcode⟩
      exact List.mem_flatMap.mpr ⟨t, ht', List.mem_filter.mpr ⟨hvalue, hsel'⟩⟩
  have hright : (0 ∈ sent.map Sent.conn) ↔
      (flowKey field).Satisfied (.full 0x0800 t.proto nwSrc nwDst tpSrc tpDst) := by
    have hheader : ((NetSessions.single t (ipv4Connection t nwSrc nwDst tpSrc tpDst)).heap 0).header t =
        .full 0x0800 t.proto nwSrc nwDst tpSrc tpDst := header_ipv4Connection ..
    rw [hsent, ← hheader]
    constructor
    · intro hmem
      obtain ⟨t', -, hp⟩ := List.mem_flatMap.mp hmem
      obtain ⟨hp, hsat⟩ := List.mem_filter.mp hp
      obtain rfl := hone hp
      rw [Bool.and_eq_true, decide_eq_true_eq] at hsat
      exact hsat.2
    · intro hsat
      refine List.mem_flatMap.mpr ⟨t, t.mem_all, List.mem_filter.mpr ⟨hvalue, ?_⟩⟩
      rw [Bool.and_eq_true, decide_eq_true_eq]
      exact ⟨rfl, hsat⟩
  exact hleft.symm.trans hright

/-- A get sends the connections that satisfy the key, whatever IPv4 connections there are, if and only if
the key is exact. -/
theorem sendsExactly_iff (field : Controller.PerflowKey) :
    SendsExactly field ↔ ExactKey (flowKey field) := by
  rw [exactKey_iff]
  constructor
  · exact fun h t nwSrc nwDst tpSrc tpDst => h.codeSelects_iff t nwSrc nwDst tpSrc tpDst
  · intro h u id raiseEvents s hs
    obtain ⟨s', sent, n, hget, hsent⟩ := hs.get
      ⟨u, jsonParsePerflowKey field, id, raiseEvents, fun _ => .good⟩ rfl
    refine ⟨s', sent, n, hget, ?_⟩
    rw [hsent, listedTables_flatMap]
    refine List.flatMap_congr fun t _ => ?_
    have hiff : ∀ p ∈ (s.conns t).values, (t ∈ listedTables (jsonParsePerflowKey field).nwProto ∧
        getSelects u (jsonParsePerflowKey field) (s.heap p) = true) ↔
        (s.heap p).moved = false ∧ (flowKey field).Satisfied ((s.heap p).header t) := by
      intro p hp
      rw [hs.selects_iff hp, h]
      rfl
    split
    case isTrue ht =>
      refine List.filter_congr fun p hp => ?_
      rw [Bool.eq_iff_iff, Bool.and_eq_true, decide_eq_true_eq, Bool.not_eq_true', ← hiff p hp]
      exact (and_iff_right ht).symm
    case isFalse ht =>
      refine (List.filter_eq_nil_iff.mpr fun p hp hsat => ?_).symm
      rw [Bool.and_eq_true, decide_eq_true_eq, Bool.not_eq_true', ← hiff p hp] at hsat
      exact ht hsat.1

end Tables

/-! ## A sample -/

/-- Texts that are lists of items, and one that is none. -/
abbrev plainArchive : TextArchive where
  Text := Option (List Item)
  isEmpty := Option.isNone
  write := some
  read := id
  isEmpty_write _ := rfl
  read_write _ := rfl

/-- No connection from `10.0.0.1` is found. -/
theorem not_sendsExactly_host : letI := plainArchive
    ¬ SendsExactly (prefixKey none) := by
  let _ := plainArchive
  intro h
  have hkey := exactKey_iff.mpr fun t nwSrc nwDst tpSrc tpDst =>
    h.codeSelects_iff t nwSrc nwDst tpSrc tpDst
  have hr : Reaches (flowKey (prefixKey none)) := ⟨by decide, by decide⟩
  exact absurd ((hkey.reached hr).nwSrc ⟨0x0a000001, 32⟩ (by decide)) (by decide)

end OFM.Bro
