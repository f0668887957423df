import OFM.Bro.Analyzer
import OFM.Bro.HashKey

/-!
# Connections and sessions

`Connection` of `Conn.cc`, and what is written to an archive of it. `NetSessions` of `Sessions.cc`: the tables
of connections, and how a packet finds the connection it belongs to.
-/

namespace OFM.Bro
open OFM.Lib

/-! ## Connections -/

inductive TransportProto where
  | unknown | tcp | udp | icmp
  deriving DecidableEq, Repr

/-- What a connection keeps, and its lock. The bit fields are one word, and the primary PIA is told by the
id of the analyzer. -/
structure Connection where
  key : HashKey
  origAddr : IPAddr
  respAddr : IPAddr
  /-- In network order. -/
  origPort : BitVec 16
  respPort : BitVec 16
  proto : TransportProto
  origFlowLabel : BitVec 32
  respFlowLabel : BitVec 32
  startTime : BitVec 64
  lastTime : BitVec 64
  inactivityTimeout : BitVec 64
  loginConn : Bool
  suppressEvent : BitVec 32
  bitfields : BitVec 13
  history : List (BitVec 8)
  histSeen : BitVec 32
  rootAnalyzer : Option Analyzer
  primaryPia : Option (BitVec 32)
  uid : BitVec 64
  moved : Bool
  getOpId : BitVec 32
  /-- Somebody holds the lock. -/
  lock : Bool

namespace Connection

/-- `Moved` -/
def markMoved (c : Connection) : Connection := { c with moved := true }

def setGetOpId (c : Connection) (id : BitVec 32) : Connection := { c with getOpId := id }

/-- No assertion fails while the connection is written to an archive. -/
def assertions (c : Connection) : Bool := c.rootAnalyzer.all (Analyzer.assertions none)

end Connection

/-! ## Archives -/

instance : Archived TransportProto where
  save
    | .unknown => save (0 : BitVec 32)
    | .tcp => save (1 : BitVec 32)
    | .udp => save (2 : BitVec 32)
    | .icmp => save (3 : BitVec 32)
  load := do
    let n ← load (α := BitVec 32)
    if n = 0 then return .unknown
    else if n = 1 then return .tcp
    else if n = 2 then return .udp
    else if n = 3 then return .icmp
    else failure
  load_save p rest := by cases p <;> simp

namespace Connection

/-- `Connection::serialize` into an archive, for a connection that has a key. -/
def save (c : Connection) : List Item :=
  Lib.save (some c.key) ++ Lib.save c.origAddr ++ Lib.save c.respAddr ++ Lib.save c.origPort ++
  Lib.save c.respPort ++ Lib.save c.proto ++ Lib.save c.origFlowLabel ++ Lib.save c.respFlowLabel ++
  Lib.save c.startTime ++ Lib.save c.lastTime ++ Lib.save c.inactivityTimeout ++ Lib.save c.loginConn ++
  Lib.save c.suppressEvent ++ Lib.save c.bitfields ++ Lib.save c.history ++ Lib.save c.histSeen ++
  Lib.save c.rootAnalyzer ++ Lib.save c.primaryPia ++ Lib.save c.uid

/-- `Connection::serialize` from an archive. The constructor has set `moved` and the lock; `getOpId` is
whatever was in memory. -/
def load (getOpId : BitVec 32) : Loader Connection := do
  let some key ← Lib.load (α := Option HashKey) | failure
  let origAddr ← Lib.load
  let respAddr ← Lib.load
  let origPort ← Lib.load
  let respPort ← Lib.load
  let proto ← Lib.load
  let origFlowLabel ← Lib.load
  let respFlowLabel ← Lib.load
  let startTime ← Lib.load
  let lastTime ← Lib.load
  let inactivityTimeout ← Lib.load
  let loginConn ← Lib.load
  let suppressEvent ← Lib.load
  let bitfields ← Lib.load
  let history ← Lib.load
  let histSeen ← Lib.load
  let rootAnalyzer ← Lib.load
  let primaryPia ← Lib.load
  let uid ← Lib.load
  return {
    key, origAddr, respAddr, origPort, respPort, proto, origFlowLabel, respFlowLabel, startTime, lastTime,
    inactivityTimeout, loginConn, suppressEvent, bitfields, history, histSeen, rootAnalyzer, primaryPia,
    uid, getOpId, moved := false, lock := false }

/-- What is loaded is what has been saved, but for the mark, the id and the lock. -/
theorem load_save (getOpId : BitVec 32) (c : Connection) (rest : List Item) :
    (load getOpId).run (c.save ++ rest) =
      some ({ c with moved := false, getOpId, lock := false }, rest) := by
  unfold load save
  simp only [List.append_assoc, Archived.bind_run]
  rfl

end Connection

/-! ## Packets -/

/-- The transport header of a packet. Ports are in network order. -/
inductive Transport where
  | tcp (thSport thDport : BitVec 16)
  | udp (uhSport uhDport : BitVec 16)
  | icmp (icmpType icmpCode : BitVec 8)
  | icmpv6 (icmpType icmpCode : BitVec 8)
  deriving DecidableEq, Repr

/-- A packet that `DoNextPacket` has not let go before it looks for a connection. -/
structure Packet where
  srcAddr : IPAddr
  dstAddr : IPAddr
  transport : Transport
  deriving DecidableEq, Repr

/-- `ICMP4_counterpart`, with `is_one_way`. -/
def icmp4Counterpart (icmpType icmpCode : BitVec 8) : BitVec 8 × Bool :=
  if icmpType = 8 then (0, false)
  else if icmpType = 0 then (8, false)
  else if icmpType = 13 then (14, false)
  else if icmpType = 14 then (13, false)
  else if icmpType = 15 then (16, false)
  else if icmpType = 16 then (15, false)
  else if icmpType = 10 then (9, false)
  else if icmpType = 17 then (18, false)
  else if icmpType = 18 then (17, false)
  else (icmpCode, true)

/-- `ICMP6_counterpart`, with `is_one_way`. -/
def icmp6Counterpart (icmpType icmpCode : BitVec 8) : BitVec 8 × Bool :=
  if icmpType = 128 then (129, false)
  else if icmpType = 129 then (128, false)
  else if icmpType = 133 then (134, false)
  else if icmpType = 134 then (133, false)
  else if icmpType = 135 then (136, false)
  else if icmpType = 136 then (135, false)
  else if icmpType = 130 then (131, false)
  else if icmpType = 131 then (130, false)
  else if icmpType = 139 then (140, false)
  else if icmpType = 140 then (139, false)
  else if icmpType = 144 then (145, false)
  else if icmpType = 145 then (144, false)
  else (icmpCode, true)

/-- `htons` of a number of one byte. -/
def htons (n : BitVec 8) : BitVec 16 := Lib.swap16 (n.setWidth 16)

namespace Packet

def connID (p : Packet) : ConnID :=
  match p.transport with
  | .tcp sport dport | .udp sport dport => ⟨p.srcAddr, p.dstAddr, sport, dport, false⟩
  | .icmp icmpType icmpCode =>
      let (counterpart, isOneWay) := icmp4Counterpart icmpType icmpCode
      ⟨p.srcAddr, p.dstAddr, htons icmpType, htons counterpart, isOneWay⟩
  | .icmpv6 icmpType icmpCode =>
      let (counterpart, isOneWay) := icmp6Counterpart icmpType icmpCode
      ⟨p.srcAddr, p.dstAddr, htons icmpType, htons counterpart, isOneWay⟩

/-- The transport protocol of a connection of the packet. -/
def tproto (p : Packet) : TransportProto :=
  match p.transport with
  | .tcp .. => .tcp
  | .udp .. => .udp
  | .icmp .. | .icmpv6 .. => .icmp

end Packet

/-! ## The tables -/

/-- Where an object is. -/
abbrev Pointer := Nat

/-- `tcp_conns`, `udp_conns` and `icmp_conns`. -/
inductive Table where
  | tcp | udp | icmp
  deriving DecidableEq, Repr

/-- The table of a transport protocol; for an unknown one there is an internal error. -/
def TransportProto.table : TransportProto → Option Table
  | .tcp => some .tcp
  | .udp => some .udp
  | .icmp => some .icmp
  | .unknown => none

/-- The table of the dictionary that `DoNextPacket` looks into. -/
def Packet.table (p : Packet) : Table :=
  match p.transport with
  | .tcp .. => .tcp
  | .udp .. => .udp
  | .icmp .. | .icmpv6 .. => .icmp

/-- The tables, and the connections in memory. Memory that is not in use yet starts at `fresh`. -/
structure NetSessions where
  conns : Table → Dictionary Pointer
  heap : Pointer → Connection
  fresh : Pointer
  allocated : ∀ t, ∀ e ∈ (conns t).entries, e.value < fresh

namespace NetSessions

variable (s : NetSessions)

/-- The tables after a change of one of them, with no pointers to memory that is not in use. -/
def setTable (t : Table) (d : Dictionary Pointer) (h : ∀ e ∈ d.entries, e.value < s.fresh) : NetSessions :=
  { s with
    conns := Function.update s.conns t d
    allocated := by
      intro t' e he
      rw [Function.update_apply] at he
      split at he
      · exact h e he
      · exact s.allocated t' e he }

/-- `new Connection` -/
def allocate (c : Connection) : NetSessions :=
  { s with
    heap := Function.update s.heap s.fresh c
    fresh := s.fresh + 1
    allocated := fun t e he => Nat.lt_succ_of_lt (s.allocated t e he) }

theorem fresh_lt_allocate (c : Connection) : s.fresh < (s.allocate c).fresh := Nat.lt_succ_self _

/-- A change of a connection. -/
def modify (conn : Pointer) (f : Connection → Connection) : NetSessions :=
  { s with heap := Function.update s.heap conn (f (s.heap conn)) }

/-- `d->Insert(h, conn)` -/
def insertEntry (t : Table) (h : HashKey) (conn : Pointer) (hc : conn < s.fresh) : NetSessions :=
  s.setTable t ((s.conns t).insert h conn) fun e he => by
    rcases Dictionary.mem_insert he with he | ⟨-, he⟩
    · exact s.allocated t e he
    · exact he ▸ hc

/-- `RemoveEntry` -/
def removeEntry (t : Table) (h : HashKey) : NetSessions :=
  s.setTable t ((s.conns t).remove h) fun e he => s.allocated t e (Dictionary.mem_of_mem_remove he)

/-- `Remove(c)`, for a connection that is in a table. -/
def remove (conn : Pointer) : Option NetSessions :=
  (s.heap conn).proto.table.map fun t => s.removeEntry t (s.heap conn).key

/-- `Insert(c)`, which removes first. -/
def insert (conn : Pointer) (hc : conn < s.fresh) : Option NetSessions :=
  (s.heap conn).proto.table.map fun t =>
    (s.removeEntry t (s.heap conn).key).insertEntry t (s.heap conn).key conn hc

/-! ## Packets -/

/-- What `DoNextPacket` finds, with a key of its own hash function. -/
def find (hashBytes : List (BitVec 8) → BitVec 64) (p : Packet) : Option Pointer :=
  (s.conns p.table).lookup (buildConnIDHashKey hashBytes p.connID)

end NetSessions

/-- What `CheckConnectionTag` says. -/
inductive Consistency where
  | ignored | reinstantiated | consistent
  deriving DecidableEq, Repr

/-- What is not up to the tables when a packet is handled: what `NewConn` sets up, if it wants the
connection at all, and whether the packet goes with the connection that is found. The key, the ends and
the protocol of a new connection are set by `newConn`. -/
structure PacketInput where
  setup : Option Connection
  /-- `WantConnection` takes the responder for the source. -/
  flip : Bool
  consistency : Consistency
  isReuse : Bool

/-- The connection that `NewConn` makes. -/
def newConn (hashBytes : List (BitVec 8) → BitVec 64) (p : Packet) (flip : Bool) (setup : Connection) :
    Connection :=
  let id := if flip then p.connID.reverse else p.connID
  { setup with
    key := buildConnIDHashKey hashBytes p.connID
    origAddr := id.srcAddr
    respAddr := id.dstAddr
    origPort := id.srcPort
    respPort := id.dstPort
    proto := p.tproto
    moved := false
    lock := false }

namespace NetSessions

variable (hashBytes : List (BitVec 8) → BitVec 64) (p : Packet) (input : PacketInput) (s : NetSessions)

/-- A new connection in the table of the packet. -/
def create : NetSessions × Option Pointer :=
  match input.setup with
  | none => (s, none)
  | some setup =>
      ((s.allocate (newConn hashBytes p input.flip setup)).insertEntry p.table
        (buildConnIDHashKey hashBytes p.connID) s.fresh (Nat.lt_succ_self _), some s.fresh)

/-- `DoNextPacket` up to the lock: the tables, and the connection of the packet. -/
def doNextPacket : Option (NetSessions × Option Pointer) :=
  match s.find hashBytes p with
  | none => some (s.create hashBytes p input)
  | some conn =>
      match input.consistency, input.isReuse with
      | .ignored, _ => some (s, none)
      | .consistent, false => some (s, some conn)
      | _, _ => (s.remove conn).map fun s => s.create hashBytes p input

end NetSessions

end OFM.Bro
