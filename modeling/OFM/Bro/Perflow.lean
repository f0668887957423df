import OFM.Bro.Sessions
import OFM.Shared.Event

/-!
# Per-flow state in Bro

`local_get_perflow` and `local_put_perflow` of `main.cc`. How the items of an archive become a text is up to
boost and a parameter. A process of Bro, as far as its tables of connections go, sees packets and these calls; analyzers
and timers work on connections. Each process has a hash function of its own.
-/

namespace OFM.Bro
open OFM.Lib
open OFM.Shared (PerflowKey Undefined wildcardNwSrc wildcardNwDst wildcardNwSrcMask wildcardNwDstMask
  wildcardTpSrc wildcardTpDst wildcardDlType wildcardNwProto)

/-- Texts, some of which are archives. -/
class TextArchive where
  Text : Type
  isEmpty : Text → Bool
  write : List Item → Text
  read : Text → Option (List Item)
  isEmpty_write : ∀ items, isEmpty (write items) = false
  read_write : ∀ items, read (write items) = some items

export TextArchive (Text)

/-- What is left of the process: it has been aborted, or it waits for a lock that nobody gives back. -/
inductive Halt where
  | aborted
  | blocked
  deriving DecidableEq

section Archive

variable [TextArchive]

/-! ## Decoding -/

/-- What the temporary file lets `sdmbn_boost_decode` do, and what is in the memory that it does not set. -/
structure DecodeInput where
  fopen : Bool
  fwrite : Bool
  /-- The pointer `conn` before it is set. -/
  conn : Option Pointer
  getOpId : BitVec 32

/-- What `sdmbn_boost_decode` returns: a new connection, or a pointer that was there before. -/
inductive Decoded where
  | new (conn : Connection)
  | old (conn : Option Pointer)

/-- `ar & conn` from an archive. -/
def loadPointer (getOpId : BitVec 32) : Loader (Option Connection) := do
  if ← load (α := Bool) then return some (← Connection.load getOpId) else return none

/-- `sdmbn_boost_decode`. That a text is no archive is found out before exceptions are caught; what fails
later leaves the pointer as it was. -/
def sdmbnBoostDecode (input : DecodeInput) (state : Text) : Except Halt Decoded :=
  if !input.fopen then .ok (.old none)
  else if !input.fwrite || TextArchive.isEmpty state then .ok (.old none)
  else
    match TextArchive.read state with
    | none => .error .aborted
    | some items =>
        match (loadPointer input.getOpId).run items with
        | none => .ok (.old input.conn)
        | some (none, _) => .ok (.old none)
        | some (some conn, _) => .ok (.new conn)

/-- `local_put_perflow`, for a key and a state that are there. The id is set before the pointer is
checked. -/
def localPutPerflow (input : DecodeInput) (state : Text) (s : NetSessions) :
    Except Halt (NetSessions × Int) :=
  match sdmbnBoostDecode input state with
  | .error halt => .error halt
  | .ok (.old none) => .error .aborted
  | .ok (.old (some conn)) =>
      if h : conn < s.fresh then
        match (s.modify conn (·.setGetOpId 0)).insert conn h with
        | none => .error .aborted
        | some s => .ok (s, 1)
      else .error .aborted
  | .ok (.new conn) =>
      match (s.allocate (conn.setGetOpId 0)).insert s.fresh (s.fresh_lt_allocate _) with
      | none => .error .aborted
      | some s => .ok (s, 1)

/-! ## Encoding -/

/-- What the temporary file and the memory let `sdmbn_boost_encode` do. -/
structure EncodeInput where
  /-- The stream takes what boost writes, and boost knows the classes of all objects. -/
  stream : Bool
  fopen : Bool
  malloc : Bool
  fread : Bool
  deriving DecidableEq

/-- Nothing goes wrong. -/
def EncodeInput.good : EncodeInput := ⟨true, true, true, true⟩

/-- `sdmbn_boost_encode`. The exceptions of boost are not caught. -/
def sdmbnBoostEncode (input : EncodeInput) (conn : Connection) : Except Halt (Option Text) :=
  if !conn.assertions || !input.stream then .error .aborted
  else if !input.fopen || !input.malloc || !input.fread then .ok none
  else .ok (some (TextArchive.write (save true ++ conn.save)))

/-! ## Get -/

omit [TextArchive] in
/-- The checks of `handle_get_proto`. The word of the address that is compared is the first one. -/
def getSelects (u : Undefined) (key : PerflowKey) (conn : Connection) : Bool :=
  let nwSrcMask := if key.wildcards &&& wildcardNwSrcMask = 0
    then shiftLeft u.shift 0xffffffff (32 - key.nwSrcMask) else 0xffffffff
  let nwDstMask := if key.wildcards &&& wildcardNwDstMask = 0
    then shiftLeft u.shift 0xffffffff (32 - key.nwDstMask) else 0xffffffff
  if conn.moved then false
  else if key.wildcards &&& wildcardTpSrc = 0 ∧
    ¬ (conn.origPort = key.tpSrc ∨ (key.tpFlip ≠ 0 ∧ conn.respPort = key.tpSrc)) then false
  else if key.wildcards &&& wildcardTpDst = 0 ∧
    ¬ (conn.respPort = key.tpDst ∨ (key.tpFlip ≠ 0 ∧ conn.origPort = key.tpDst)) then false
  else if key.wildcards &&& wildcardNwSrc = 0 ∧ nwSrcMask &&& conn.origAddr.s6Addr32 0 ≠ key.nwSrc then false
  else if key.wildcards &&& wildcardNwDst = 0 ∧ nwDstMask &&& conn.respAddr.s6Addr32 0 ≠ key.nwDst then false
  else true

/-- A call of `sdmbn_send_perflow`, and the connection it is about. -/
structure Sent where
  conn : Pointer
  id : BitVec 32
  key : PerflowKey
  state : Text
  hashkey : BitVec 32
  seq : Nat

omit [TextArchive] in
/-- The key of a connection, over one that has not been initialised. -/
def connkey (u : Undefined) (conn : Connection) : PerflowKey :=
  let key := { u.pKey with
    wildcards := wildcardDlType
    nwSrc := conn.origAddr.copyIPv4
    nwDst := conn.respAddr.copyIPv4
    tpSrc := conn.origPort
    tpDst := conn.respPort }
  match conn.proto with
  | .tcp => { key with nwProto := 6 }
  | .udp => { key with nwProto := 17 }
  | .icmp => { key with nwProto := 1 }
  | .unknown => { key with wildcards := key.wildcards ||| wildcardNwProto }

/-- The arguments of a get, and what is up to its surroundings. -/
structure GetInput where
  u : Undefined
  key : PerflowKey
  id : BitVec 32
  raiseEvents : Bool
  encode : Pointer → EncodeInput

/-- A connection after its state has been taken, under its lock. -/
def GetInput.take (input : GetInput) (c : Connection) : Connection :=
  let c := c.setGetOpId input.id
  if input.raiseEvents then c.markMoved else c

/-- The loop of `handle_get_proto`. When there is no state, the lock is not given back. -/
def getConns (input : GetInput) : List Pointer → NetSessions → Nat → Except Halt (NetSessions × List Sent × Nat)
  | [], s, count => .ok (s, [], count)
  | conn :: rest, s, count =>
      let c := s.heap conn
      if !getSelects input.u input.key c then getConns input rest s count
      else if c.lock then .error .blocked
      else
        match sdmbnBoostEncode (input.encode conn) c with
        | .error halt => .error halt
        | .ok none =>
            getConns input rest (s.modify conn fun c => { input.take c with lock := true }) count
        | .ok (some state) => do
            let (s, sent, total) ← getConns input rest (s.modify conn input.take) (count + 1)
            return (s, ⟨conn, input.id, connkey input.u c, state, c.key.hash, count⟩ :: sent, total)

omit [TextArchive] in
/-- The table of a protocol; there is none for the others. -/
def protoTable (proto : BitVec 8) : Option Table :=
  if proto = 6 then some .tcp
  else if proto = 17 then some .udp
  else if proto = 1 ∨ proto = 58 then some .icmp
  else none

/-- `handle_get_proto` -/
def handleGetProto (input : GetInput) (proto : BitVec 8) (s : NetSessions) :
    Except Halt (NetSessions × List Sent × Nat) :=
  match protoTable proto with
  | none => .ok (s, [], 0)
  | some t => getConns input (s.conns t).values s 0

/-- `local_get_perflow` -/
def localGetPerflow (input : GetInput) (s : NetSessions) : Except Halt (NetSessions × List Sent × Nat) :=
  if input.key.nwProto = 0 then do
    let (s, tcp, n) ← handleGetProto input 6 s
    let (s, udp, m) ← handleGetProto input 17 s
    let (s, icmp, k) ← handleGetProto input 1 s
    return (s, tcp ++ udp ++ icmp, n + m + k)
  else handleGetProto input input.key.nwProto s

end Archive

/-! ## Instances -/

variable [TextArchive]

inductive Event where
  | packet (p : Packet) (input : PacketInput)
  /-- Analyzers at work. They leave the key and the protocol of a connection alone. -/
  | work (conn : Pointer) (c : Connection)
  /-- A connection is over. -/
  | remove (conn : Pointer)
  | get (input : GetInput)
  | put (input : DecodeInput) (state : Text)

namespace NetSessions

omit [TextArchive]

/-- The tables of a process that has just been started, whatever is in the memory. -/
def start (heap : Pointer → Connection) : NetSessions where
  conns _ := .empty
  heap := heap
  fresh := 0
  allocated _ _ he := nomatch he

/-- The connections in the tables. -/
def connections (s : NetSessions) : List Pointer :=
  (s.conns .tcp).values ++ (s.conns .udp).values ++ (s.conns .icmp).values

end NetSessions

/-- What is left of the tables after an event, unless the process is not left. A connection that has no
table has no key any more, and is not removed again. -/
def step (hashBytes : List (BitVec 8) → BitVec 64) (s : NetSessions) : Event → Option NetSessions
  | .packet p input => (s.doNextPacket hashBytes p input).map Prod.fst
  | .work conn c =>
      if c.key = (s.heap conn).key ∧ c.proto = (s.heap conn).proto then some (s.modify conn fun _ => c)
      else none
  | .remove conn => if conn ∈ s.connections then s.remove conn else some s
  | .get input => (localGetPerflow input s).toOption.map Prod.fst
  | .put input state => (localPutPerflow input state s).toOption.map Prod.fst

end OFM.Bro
