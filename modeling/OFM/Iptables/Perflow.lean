import OFM.Shared.Core
import OFM.Shared.Event
import OFM.Shared.PerflowCalls

/-!
# Gets and deletions of connections

`local_get_perflow` and `local_del_perflow` of `iptables-sdmbn` with their callbacks. libnetfilter_conntrack
is a parameter: which of its calls fail, and which connections a dump for a family lists.
-/

namespace OFM.Iptables
open OFM.Lib
open OFM.Shared (PerflowKey Undefined sdmbnBase64Encode encodeBytes wildcardAll wildcardDlType wildcardNwSrc
  wildcardNwDst wildcardNwProto wildcardTpSrc wildcardTpDst wildcardNwSrcMask wildcardNwDstMask)

def afInet : BitVec 8 := 2
def afInet6 : BitVec 8 := 10
/-- `-1` as a `u_int8_t`. -/
def afNone : BitVec 8 := 255
def ethertypeIp : BitVec 16 := 0x0800
def ethertypeIpv6 : BitVec 16 := 0x86dd

/-- The attributes of a `struct nf_conntrack` that are asked for, ports and addresses in network order, and the
message that `BUILD_NETMSG` makes of it. -/
structure Entry where
  l3proto : BitVec 8
  l4proto : BitVec 8
  portSrc : Option (BitVec 16)
  portDst : Option (BitVec 16)
  ipv4Src : BitVec 32
  ipv4Dst : BitVec 32
  id : BitVec 32
  netmsg : List (BitVec 8)
  /-- There is a header at least, and the length is a `uint16_t`. -/
  netmsg_length : 1 ≤ netmsg.length ∧ netmsg.length < 2 ^ 16

/-! ## Filters -/

/-- `struct nfct_filter_ipv4` -/
structure FilterIpv4 where
  addr : BitVec 32
  mask : BitVec 32
  deriving DecidableEq

/-- `struct nfct_filter` -/
structure Filter where
  l4proto : Option (BitVec 8)
  srcIpv4 : Option FilterIpv4
  dstIpv4 : Option FilterIpv4
  deriving DecidableEq

/-- An address of a connection under the mask, against the address of the filter under the mask. -/
def FilterIpv4.passes (filter : FilterIpv4) (address : BitVec 32) : Bool :=
  swap32 address &&& filter.mask = filter.addr &&& filter.mask

def Filter.passes (filter : Filter) (ct : Entry) : Bool :=
  filter.l4proto.all (ct.l4proto = ·) && filter.srcIpv4.all (·.passes ct.ipv4Src) &&
    filter.dstIpv4.all (·.passes ct.ipv4Dst)

/-- The switch over `dl_type`: the family to query; nothing where it is not supported. -/
def queryFamily (key : PerflowKey) : Option (BitVec 8) :=
  if key.wildcards &&& wildcardDlType = 0 then
    if key.dlType = ethertypeIp then some afInet
    else if key.dlType = ethertypeIpv6 then some afInet6
    else none
  else some afNone

/-- The filter of either function; their copies are the same. Both masks are that of the source. -/
def buildFilter (u : Undefined) (key : PerflowKey) (family : BitVec 8) : Filter :=
  let mask := if key.wildcards &&& wildcardNwSrcMask = 0
    then shiftLeft u.shift 0xffffffff (32 - key.nwSrcMask) else 0xffffffff
  { l4proto := if key.wildcards &&& wildcardNwProto = 0 then some key.nwProto else none
    srcIpv4 :=
      if family = afInet ∧ key.wildcards &&& wildcardNwSrc = 0 then some ⟨swap32 key.nwSrc, mask⟩ else none
    dstIpv4 :=
      if family = afInet ∧ key.wildcards &&& wildcardNwDst = 0 then some ⟨swap32 key.nwDst, mask⟩ else none }

/-- What is outside this program: which calls of the library work, after how many connections a dump fails if
it does, and whether a dump for one family lists connections of another. -/
structure Nfct where
  nfctOpen : Bool
  filterCreate : Bool
  filterAttach : Bool
  query : Option Nat
  lists : (asked family : BitVec 8) → Bool

/-- The connections for which a dump calls back, if it does not fail before. -/
def Nfct.dumped (nfct : Nfct) (u : Undefined) (key : PerflowKey) (table : List Entry) : List Entry :=
  match queryFamily key with
  | none => []
  | some family =>
      table.filter fun ct => nfct.lists family ct.l3proto && (buildFilter u key family).passes ct

/-! ## Gets -/

/-- The arguments of `sdmbn_send_perflow`. -/
structure Chunk where
  id : BitVec 32
  key : PerflowKey
  state : List (BitVec 8)
  hashkey : BitVec 32
  seq : Nat
  deriving DecidableEq

/-- A port that the key has is there and is the same. -/
def portMatches (compared : Bool) (port : Option (BitVec 16)) (wanted : BitVec 16) : Bool :=
  !compared || port = some wanted

/-- The checks that either callback makes. -/
def callbackMatches (key : PerflowKey) (ct : Entry) : Bool :=
  portMatches (key.wildcards &&& wildcardTpSrc = 0) ct.portSrc key.tpSrc &&
    portMatches (key.wildcards &&& wildcardTpDst = 0) ct.portDst key.tpDst

/-- The key of a connection. It has a port only where the key that was asked for has one, and what is not set
is what was on the stack. -/
def connkey (u : Undefined) (key : PerflowKey) (ct : Entry) : PerflowKey :=
  let connkey := { u.pKey with wildcards := wildcardAll }
  let connkey := if key.wildcards &&& wildcardTpSrc = 0
    then { connkey with
      tpSrc := ct.portSrc.getD 0, wildcards := connkey.wildcards &&& ~~~wildcardTpSrc } else connkey
  let connkey := if key.wildcards &&& wildcardTpDst = 0
    then { connkey with
      tpDst := ct.portDst.getD 0, wildcards := connkey.wildcards &&& ~~~wildcardTpDst } else connkey
  let connkey := if ct.l3proto = afInet
    then { connkey with
      nwSrc := ct.ipv4Src, nwSrcMask := 32, nwDst := ct.ipv4Dst, nwDstMask := 32, dlType := ethertypeIp
      wildcards := connkey.wildcards &&& ~~~wildcardNwSrc &&& ~~~wildcardNwSrcMask &&& ~~~wildcardNwDst &&&
        ~~~wildcardNwDstMask &&& ~~~wildcardDlType } else connkey
  { connkey with
    nwProto := ct.l4proto
    wildcards := connkey.wildcards &&& ~~~wildcardNwProto &&& ~~~wildcardDlType }

/-- `conntrack_get_callback`: the chunk that it sends, if any. -/
def conntrackGetCallback (u : Undefined) (key : PerflowKey) (id : BitVec 32) (getCount : Nat) (ct : Entry) :
    Option Chunk :=
  if !callbackMatches key ct then none
  else (sdmbnBase64Encode ct.netmsg).map fun state => ⟨id, connkey u key ct, state, ct.id, getCount⟩

/-- The calls of `conntrack_get_callback`: what they send, and `get_count` after them. -/
def getCallbacks (u : Undefined) (key : PerflowKey) (id : BitVec 32) : Nat → List Entry → List Chunk × Nat
  | getCount, [] => ([], getCount)
  | getCount, ct :: cts =>
      match conntrackGetCallback u key id getCount ct with
      | none => getCallbacks u key id getCount cts
      | some chunk =>
          let (chunks, last) := getCallbacks u key id (getCount + 1) cts
          (chunk :: chunks, last)

/-- The key that `send_state` makes up. -/
def stateKey (u : Undefined) : PerflowKey :=
  { u.pKey with
    tpSrc := 1111, nwSrc := 123456, nwSrcMask := 32, nwDst := 875897, nwDstMask := 32, dlType := ethertypeIp
    nwProto := 6
    wildcards := wildcardAll &&& ~~~wildcardTpSrc &&& ~~~wildcardNwSrc &&& ~~~wildcardNwSrcMask &&&
      ~~~wildcardNwDst &&& ~~~wildcardNwDstMask &&& ~~~wildcardDlType &&& ~~~wildcardNwProto &&&
      ~~~wildcardDlType }

/-- `lalala` -/
def lalala : List (BitVec 8) := [108, 97, 108, 97, 108, 97]

/-- `send_state`: nine chunks, counted from 1 on, and `get_count` after them. -/
def sendState (u : Undefined) : List Chunk × Nat :=
  ((List.range 9).map fun i => ⟨1, stateKey u, lalala, 0x019294, 1 + i⟩, 1 + 9)

/-- `local_get_perflow`: the chunks that are sent, and the result. -/
def localGetPerflow (nfct : Nfct) (u : Undefined) (key : PerflowKey) (id : BitVec 32) (table : List Entry) :
    List Chunk × Int :=
  if !nfct.nfctOpen then ([], -1)
  else if !nfct.filterCreate then ([], -1)
  else if queryFamily key = none then ([], -1)
  else if !nfct.filterAttach then ([], -1)
  else
    match nfct.query with
    | some failing => ((getCallbacks u key id 0 ((nfct.dumped u key table).take failing)).1, -1)
    | none =>
        let (chunks, _) := getCallbacks u key id 0 (nfct.dumped u key table)
        let (made, getCount) := sendState u
        (chunks ++ made, getCount)

/-! ## Deletions -/

/-- The calls of `conntrack_del_callback`: the connections that are destroyed. -/
def delCallbacks (key : PerflowKey) (dumped : List Entry) : List Entry := dumped.filter (callbackMatches key)

/-- `local_del_perflow`: the connections that are destroyed, and the result. -/
def localDelPerflow (nfct : Nfct) (u : Undefined) (key : PerflowKey) (table : List Entry) : List Entry × Int :=
  if !nfct.nfctOpen then ([], -1)
  else if !nfct.filterCreate then ([], -1)
  else if queryFamily key = none then ([], -1)
  else if !nfct.filterAttach then ([], -1)
  else
    match nfct.query with
    | some failing => (delCallbacks key ((nfct.dumped u key table).take failing), -1)
    | none =>
        let destroyed := delCallbacks key (nfct.dumped u key table)
        (destroyed, destroyed.length)

/-! ## What a get sends -/

variable (u : Undefined) (key : PerflowKey) (id : BitVec 32)

/-- The chunk of a connection. -/
def chunkOf (seq : Nat) (ct : Entry) : Chunk := ⟨id, connkey u key ct, encodeBytes ct.netmsg, ct.id, seq⟩

theorem conntrackGetCallback_eq (getCount : Nat) (ct : Entry) :
    conntrackGetCallback u key id getCount ct =
      if callbackMatches key ct then some (chunkOf u key id getCount ct) else none := by
  obtain ⟨hpos, hlt⟩ := ct.netmsg_length
  have hstate : sdmbnBase64Encode ct.netmsg = some (encodeBytes ct.netmsg) := by
    rw [sdmbnBase64Encode, if_neg (by omega), if_neg (by omega)]
  rw [conntrackGetCallback, hstate]
  cases callbackMatches key ct <;> rfl

/-- One chunk for each connection that passes the callback, counted on from where the count stands. -/
theorem getCallbacks_eq (getCount : Nat) (cts : List Entry) :
    getCallbacks u key id getCount cts =
      ((cts.filter (callbackMatches key)).mapIdx fun i ct => chunkOf u key id (getCount + i) ct,
        getCount + (cts.filter (callbackMatches key)).length) := by
  induction cts generalizing getCount with
  | nil => rfl
  | cons ct cts ih =>
      rw [getCallbacks, conntrackGetCallback_eq, List.filter_cons]
      cases hmatches : callbackMatches key ct with
      | false => simp only [Bool.false_eq_true, if_false, ih]
      | true =>
          simp only [if_true, ih, List.mapIdx_cons, List.length_cons, Nat.add_zero]
          rw [Nat.add_assoc, Nat.add_comm 1]
          simp only [Nat.add_assoc, Nat.add_comm 1]

end OFM.Iptables
