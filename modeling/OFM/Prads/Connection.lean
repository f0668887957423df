import OFM.Shared.Event

/-!
# Connection tracking in PRADS

The table of connections and `cx_track`, as `prads.patch` leaves them. A bucket is a list, its head
first; what `cxt.h` defines is a parameter.
-/

namespace OFM.Prads
open OFM.Lib OFM.Shared

/-- `struct in6_addr`, as `s6_addr32`; of an IPv4 address only the first word is used. -/
structure In6Addr where
  word0 : BitVec 32
  word1 : BitVec 32
  word2 : BitVec 32
  word3 : BitVec 32
  deriving DecidableEq

inductive AddressFamily
  | inet | inet6
  deriving DecidableEq

/-- Addresses and ports are in network order; an asset is named by its address in memory. -/
structure Connection where
  startTime : BitVec 64
  lastPktTime : BitVec 64
  cxid : BitVec 64
  af : AddressFamily
  hwProto : BitVec 16
  proto : BitVec 8
  sIp : In6Addr
  dIp : In6Addr
  sPort : BitVec 16
  dPort : BitVec 16
  sTotalPkts : BitVec 32
  sTotalBytes : BitVec 32
  dTotalPkts : BitVec 32
  dTotalBytes : BitVec 32
  sTcpFlags : BitVec 8
  dTcpFlags : BitVec 8
  cAsset : Option Nat
  sAsset : Option Nat
  gotten : BitVec 32
  deriving DecidableEq

/-- A packet as it has been parsed. -/
structure PacketInfo where
  af : AddressFamily
  ipSrc : In6Addr
  ipDst : In6Addr
  sPort : BitVec 16
  dPort : BitVec 16
  proto : BitVec 8
  ethType : BitVec 16
  tcpFlags : Option (BitVec 8)
  packetBytes : BitVec 32
  tvSec : BitVec 64
  asset : Option Nat
  packet : List (BitVec 8)
  deriving DecidableEq

/-- The fields of a connection that `CMP_CXT4` and `CMP_CXT6` compare. -/
structure Tuple where
  sIp : In6Addr
  sPort : BitVec 16
  dIp : In6Addr
  dPort : BitVec 16
  deriving DecidableEq

def Connection.tuple (cxt : Connection) : Tuple := ⟨cxt.sIp, cxt.sPort, cxt.dIp, cxt.dPort⟩

/-- `cxt.h` -/
class Macros where
  bucketSize : Nat
  cxtHash4 : BitVec 32 → BitVec 32 → BitVec 16 → BitVec 16 → BitVec 8 → Nat
  cxtHash6 : In6Addr → In6Addr → BitVec 16 → BitVec 16 → BitVec 8 → Nat
  cxtHash4_lt : ∀ src dst sp dp pr, cxtHash4 src dst sp dp pr < bucketSize
  cxtHash6_lt : ∀ src dst sp dp pr, cxtHash6 src dst sp dp pr < bucketSize
  cmpCxt4 : Tuple → BitVec 32 → BitVec 16 → BitVec 32 → BitVec 16 → Bool
  cmpCxt6 : Tuple → In6Addr → BitVec 16 → In6Addr → BitVec 16 → Bool
  maxByteCheck : BitVec 32
  maxPktCheck : BitVec 32

/-- What `sdmbn_raise_reprocess` is given. -/
structure Reprocess where
  id : BitVec 32
  hashkey : BitVec 32
  packet : List (BitVec 8)
  deriving DecidableEq

/-! ## Updates -/

/-- `cxt_new` -/
def cxtNew (cxid : BitVec 64) (pi : PacketInfo) : Connection where
  startTime := pi.tvSec
  lastPktTime := pi.tvSec
  cxid := cxid
  af := pi.af
  hwProto := swap16 pi.ethType
  proto := pi.proto
  sIp := pi.ipSrc
  dIp := pi.ipDst
  sPort := pi.sPort
  dPort := pi.dPort
  sTotalPkts := 1
  sTotalBytes := pi.packetBytes
  dTotalPkts := 0
  dTotalBytes := 0
  sTcpFlags := pi.tcpFlags.getD 0
  dTcpFlags := 0
  cAsset := none
  sAsset := none
  gotten := 0

/-- `SC_CLIENT` and `SC_SERVER`; 0 asks for no further check. -/
inductive Check
  | dont | client | server
  deriving DecidableEq

variable [Macros]

/-- `cxt_update_client`: the connection, `drop_flag`, and the result. -/
def cxtUpdateClient (cxt : Connection) (pi : PacketInfo) : Connection × Bool × Check :=
  -- An unsigned number is not negative, and only 0 is at most 0.
  let (cxt, dropFlag) :=
    if cxt.gotten ≤ 0 then
      ({ cxt with
          lastPktTime := pi.tvSec
          sTcpFlags := cxt.sTcpFlags ||| pi.tcpFlags.getD 0
          sTotalBytes := cxt.sTotalBytes + pi.packetBytes
          sTotalPkts := cxt.sTotalPkts + 1
          cAsset := cxt.cAsset.or pi.asset }, false)
    else (cxt, true)
  (cxt, dropFlag, if Macros.maxByteCheck < cxt.sTotalBytes ∨ Macros.maxPktCheck < cxt.sTotalPkts
    then .dont else .client)

/-- `cxt_update_server` -/
def cxtUpdateServer (cxt : Connection) (pi : PacketInfo) : Connection × Bool × Check :=
  let (cxt, dropFlag) :=
    if cxt.gotten ≤ 0 then
      ({ cxt with
          lastPktTime := pi.tvSec
          dTcpFlags := cxt.dTcpFlags ||| pi.tcpFlags.getD 0
          dTotalBytes := cxt.dTotalBytes + pi.packetBytes
          dTotalPkts := cxt.dTotalPkts + 1
          sAsset := cxt.sAsset.or pi.asset }, false)
    else (cxt, true)
  (cxt, dropFlag, if Macros.maxByteCheck < cxt.dTotalBytes ∨ Macros.maxPktCheck < cxt.dTotalPkts
    then .dont else .server)

/-- `local_raise_reprocess`: what the drop counter grows by, and the event. The mark is compared with -1
as an unsigned number. -/
def localRaiseReprocess (cxt : Connection) (pi : PacketInfo) : BitVec 32 × List Reprocess :=
  if cxt.gotten = 0 then (0, [])
  else if cxt.gotten = -1 then (1, [])
  else (1, [⟨cxt.gotten, cxt.cxid.setWidth 32, pi.packet⟩])

/-! ## `cx_track` -/

/-- What a packet does to the connection it belongs to. -/
structure Tracked where
  cxt : Connection
  dropFlag : Bool
  result : Check
  drops : BitVec 32
  events : List Reprocess

/-- The comparisons of one round of the search, and what is done when one of them holds. -/
def trackOne (cxt : Connection) (pi : PacketInfo) : Option Tracked :=
  let client := cxtUpdateClient cxt pi
  let server := cxtUpdateServer cxt pi
  let raised := localRaiseReprocess cxt pi
  match pi.af with
  | .inet =>
      if Macros.cmpCxt4 cxt.tuple pi.ipSrc.word0 pi.sPort pi.ipDst.word0 pi.dPort then
        some ⟨client.1, client.2.1, client.2.2, raised.1, raised.2⟩
      else if Macros.cmpCxt4 cxt.tuple pi.ipDst.word0 pi.dPort pi.ipSrc.word0 pi.sPort then
        some ⟨server.1, server.2.1, server.2.2, raised.1, raised.2⟩
      else none
  | .inet6 =>
      if Macros.cmpCxt6 cxt.tuple pi.ipSrc pi.sPort pi.ipDst pi.dPort then
        some ⟨client.1, client.2.1, client.2.2, 0, []⟩
      else if Macros.cmpCxt6 cxt.tuple pi.ipDst pi.dPort pi.ipSrc pi.sPort then
        some ⟨server.1, server.2.1, server.2.2, 0, []⟩
      else none

/-- The search through a bucket: the bucket with the connection updated, and what was done. -/
def trackBucket (pi : PacketInfo) : List Connection → Option (List Connection × Tracked)
  | [] => none
  | cxt :: rest =>
      match trackOne cxt pi with
      | some tracked => some (tracked.cxt :: rest, tracked)
      | none => (trackBucket pi rest).map fun (rest, tracked) => (cxt :: rest, tracked)

/-- The bucket of a packet. -/
def hash (pi : PacketInfo) : Nat :=
  match pi.af with
  | .inet => Macros.cxtHash4 pi.ipSrc.word0 pi.ipDst.word0 pi.sPort pi.dPort pi.proto
  | .inet6 => Macros.cxtHash6 pi.ipSrc pi.ipDst pi.sPort pi.dPort pi.proto

omit [Macros] in
/-- The connections of an instance. -/
structure Tables where
  bucket : Nat → List Connection
  cxtrackerid : BitVec 64
  dropCounter : BitVec 32

/-- What `cx_track` leaves in the packet and raises. -/
structure TrackResult where
  dropFlag : Bool
  result : Check
  events : List Reprocess
  deriving DecidableEq

/-- `cx_track`, under `ConnEntryLock`. -/
def cxTrack (t : Tables) (pi : PacketInfo) : Tables × TrackResult :=
  match trackBucket pi (t.bucket (hash pi)) with
  | some (bucket, tracked) =>
      ({ t with
          bucket := Function.update t.bucket (hash pi) bucket
          dropCounter := t.dropCounter + tracked.drops },
        ⟨tracked.dropFlag, tracked.result, tracked.events⟩)
  | none =>
      let cxid := t.cxtrackerid + 1
      ({ t with
          cxtrackerid := cxid
          bucket := Function.update t.bucket (hash pi) (cxtNew cxid pi :: t.bucket (hash pi)) },
        ⟨false, .client, []⟩)

/-- A table of two buckets. -/
@[reducible] def plainMacros : Macros where
  bucketSize := 2
  cxtHash4 src dst sp dp pr := (src.toNat + dst.toNat + sp.toNat + dp.toNat + pr.toNat) % 2
  cxtHash6 src dst sp dp pr := (src.word3.toNat + dst.word3.toNat + sp.toNat + dp.toNat + pr.toNat) % 2
  cxtHash4_lt _ _ _ _ _ := Nat.mod_lt _ Nat.two_pos
  cxtHash6_lt _ _ _ _ _ := Nat.mod_lt _ Nat.two_pos
  cmpCxt4 c src sp dst dp := c.sIp.word0 = src ∧ c.sPort = sp ∧ c.dIp.word0 = dst ∧ c.dPort = dp
  cmpCxt6 c src sp dst dp := c.sIp = src ∧ c.sPort = sp ∧ c.dIp = dst ∧ c.dPort = dp
  maxByteCheck := 5000
  maxPktCheck := 10

end OFM.Prads
