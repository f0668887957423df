import OFM.Controller.Message
import OFM.Prads.Perflow
import OFM.Shared.Core

/-!
# An instance of PRADS

`got_packet`, the state that is not about single connections, and the functions that get and put it.
What of the path of a packet is not in `prads.patch` is a parameter.
-/

namespace OFM.Prads
open OFM.Lib OFM.Shared
open OFM.Controller (JavaString StateClass Scope)

/-! ## Assets and statistics -/

/-- The fields of an asset that `local_get_multiflow` compares; the rest is behind its address. -/
structure Asset where
  af : AddressFamily
  ipAddr : In6Addr
  address : Nat
  deriving DecidableEq

/-- The counters of `prads_stat`, each a `uint32_t`. -/
abbrev PradsStat (counters : Nat) := Fin counters → BitVec 32

/-- What happens to a packet besides `cx_track`: the counters that go up, once for each time they are
named, the assets that `update_cxt_asset` gives to its connection, and the rest. -/
structure Path (counters : Nat) (Rest : Type) where
  rest : Rest
  counted : List (Fin counters)
  cAsset : Option Nat
  sAsset : Option Nat

/-- The packet path as far as it is outside the patch. Only the patch knows of marks, so that a
connection is handed on without its own. -/
class PacketPath where
  counters : Nat
  /-- The text of the struct is not too long. -/
  counters_lt : counters < 2 ^ 28
  gotPackets : Fin counters
  /-- The state of an instance besides its connections and its statistics. -/
  Rest : Type
  /-- What has been parsed of a packet that gets to `cx_track`. -/
  parse : Rest → List (BitVec 8) → Option PacketInfo
  process : Rest → List (BitVec 8) → Option (Connection × Check) → Path counters Rest
  assetHash4 : BitVec 32 → Nat
  passet : Rest → Nat → List Asset
  serIalizeAsset : Rest → Asset → Option JavaString

/-- The counters after the increments. -/
def PradsStat.count {counters : Nat} (stat : PradsStat counters) (ks : List (Fin counters)) :
    PradsStat counters :=
  fun k => stat k + BitVec.ofNat 32 (ks.count k)

variable [Macros] [PacketPath]

structure Instance where
  tables : Tables
  prS : PradsStat PacketPath.counters
  rest : PacketPath.Rest
  /-- `config.live`: packets are written to an interface. -/
  live : Bool
  filters : List EventFilter

/-! ## Packets -/

/-- A packet in memory; there is nothing behind its end. -/
def inMemory (packet : List (BitVec 8)) : Memory := fun i => packet.getD i 0

/-- What an instance does with a packet that can be seen from outside. -/
structure Handled where
  written : Bool
  /-- Events of `cx_track`. -/
  reprocess : List Reprocess
  /-- Events of the library. -/
  raised : List Raised

/-- A connection without its mark. -/
def Connection.erase (cxt : Connection) : Connection := { cxt with gotten := 0 }

/-- `update_cxt_asset` -/
def Connection.updateAssets (cxt : Connection) (cAsset sAsset : Option Nat) : Connection :=
  { cxt with cAsset := cAsset.or cxt.cAsset, sAsset := sAsset.or cxt.sAsset }

omit [PacketPath] in
/-- The place of the connection that `cx_track` leaves in the packet. -/
def cxtIndex (t : Tables) (pi : PacketInfo) : Nat :=
  ((t.bucket (hash pi)).findIdx? fun cxt => (trackOne cxt pi).isSome).getD 0

/-- `got_packet` from the increment of `got_packets` to where the packet may be written: the instance,
`drop_flag`, and the events of `cx_track`. -/
def processPacket (inst : Instance) (packet : List (BitVec 8)) : Instance × Bool × List Reprocess :=
  let inst := { inst with prS := inst.prS.count [PacketPath.gotPackets] }
  match PacketPath.parse inst.rest packet with
  | none =>
      let path := PacketPath.process inst.rest packet none
      ({ inst with prS := inst.prS.count path.counted, rest := path.rest }, false, [])
  | some pi =>
      let i := cxtIndex inst.tables pi
      let (tables, result) := cxTrack inst.tables pi
      let cxt := (tables.bucket (hash pi))[i]?
      let path := PacketPath.process inst.rest packet (cxt.map fun cxt => (cxt.erase, result.result))
      let bucket := (tables.bucket (hash pi)).modify i (·.updateAssets path.cAsset path.sAsset)
      ({ inst with
          tables := { tables with bucket := Function.update tables.bucket (hash pi) bucket }
          prS := inst.prS.count path.counted
          rest := path.rest }, result.dropFlag, result.events)

/-- `got_packet`, given what the stack holds. -/
def gotPacket (u : Undefined) (stack : ProcessContext) (inst : Instance) (packet : List (BitVec 8)) :
    Instance × Handled :=
  let (filters, context, raised) := sdmbnPreprocessPacket u inst.filters (inMemory packet) stack
  let inst := { inst with filters := filters }
  if context.stop ≠ 0 then (inst, ⟨false, [], raised⟩)
  else
    let (inst, dropFlag, events) := processPacket inst packet
    (inst, ⟨inst.live && !dropFlag, events,
      raised ++ sdmbnPostprocessPacket (inMemory packet) context⟩)

/-! ## Multi-flow state -/

/-- The arguments of `sdmbn_send_multiflow`. -/
structure SentMultiflow where
  id : BitVec 32
  key : PerflowKey
  state : JavaString
  hashkey : BitVec 32
  seq : Nat

/-- The key of an asset, over one that has not been initialised. -/
def astkey (u : Undefined) (asset : Asset) : PerflowKey :=
  let key := { u.pKey with wildcards := wildcardAll }
  match asset.af with
  | .inet => { key with
      dlType := 0x0800
      nwSrc := asset.ipAddr.word0
      wildcards := key.wildcards &&& ~~~(wildcardNwSrc ||| wildcardDlType) }
  | .inet6 => key

omit [Macros] in
/-- What is sent for the assets, numbered from a count. -/
def sendAssets (u : Undefined) (rest : PacketPath.Rest) (id : BitVec 32) :
    Nat → List Asset → Except Fault (List SentMultiflow)
  | _, [] => .ok []
  | count, asset :: assets =>
      match PacketPath.serIalizeAsset rest asset with
      | none => .error .strlenOfNull
      | some state => do
          let sent ← sendAssets u rest id (count + 1) assets
          pure (⟨id, astkey u asset, state, (astkey u asset).nwSrc, count⟩ :: sent)

/-- `local_get_multiflow` only reads. -/
def localGetMultiflow (u : Undefined) (key : PerflowKey) (id : BitVec 32) (inst : Instance) :
    Except Fault (List SentMultiflow) :=
  let assets :=
    if key.wildcards &&& wildcardNwSrc ≠ 0 then
      (List.range Macros.bucketSize).flatMap (PacketPath.passet inst.rest)
    else ((PacketPath.passet inst.rest (PacketPath.assetHash4 key.nwSrc)).find? fun masset =>
      masset.af = .inet ∧ masset.ipAddr.word0 = key.nwSrc).toList
  sendAssets u inst.rest id 0 assets

/-! ## All-flows state -/

/-- A word as it lies in memory. -/
def wordBytes (word : BitVec 32) : List (BitVec 8) :=
  [word.extractLsb' 0 8, word.extractLsb' 8 8, word.extractLsb' 16 8, word.extractLsb' 24 8]

/-- The struct as it lies in memory. -/
def PradsStat.bytes {counters : Nat} (stat : PradsStat counters) : List (BitVec 8) :=
  (List.ofFn stat).flatMap wordBytes

/-- The struct that is copied from a block of memory. -/
def PradsStat.ofMemory (counters : Nat) (mem : Memory) : PradsStat counters :=
  fun k => le32 mem (4 * k)

/-- `local_get_allflows`: the counters are flushed when there is a text for them. -/
def localGetAllflows (inst : Instance) : Instance × Option (List (BitVec 8)) :=
  match sdmbnBase64Encode inst.prS.bytes with
  | none => (inst, none)
  | some state => ({ inst with prS := fun _ => 0 }, some state)

/-- `local_put_allflows`: the counters are replaced, whatever they were. -/
def localPutAllflows (inst : Instance) (state : List (BitVec 8)) : Instance :=
  { inst with prS := PradsStat.ofMemory _ (inMemory (sdmbnBase64Decode state)) }

/-! ## The gets of a copy -/

variable [Serializer]

/-- The get for per-flow state, if the scope has one. -/
def servePerflow (u : Undefined) (key : PerflowKey) (id : BitVec 32) (scope : Scope) (inst : Instance) :
    Except Fault Instance :=
  if .perflow ∈ scope.classes then do
    let (tables, _) ← localGetPerflow u key id false inst.tables
    pure { inst with tables := tables }
  else pure inst

/-- The get for multi-flow state, if the scope has one. -/
def serveMultiflow (u : Undefined) (key : PerflowKey) (id : BitVec 32) (scope : Scope)
    (inst : Instance) : Except Fault (List SentMultiflow) :=
  if .multiflow ∈ scope.classes then localGetMultiflow u key id inst else pure []

/-- An instance after the gets that a copy of the scope sends it. -/
def serveCopy (u : Undefined) (key : PerflowKey) (id : BitVec 32) (scope : Scope) (inst : Instance) :
    Except Fault Instance := do
  let inst ← servePerflow u key id scope inst
  let _ ← serveMultiflow u key id scope inst
  pure (if .allflows ∈ scope.classes then (localGetAllflows inst).1 else inst)

/-- The fields of an IPv4 packet; only packets are counted, and there are no assets. -/
@[reducible] def plainPath : PacketPath where
  counters := 1
  counters_lt := by decide
  gotPackets := 0
  Rest := Unit
  parse _ packet :=
    let mem := inMemory packet
    let transport := etherHdrLen + (mem etherHdrLen &&& 0x0f).toNat * 4
    if be16 mem 12 = ethertypeIp then some {
      af := .inet
      ipSrc := ⟨le32 mem 26, 0, 0, 0⟩
      ipDst := ⟨le32 mem 30, 0, 0, 0⟩
      sPort := le16 mem transport
      dPort := le16 mem (transport + 2)
      proto := mem 23
      ethType := le16 mem 12
      tcpFlags := if mem 23 = ipprotoTcp then some (mem (transport + 13)) else none
      packetBytes := BitVec.ofNat 32 (packet.length - etherHdrLen)
      tvSec := 0
      asset := none
      packet := packet }
    else none
  process _ _ _ := ⟨(), [], none, none⟩
  assetHash4 _ := 0
  passet _ _ := []
  serIalizeAsset _ _ := none

/-- A UDP packet without data, from 10.0.0.1 to 10.0.0.2. -/
def sampleFrame : List (BitVec 8) :=
  [0, 0, 0, 0, 0, 2, 0, 0, 0, 0, 0, 1, 0x08, 0x00, 0x45, 0, 0, 28, 0, 0, 0, 0, 64, 17, 0, 0,
    10, 0, 0, 1, 10, 0, 0, 2, 0, 7, 0, 9, 0, 8, 0, 0]

/-- An instance that has just been started. -/
@[reducible] def startedInstance : letI := plainPath; Instance :=
  letI := plainPath
  ⟨emptyTables, fun _ => 0, (), true, []⟩

/-- The stack when it is clean. -/
def cleanStack : ProcessContext := ⟨0, 0, 0⟩

end OFM.Prads
