import OFM.Lib.Machine
import OFM.Prads.Instance
import OFM.Prads.Lemmas.Perflow

/-!
# The assets in the chunks of a get

`serialize_conn_asset`, which leaves out an asset whose message id is that of the message, and the gets of
an instance while packets change its assets. `ser_ialize` gives a text for all it is given.
-/

namespace OFM.Prads
open OFM.Lib OFM.Shared

/-! ## Writing a connection -/

/-- An asset: its message id, and the rest of it. -/
structure AssetRecord (σ : Type) where
  state : σ
  sdmbnMsgid : BitVec 32

/-- The assets by their addresses. -/
abbrev AssetMemory (σ : Type) := Nat → AssetRecord σ

/-- What `ser_ialize` is given: the connection, and the assets that it still points to. -/
structure Written (σ : Type) where
  cxt : Connection
  cAsset : Option (Nat × σ)
  sAsset : Option (Nat × σ)

variable {σ : Type}

def Written.assets (w : Written σ) : List (Nat × σ) := w.cAsset.toList ++ w.sAsset.toList

/-- One of the two pointers of a connection: the id is set whether or not the asset is written. -/
def stampAsset (assets : AssetMemory σ) (msgid : BitVec 32) : Option Nat → AssetMemory σ × Option (Nat × σ)
  | none => (assets, none)
  | some a =>
      (Function.update assets a { assets a with sdmbnMsgid := msgid },
        if (assets a).sdmbnMsgid = msgid then none else some (a, (assets a).state))

/-- `serialize_conn_asset`. The pointers are restored when the text has been made. -/
def serializeConnAsset (assets : AssetMemory σ) (conn : Connection) (msgid : BitVec 32) :
    AssetMemory σ × Written σ :=
  let (assets, cAsset) := stampAsset assets msgid conn.cAsset
  let (assets, sAsset) := stampAsset assets msgid conn.sAsset
  (assets, ⟨{ conn with cAsset := cAsset.map Prod.fst, sAsset := sAsset.map Prod.fst }, cAsset, sAsset⟩)

/-! ## A get -/

/-- One bucket of `local_get_perflow`, as in `getBucket`. -/
def getBucketAssets (u : Undefined) (key : PerflowKey) (id : BitVec 32) (raiseEvents : Bool) :
    AssetMemory σ → List Connection → AssetMemory σ × List Connection × List (Written σ)
  | assets, [] => (assets, [], [])
  | assets, curr :: rest =>
      if getSelects u key curr then
        let curr := { curr with gotten := mark id raiseEvents }
        let (assets, written) := serializeConnAsset assets curr id
        let (assets, rest, sent) := getBucketAssets u key id raiseEvents assets rest
        (assets, curr :: rest, written :: sent)
      else
        let (assets, rest, sent) := getBucketAssets u key id raiseEvents assets rest
        (assets, curr :: rest, sent)

/-- The loop over the buckets that are left. -/
def getBucketsAssets (u : Undefined) (key : PerflowKey) (id : BitVec 32) (raiseEvents : Bool) :
    List Nat → AssetMemory σ → Tables → AssetMemory σ × Tables × List (Written σ)
  | [], assets, t => (assets, t, [])
  | h :: hs, assets, t =>
      let (assets, bucket, sent) := getBucketAssets u key id raiseEvents assets (t.bucket h)
      let (assets, t, sent') := getBucketsAssets u key id raiseEvents hs assets
        { t with bucket := Function.update t.bucket h bucket }
      (assets, t, sent ++ sent')

variable [Macros]

/-- `local_get_perflow`, with the assets. -/
def getPerflowAssets (u : Undefined) (key : PerflowKey) (id : BitVec 32) (raiseEvents : Bool)
    (assets : AssetMemory σ) (t : Tables) : AssetMemory σ × Tables × List (Written σ) :=
  getBucketsAssets u key id raiseEvents (List.range Macros.bucketSize) assets t

/-! ## Gets among packets -/

omit [Macros] in
structure AssetHolder (σ : Type) where
  tables : Tables
  assets : AssetMemory σ

/-- What a packet does to an asset: nothing sets a message id but `calloc`, which clears it. -/
inductive AssetChange (σ : Type)
  | kept
  | updated (state : σ)
  | allocated (state : σ)

omit [Macros] in
def AssetRecord.change (asset : AssetRecord σ) : AssetChange σ → AssetRecord σ
  | .kept => asset
  | .updated state => { asset with state := state }
  | .allocated state => ⟨state, 0⟩

inductive AssetAction (σ : Type)
  /-- The packet, what it changes of the assets, and the assets it gives to its connection. -/
  | packet (pi : PacketInfo) (changes : Nat → AssetChange σ) (cAsset sAsset : Option Nat)
  | getPerflow (u : Undefined) (key : PerflowKey) (id : BitVec 32) (raiseEvents : Bool)

def AssetHolder.step (s : AssetHolder σ) : AssetAction σ → Option (AssetHolder σ)
  | .packet pi changes cAsset sAsset =>
      let i := cxtIndex s.tables pi
      let tables := (cxTrack s.tables pi).1
      let bucket := (tables.bucket (hash pi)).modify i (·.updateAssets cAsset sAsset)
      some {
        tables := { tables with bucket := Function.update tables.bucket (hash pi) bucket }
        assets := fun a => (s.assets a).change (changes a) }
  | .getPerflow u key id raiseEvents =>
      let (assets, tables, _) := getPerflowAssets u key id raiseEvents s.assets s.tables
      some ⟨tables, assets⟩

/-- An asset that a connection points to. -/
def Connection.assets (c : Connection) : List Nat := c.cAsset.toList ++ c.sAsset.toList

/-- The assets of the connections that a get selects. -/
def AssetHolder.selected (s : AssetHolder σ) (u : Undefined) (key : PerflowKey) : List Nat :=
  (s.tables.connections.filter (getSelects u key)).flatMap Connection.assets

end OFM.Prads
