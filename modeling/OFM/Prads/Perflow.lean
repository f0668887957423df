import OFM.Prads.Connection

/-!
# Per-flow state in PRADS

`local_get_perflow`, `local_put_perflow`, `local_del_perflow` and the loop over connections of
`local_del_multiflow`. `ser_ialize` and `ser_parse` are parameters.
-/

namespace OFM.Prads
open OFM.Lib OFM.Shared
open OFM.Controller (JavaString)

/-- `serialize.c`: a connection with the assets that are written along with it, and back. -/
class Serializer where
  serIalize : Connection → Option JavaString
  serParse : JavaString → Connection

/-! ## Selection -/

/-- The checks of `local_get_perflow`. The mask is applied to the address of the connection alone. -/
def getSelects (u : Undefined) (key : PerflowKey) (curr : Connection) : Bool :=
  let nwSrcMask := if key.wildcards &&& wildcardNwSrcMask = 0
    then shiftLeft u.shift 0xffffffff (32 - key.nwSrcMask) else 0xffffffff
  let nwDstMask := if key.wildcards &&& wildcardNwDstMask = 0
    then shiftLeft u.shift 0xffffffff (32 - key.nwDstMask) else 0xffffffff
  if key.wildcards &&& wildcardDlType = 0 ∧ swap16 curr.hwProto ≠ key.dlType then false
  else if key.wildcards &&& wildcardNwProto = 0 ∧ curr.proto ≠ key.nwProto then false
  else if key.wildcards &&& wildcardTpSrc = 0 ∧
    ¬ (curr.sPort = key.tpSrc ∨ (key.tpFlip ≠ 0 ∧ curr.dPort = key.tpSrc)) then false
  else if key.wildcards &&& wildcardTpDst = 0 ∧
    ¬ (curr.dPort = key.tpDst ∨ (key.tpFlip ≠ 0 ∧ curr.sPort = key.tpDst)) then false
  else if key.wildcards &&& wildcardNwSrc = 0 ∧ nwSrcMask &&& curr.sIp.word0 ≠ key.nwSrc then false
  else if key.wildcards &&& wildcardNwDst = 0 ∧ nwDstMask &&& curr.dIp.word0 ≠ key.nwDst then false
  else true

/-- The checks of `local_del_perflow` and of `local_del_multiflow`: no mask, no destination port, and
a source port on either side. -/
def delSelects (key : PerflowKey) (curr : Connection) : Bool :=
  if key.wildcards &&& wildcardDlType = 0 ∧ swap16 curr.hwProto ≠ key.dlType then false
  else if key.wildcards &&& wildcardNwProto = 0 ∧ curr.proto ≠ key.nwProto then false
  else if key.wildcards &&& wildcardTpSrc = 0 ∧ curr.sPort ≠ key.tpSrc ∧ curr.dPort ≠ key.tpSrc then false
  else if key.wildcards &&& wildcardNwSrc = 0 ∧ curr.sIp.word0 ≠ key.nwSrc then false
  else if key.wildcards &&& wildcardNwDst = 0 ∧ curr.dIp.word0 ≠ key.nwDst then false
  else true

/-! ## Get -/

/-- The mark of a connection that has been returned. -/
def mark (id : BitVec 32) (raiseEvents : Bool) : BitVec 32 := if raiseEvents then id else -1

/-- The arguments of `sdmbn_send_perflow`. -/
structure Sent where
  id : BitVec 32
  key : PerflowKey
  state : JavaString
  hashkey : BitVec 32
  seq : Nat
  deriving DecidableEq

/-- The key of a connection, over one that has not been initialised. -/
def connkey (u : Undefined) (curr : Connection) : PerflowKey :=
  let key := match curr.af with
    | .inet => { u.pKey with
        nwSrc := curr.sIp.word0
        nwSrcMask := 32
        nwDst := curr.dIp.word0
        nwDstMask := 32 }
    | .inet6 => u.pKey
  { key with
    tpSrc := curr.sPort
    tpDst := curr.dPort
    dlType := curr.hwProto
    nwProto := curr.proto
    wildcards := wildcardNone }

/-- `local_get_perflow` reads the length of the text before it asks whether there is one. -/
inductive Fault
  | strlenOfNull
  deriving DecidableEq

variable [Serializer]

/-- One bucket, under `ConnEntryLock`: the bucket with what has been returned marked, and what has been
sent, numbered from a count. -/
def getBucket (u : Undefined) (key : PerflowKey) (id : BitVec 32) (raiseEvents : Bool) :
    Nat → List Connection → Except Fault (List Connection × List Sent)
  | _, [] => .ok ([], [])
  | count, curr :: rest =>
      if getSelects u key curr then
        let curr := { curr with gotten := mark id raiseEvents }
        match Serializer.serIalize curr with
        | none => .error .strlenOfNull
        | some state => do
            let (rest, sent) ← getBucket u key id raiseEvents (count + 1) rest
            pure (curr :: rest, ⟨id, connkey u curr, state, curr.cxid.setWidth 32, count⟩ :: sent)
      else do
        let (rest, sent) ← getBucket u key id raiseEvents count rest
        pure (curr :: rest, sent)

/-- The loop over the buckets that are left. -/
def getBuckets (u : Undefined) (key : PerflowKey) (id : BitVec 32) (raiseEvents : Bool) :
    List Nat → Nat → Tables → Except Fault (Tables × List Sent)
  | [], _, t => .ok (t, [])
  | h :: hs, count, t => do
      let (bucket, sent) ← getBucket u key id raiseEvents count (t.bucket h)
      let (t, sent') ← getBuckets u key id raiseEvents hs (count + sent.length)
        { t with bucket := Function.update t.bucket h bucket }
      pure (t, sent ++ sent')

variable [Macros]

/-- `local_get_perflow`; the count that is returned is the number of connections that have been sent. -/
def localGetPerflow (u : Undefined) (key : PerflowKey) (id : BitVec 32) (raiseEvents : Bool) (t : Tables) :
    Except Fault (Tables × List Sent) :=
  getBuckets u key id raiseEvents (List.range Macros.bucketSize) 0 t

/-! ## Put -/

omit [Macros] in
/-- What is pushed: the connection that has been parsed, with a new number, not marked, and without its
assets, which the next lookup gives back. -/
def putConnection (cxid : BitVec 64) (state : JavaString) : Connection :=
  { Serializer.serParse state with gotten := 0, cxid := cxid, cAsset := none, sAsset := none }

omit [Serializer] in
/-- The bucket is that of the key, whatever the connection says. -/
def putHash (key : PerflowKey) : Nat :=
  Macros.cxtHash4 key.nwSrc key.nwDst key.tpSrc key.tpDst key.nwProto

/-- `local_put_perflow`, but for the assets. No connection is looked for. -/
def localPutPerflow (key : PerflowKey) (state : Option JavaString) (t : Tables) : Tables :=
  match state with
  | none => t
  | some state =>
      let cxid := t.cxtrackerid + 1
      { t with
        cxtrackerid := cxid
        bucket := Function.update t.bucket (putHash key)
          (putConnection cxid state :: t.bucket (putHash key)) }

omit [Serializer]

/-! ## Delete -/

/-- `local_del_perflow`: the connections that stay, and those that have been deleted, bucket by bucket. -/
def localDelPerflow (key : PerflowKey) (t : Tables) : Tables × List Connection :=
  ({ t with bucket := fun h =>
      if h < Macros.bucketSize then (t.bucket h).filter fun curr => !delSelects key curr else t.bucket h },
    (List.range Macros.bucketSize).flatMap fun h => (t.bucket h).filter (delSelects key))

/-- The loop of `local_del_multiflow`: the connections that are marked for the deletion of their
assets. -/
def localDelMultiflow (key : PerflowKey) (id : BitVec 32) (t : Tables) : Tables × List Connection :=
  ({ t with bucket := fun h =>
      if h < Macros.bucketSize then
        (t.bucket h).map fun curr => if delSelects key curr then { curr with gotten := id } else curr
      else t.bucket h },
    (List.range Macros.bucketSize).flatMap fun h => (t.bucket h).filter (delSelects key))

def emptyTables : Tables := ⟨fun _ => [], 0, 0⟩

/-- The key of a message without any field. -/
def anyKey : PerflowKey := jsonParsePerflowKey .new

/-- The number of a connection stands for all that is written about it. -/
@[reducible] def plainSerializer : Serializer where
  serIalize c := some [UInt16.ofBitVec (c.cxid.setWidth 16)]
  serParse _ := cxtNew 0 ⟨.inet, ⟨0, 0, 0, 0⟩, ⟨0, 0, 0, 0⟩, 0, 0, 0, 0, none, 0, 0, none, []⟩

end OFM.Prads
