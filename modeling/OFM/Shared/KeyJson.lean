import OFM.Controller.PacketMatch
import OFM.Shared.PerflowKey

/-!
# Keys as JSON objects

`json_compose_perflow_key`, and what Gson reads and writes of a key. The text in between, which json-c
and Gson write and parse, is left out: an object is its members, by name.
-/

namespace OFM.Controller

inductive JsonValue
  | number (n : Int)
  | text (t : JavaString)
  deriving DecidableEq

namespace JsonValue

def asNumber : JsonValue → Option Int
  | number n => some n
  | text _ => none

def asText : JsonValue → Option JavaString
  | text t => some t
  | number _ => none

end JsonValue

/-- The members of an object, in the order in which they are added. -/
abbrev KeyObject := List (String × JsonValue)

namespace KeyObject

/-- A number under a name. -/
def number (field : KeyObject) (name : String) : Option Int := (field.lookup name).bind JsonValue.asNumber

def text (field : KeyObject) (name : String) : Option JavaString := (field.lookup name).bind JsonValue.asText

/-- The members that a key may have. -/
def members (field : KeyObject) : PerflowKey where
  nwSrc := field.text "nw_src"
  nwDst := field.text "nw_dst"
  nwSrcMask := field.number "nw_src_mask"
  nwDstMask := field.number "nw_dst_mask"
  tpSrc := field.number "tp_src"
  tpDst := field.number "tp_dst"
  tpFlip := (field.number "tp_flip").getD 0
  dlType := field.number "dl_type"
  nwProto := field.number "nw_proto"

end KeyObject

namespace PerflowKey

/-- `(short) in.nextInt()` -/
def toShort (n : Int) : Int := (BitVec.ofInt 16 n).toInt

/-- `(byte) in.nextInt()` -/
def toByte (n : Int) : Int := (BitVec.ofInt 8 n).toInt

/-- `gson.fromJson`: a number is cut to the width of its field. -/
def fromJson (field : KeyObject) : PerflowKey :=
  let key := field.members
  { key with
    tpSrc := key.tpSrc.map toShort
    tpDst := key.tpDst.map toShort
    tpFlip := toByte key.tpFlip
    dlType := key.dlType.map toShort
    nwProto := key.nwProto.map toByte }

/-- `gson.toJson`: the fields as they are declared, without those that are null. -/
def toJson (key : PerflowKey) : KeyObject :=
  key.nwSrc.toList.map (fun t => ("nw_src", .text t)) ++
  key.nwDst.toList.map (fun t => ("nw_dst", .text t)) ++
  key.nwSrcMask.toList.map (fun n => ("nw_src_mask", .number n)) ++
  key.nwDstMask.toList.map (fun n => ("nw_dst_mask", .number n)) ++
  key.tpSrc.toList.map (fun n => ("tp_src", .number n)) ++
  key.tpDst.toList.map (fun n => ("tp_dst", .number n)) ++
  [("tp_flip", .number key.tpFlip)] ++
  key.dlType.toList.map (fun n => ("dl_type", .number n)) ++
  key.nwProto.toList.map (fun n => ("nw_proto", .number n))

end PerflowKey

end OFM.Controller

namespace OFM.Shared
open OFM.Lib
open OFM.Controller (JavaString KeyObject IPv4.fromIPv4Address)

/-- `inet_ntoa`: the address is in network order. -/
def inetNtoa (address : BitVec 32) : JavaString := IPv4.fromIPv4Address (swap32 address)

/-- A field of a key is not a wildcard. -/
def PerflowKey.Fixed (key : PerflowKey) (wildcard : BitVec 8) : Prop := key.wildcards &&& wildcard = 0

instance (key : PerflowKey) (wildcard : BitVec 8) : Decidable (key.Fixed wildcard) :=
  inferInstanceAs (Decidable (_ = _))

/-- `json_object_new_int`, whose argument is a signed int. -/
def addInt {w : Nat} (field : KeyObject) (compared : Prop) [Decidable compared] (name : String)
    (n : BitVec w) : KeyObject :=
  if compared then field ++ [(name, .number (n.setWidth 32).toInt)] else field

/-- `json_object_new_string` -/
def addString (field : KeyObject) (compared : Prop) [Decidable compared] (name : String)
    (t : JavaString) : KeyObject :=
  if compared then field ++ [(name, .text t)] else field

def jsonComposePerflowKey (key : PerflowKey) : KeyObject :=
  let field : KeyObject := []
  let field := addInt field (key.Fixed wildcardDlType) "dl_type" key.dlType
  let field := addString field (key.Fixed wildcardNwSrc) "nw_src" (inetNtoa key.nwSrc)
  let field := addInt field (key.Fixed wildcardNwSrcMask) "nw_src_mask" key.nwSrcMask
  let field := addString field (key.Fixed wildcardNwDst) "nw_dst" (inetNtoa key.nwDst)
  let field := addInt field (key.Fixed wildcardNwDstMask) "nw_dst_mask" key.nwDstMask
  let field := addInt field (key.Fixed wildcardNwProto) "nw_proto" key.nwProto
  let field := addInt field (key.Fixed wildcardTpSrc) "tp_src" (swap16 key.tpSrc)
  let field := addInt field (key.Fixed wildcardTpDst) "tp_dst" (swap16 key.tpDst)
  addInt field (key.Fixed wildcardTpSrc ∨ key.Fixed wildcardTpDst) "tp_flip" key.tpFlip

end OFM.Shared
