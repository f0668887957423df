import Mathlib.Algebra.Group.Nat.Defs
import OFM.Lib.Worklist

/-!
# Chunks of PRADS state

The structures in memory that a connection leads to, the translators of `setup_serialize_translators`, and
what `ser_ialize` and `ser_parse` do with them: each field is written and read as its translator declares it,
and references to one object, as one type, are one reference.
-/

namespace OFM.Prads
open OFM.Lib

/-! ## Memory -/

inductive Struct
  | connection | asset | tagstr | servAsset | osAsset
  deriving DecidableEq

/-- The members that some translator has; `__pad__` is `pad`. -/
inductive Member
  | startTime | lastPktTime | cxid | reversed | af | hwProto | proto | sIp | dIp | sPort | dPort
  | sTotalPkts | sTotalBytes | dTotalPkts | dTotalBytes | sTcpFlags | pad | dTcpFlags | check
  | cAsset | sAsset | gotten
  | firstSeen | lastSeen | iAttempts | vlan | ipAddr | services | os
  | mlen | slen | data
  | prev | next | port | ttl | service | application | role | unknown
  | vendor | detection | rawFp | matchedFp | matchOs | matchDesc | mtu | uptime
  deriving DecidableEq

/-- A number by its bits, of however many it has room for, what a `char *` points to up to its `'\0'`, or a
pointer to a structure. An address is that of IPv4. -/
inductive Value
  | bits (v : Nat)
  | str (s : Option (List (BitVec 8)))
  | ptr (a : Option Nat)
  deriving DecidableEq

structure Obj where
  struct : Struct
  member : Member → Value

/-- What is allocated; an address is a position. -/
abbrev Objects := List Obj

/-- The C types of members. -/
inductive CType
  | bits (w : Nat)
  | str
  | ptr (s : Struct)
  deriving DecidableEq

/-! ## Translators -/

/-- The types that are not structures of their own. `in6` has four times a `uint8_t`. -/
inductive Primitive
  | timeT | ushort | int | uint8T | uint16T | uint32T | int8T | int16T | int32T | in6 | string
  deriving DecidableEq

def Primitive.cType : Primitive → CType
  | .timeT => .bits 64
  | .ushort | .uint16T | .int16T => .bits 16
  | .int | .uint32T | .int32T | .in6 => .bits 32
  | .uint8T | .int8T => .bits 8
  | .string => .str

/-- A type, with `ref` 0 or 1. -/
inductive FieldType
  | val (type : Primitive)
  | ref (type : Struct)
  deriving DecidableEq

def FieldType.cType : FieldType → CType
  | .val type => type.cType
  | .ref type => .ptr type

structure SerField where
  type : FieldType
  tag : String
  offset : Member
  deriving DecidableEq

/-- `setup_serialize_translators` -/
def translator : Struct → List SerField
  | .connection =>
      [⟨.val .timeT, "start_time", .startTime⟩,
        ⟨.val .timeT, "last_pkt_time", .lastPktTime⟩,
        ⟨.val .uint32T, "cxid", .cxid⟩,
        ⟨.val .uint8T, "reversed", .reversed⟩,
        ⟨.val .uint32T, "af", .af⟩,
        ⟨.val .uint16T, "hw_proto", .hwProto⟩,
        ⟨.val .uint8T, "proto", .proto⟩,
        ⟨.val .in6, "s_ip", .sIp⟩,
        ⟨.val .in6, "d_ip", .dIp⟩,
        ⟨.val .uint16T, "s_port", .sPort⟩,
        ⟨.val .uint16T, "d_port", .dPort⟩,
        ⟨.val .uint32T, "s_total_pkts", .sTotalPkts⟩,
        ⟨.val .uint32T, "s_total_bytes", .sTotalBytes⟩,
        ⟨.val .uint32T, "d_total_pkts", .dTotalPkts⟩,
        ⟨.val .uint32T, "d_total_bytes", .dTotalBytes⟩,
        ⟨.val .uint8T, "s_tcpFlags", .sTcpFlags⟩,
        ⟨.val .uint8T, "__pad__", .pad⟩,
        ⟨.val .uint8T, "d_tcpFlags", .dTcpFlags⟩,
        ⟨.val .uint8T, "check", .check⟩,
        ⟨.ref .asset, "c_asset", .cAsset⟩,
        ⟨.ref .asset, "s_asset", .sAsset⟩,
        ⟨.val .uint32T, "gotten", .gotten⟩]
  | .asset =>
      [⟨.val .timeT, "first_seen", .firstSeen⟩,
        ⟨.val .timeT, "last_seen", .lastSeen⟩,
        ⟨.val .ushort, "i_attempts", .iAttempts⟩,
        ⟨.val .int, "af", .af⟩,
        ⟨.val .uint16T, "vlan", .vlan⟩,
        ⟨.val .in6, "ip_addr", .ipAddr⟩,
        ⟨.ref .servAsset, "services", .services⟩,
        ⟨.ref .osAsset, "os", .os⟩]
  | .tagstr =>
      [⟨.val .int, "mlen", .mlen⟩,
        ⟨.val .int, "slen", .slen⟩,
        ⟨.val .string, "data", .data⟩]
  | .servAsset =>
      [⟨.ref .servAsset, "prev", .prev⟩,
        ⟨.ref .servAsset, "next", .next⟩,
        ⟨.val .timeT, "first_seen", .firstSeen⟩,
        ⟨.val .timeT, "last_seen", .lastSeen⟩,
        ⟨.val .ushort, "i_attempts", .iAttempts⟩,
        ⟨.val .ushort, "proto", .proto⟩,
        ⟨.val .uint16T, "port", .port⟩,
        ⟨.val .uint8T, "ttl", .ttl⟩,
        ⟨.ref .tagstr, "service", .service⟩,
        ⟨.ref .tagstr, "application", .application⟩,
        ⟨.val .int, "role", .role⟩,
        ⟨.val .int, "unknown", .unknown⟩]
  | .osAsset =>
      [⟨.ref .servAsset, "prev", .prev⟩,
        ⟨.ref .servAsset, "next", .next⟩,
        ⟨.val .timeT, "first_seen", .firstSeen⟩,
        ⟨.val .timeT, "last_seen", .lastSeen⟩,
        ⟨.val .ushort, "i_attempts", .iAttempts⟩,
        ⟨.ref .tagstr, "vendor", .vendor⟩,
        ⟨.ref .tagstr, "os", .os⟩,
        ⟨.val .uint8T, "detection", .detection⟩,
        ⟨.ref .tagstr, "raw_fp", .rawFp⟩,
        ⟨.ref .tagstr, "matched_fp", .matchedFp⟩,
        ⟨.val .string, "match_os", .matchOs⟩,
        ⟨.val .string, "match_desc", .matchDesc⟩,
        ⟨.val .int16T, "port", .port⟩,
        ⟨.val .int16T, "mtu", .mtu⟩,
        ⟨.val .int8T, "ttl", .ttl⟩,
        ⟨.val .int32T, "uptime", .uptime⟩]

/-- What a member leads to: an `os_asset` is in a list of such, whatever its translator says. -/
def memberType (s : Struct) (f : SerField) : CType :=
  match s, f.offset with
  | .osAsset, .prev | .osAsset, .next => .ptr .osAsset
  | _, _ => f.type.cType

/-! ## Reading and writing -/

/-- What lies where another structure would have a member. -/
class Layout where
  overlap : Obj → Struct → Member → Value

/-- A value as a type: of a number only so many bits. -/
def CType.cut : CType → Value → Option Value
  | .bits w, .bits v => some (.bits (v % 2 ^ w))
  | .str, .str s => some (.str s)
  | .ptr _, .ptr a => some (.ptr a)
  | _, _ => none

/-- An object, and the type that it is taken for. -/
abbrev Holder := Nat × Struct

/-- What a field refers to. -/
def Holder.target (type : FieldType) (v : Value) : Option Holder :=
  match type, v with
  | .ref s, .ptr (some a) => some (a, s)
  | _, _ => none

/-- Where it is among the holders; `NULL` is written as such. -/
def written (holders : List Holder) (type : FieldType) (v : Value) : Value :=
  match Holder.target type v with
  | some h => .ptr (some (holders.idxOf h))
  | none => v

variable [Layout]

/-- A field of an object that is taken for an `s`. -/
def Obj.read (o : Obj) (s : Struct) (f : SerField) : Option Value :=
  f.type.cType.cut (if o.struct = s then o.member f.offset else Layout.overlap o s f.offset)

/-- All fields of a holder. -/
def Holder.fields (mem : Objects) (h : Holder) : Option (List (SerField × Value)) :=
  mem[h.1]?.bind fun o => (translator h.2).mapM fun f => (o.read h.2 f).map (f, ·)

/-- `ser_follow_ptrs` -/
def followPtrs (mem : Objects) (h : Holder) : Option (List Holder) :=
  (h.fields mem).map fun fields => fields.filterMap fun (f, v) => Holder.target f.type v

/-- A structure in a chunk. -/
structure Dump where
  type : Struct
  fields : List (String × Value)

/-- `ser_dump` -/
def serDump (mem : Objects) (holders : List Holder) (h : Holder) : Option Dump :=
  (h.fields mem).map fun fields =>
    ⟨h.2, fields.map fun (f, v) => (f.tag, written holders f.type v)⟩

/-- `ser_ialize` of a connection. -/
def serIalize (fuel : Nat) (mem : Objects) (conn : Nat) : Option (List Dump) :=
  (Worklist.visit (followPtrs mem) fuel 0 [(conn, .connection)]).bind fun holders =>
    holders.mapM (serDump mem holders)

omit [Layout]

/-- What is read for a field is stored at its offset. -/
def storeField (s : Struct) (member : Member → Value) (field : String × Value) : Member → Value :=
  match (translator s).find? (·.tag = field.1) with
  | some f => Function.update member f.offset field.2
  | none => member

/-- A structure that `calloc` has allocated, with what is read for it. -/
def inflate (s : Struct) (fields : List (String × Value)) : Member → Value :=
  fields.foldl (storeField s) fun _ => .bits 0

/-- `ser_parse`; the connection comes first. -/
def serParse (chunk : List Dump) : Objects := chunk.map fun d => ⟨d.type, inflate d.type d.fields⟩

end OFM.Prads
