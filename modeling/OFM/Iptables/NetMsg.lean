import OFM.Iptables.Conntrack
import OFM.Lib.Fields

/-!
# Messages with a connection

`build.c`, `parse.c` and `network.c` of `iptables-sdmbn`: how a connection is written to a message, and read
from one. libnetfilter_conntrack is modelled by what is documented of it; `nfct_getobjopt` is a parameter.
-/

namespace OFM.Iptables
open OFM.Lib

/-! ## Attributes -/

/-- `enum nf_conntrack_attr`: the attributes of one byte. -/
inductive Attr8 where
  | l4proto | tcpState | masterL4proto | sctpState | dccpState | dccpRole | icmpType | icmpCode
  deriving DecidableEq

inductive Attr16 where
  | icmpId | replPortSrc | replPortDst | snatPort | dnatPort
  deriving DecidableEq

inductive Attr32 where
  | status | timeout | mark | sctpVtagOrig | sctpVtagRepl
  | replIpv4Src | replIpv4Dst | snatIpv4 | dnatIpv4
  | origNatSeqCorrectionPos | origNatSeqOffsetBefore | origNatSeqOffsetAfter
  | replNatSeqCorrectionPos | replNatSeqOffsetBefore | replNatSeqOffsetAfter
  deriving DecidableEq

/-- `enum nf_conntrack_attr_grp` -/
inductive AttrGrp where
  | origIpv4 | origIpv6 | origPort | masterIpv4 | masterIpv6 | masterPort
  deriving DecidableEq

/-- The sizes of `struct nfct_attr_grp_ipv4`, `struct nfct_attr_grp_ipv6` and `struct nfct_attr_grp_port`. -/
def AttrGrp.size : AttrGrp → Nat
  | .origIpv4 | .masterIpv4 => 8
  | .origIpv6 | .masterIpv6 => 32
  | .origPort | .masterPort => 4

/-- The memory of a group, in network order. -/
abbrev AttrGrp.Memory (grp : AttrGrp) := { bytes : List (BitVec 8) // bytes.length = grp.size }

/-- A `struct nf_conntrack`: the attributes that are set. -/
@[ext] structure NfConntrack where
  u8 : Attr8 → Option (BitVec 8)
  u16 : Attr16 → Option (BitVec 16)
  u32 : Attr32 → Option (BitVec 32)
  grp : (grp : AttrGrp) → Option grp.Memory

namespace NfConntrack

/-- A connection that has been zeroed. -/
def zeroed : NfConntrack := ⟨fun _ => none, fun _ => none, fun _ => none, fun _ => none⟩

variable (ct : NfConntrack)

/-- `nfct_get_attr_u8`: 0 where the attribute is not set. -/
def getU8 (attr : Attr8) : BitVec 8 := (ct.u8 attr).getD 0

def getU16 (attr : Attr16) : BitVec 16 := (ct.u16 attr).getD 0

def getU32 (attr : Attr32) : BitVec 32 := (ct.u32 attr).getD 0

/-- `nfct_set_attr_u8` -/
def setU8 (attr : Attr8) (value : BitVec 8) : NfConntrack :=
  { ct with u8 := Function.update ct.u8 attr (some value) }

def setU16 (attr : Attr16) (value : BitVec 16) : NfConntrack :=
  { ct with u16 := Function.update ct.u16 attr (some value) }

def setU32 (attr : Attr32) (value : BitVec 32) : NfConntrack :=
  { ct with u32 := Function.update ct.u32 attr (some value) }

/-- `nfct_set_attr_grp`, of memory of the size of the group. -/
def setGrp (grp : AttrGrp) (data : List (BitVec 8)) : NfConntrack :=
  if h : data.length = grp.size then { ct with grp := Function.update ct.grp grp (some ⟨data, h⟩) } else ct

section Attributes

variable {ct} {attr : Attr8} {attr' : Attr16} {attr'' : Attr32} {value : BitVec 8} {value' : BitVec 16}
  {value'' : BitVec 32} {group group' : AttrGrp} {data : List (BitVec 8)} {c : Prop} [Decidable c] {ct' : NfConntrack}

@[simp] theorem setU8_u8 (a : Attr8) :
    (ct.setU8 attr value).u8 a = if a = attr then some value else ct.u8 a := Function.update_apply ..

@[simp] theorem setU8_u16 : (ct.setU8 attr value).u16 = ct.u16 := rfl

@[simp] theorem setU8_u32 : (ct.setU8 attr value).u32 = ct.u32 := rfl

@[simp] theorem setU8_grp : (ct.setU8 attr value).grp = ct.grp := rfl

@[simp] theorem setU16_u8 : (ct.setU16 attr' value').u8 = ct.u8 := rfl

@[simp] theorem setU16_u16 (a : Attr16) :
    (ct.setU16 attr' value').u16 a = if a = attr' then some value' else ct.u16 a := Function.update_apply ..

@[simp] theorem setU16_u32 : (ct.setU16 attr' value').u32 = ct.u32 := rfl

@[simp] theorem setU16_grp : (ct.setU16 attr' value').grp = ct.grp := rfl

@[simp] theorem setU32_u8 : (ct.setU32 attr'' value'').u8 = ct.u8 := rfl

@[simp] theorem setU32_u16 : (ct.setU32 attr'' value'').u16 = ct.u16 := rfl

@[simp] theorem setU32_u32 (a : Attr32) :
    (ct.setU32 attr'' value'').u32 a = if a = attr'' then some value'' else ct.u32 a := Function.update_apply ..

@[simp] theorem setU32_grp : (ct.setU32 attr'' value'').grp = ct.grp := rfl

@[simp] theorem setGrp_u8 : (ct.setGrp group data).u8 = ct.u8 := by
  rw [setGrp]
  split <;> rfl

@[simp] theorem setGrp_u16 : (ct.setGrp group data).u16 = ct.u16 := by
  rw [setGrp]
  split <;> rfl

@[simp] theorem setGrp_u32 : (ct.setGrp group data).u32 = ct.u32 := by
  rw [setGrp]
  split <;> rfl

theorem setGrp_grp_of_ne (h : group' ≠ group) : (ct.setGrp group data).grp group' = ct.grp group' := by
  rw [setGrp]
  split
  · exact Function.update_of_ne h ..
  · rfl

theorem setGrp_grp_self (bytes : group.Memory) : (ct.setGrp group bytes.1).grp group = some bytes := by
  rw [setGrp, dif_pos bytes.2]
  exact Function.update_self ..

@[simp] theorem ite_u8 : (if c then ct else ct').u8 attr = if c then ct.u8 attr else ct'.u8 attr :=
  apply_ite (fun ct : NfConntrack => ct.u8 attr) ..

@[simp] theorem ite_u16 : (if c then ct else ct').u16 attr' = if c then ct.u16 attr' else ct'.u16 attr' :=
  apply_ite (fun ct : NfConntrack => ct.u16 attr') ..

@[simp] theorem ite_u32 : (if c then ct else ct').u32 attr'' = if c then ct.u32 attr'' else ct'.u32 attr'' :=
  apply_ite (fun ct : NfConntrack => ct.u32 attr'') ..

@[simp] theorem ite_grp : (if c then ct else ct').grp group = if c then ct.grp group else ct'.grp group :=
  apply_ite (fun ct : NfConntrack => ct.grp group) ..

end Attributes

end NfConntrack

/-- The flags of `nfct_getobjopt`. -/
inductive Objopt where
  | isSnat | isDnat | isSpat | isDpat
  deriving DecidableEq

/-! ## Attributes of messages -/

/-- `enum nta_attr` -/
inductive NtaAttr where
  | ipv4 | ipv6 | l4proto | port | tcpState | status | timeout | mark
  | masterIpv4 | masterIpv6 | masterL4proto | masterPort
  | snatIpv4 | dnatIpv4 | spatPort | dpatPort
  | natSeqAdj | sctpState | sctpVtagOrig | sctpVtagRepl
  | dccpState | dccpRole | icmpType | icmpCode | icmpId
  deriving DecidableEq

def ntaAttrs : List NtaAttr :=
  [.ipv4, .ipv6, .l4proto, .port, .tcpState, .status, .timeout, .mark,
    .masterIpv4, .masterIpv6, .masterL4proto, .masterPort,
    .snatIpv4, .dnatIpv4, .spatPort, .dpatPort,
    .natSeqAdj, .sctpState, .sctpVtagOrig, .sctpVtagRepl,
    .dccpState, .dccpRole, .icmpType, .icmpCode, .icmpId]

/-- `NTA_MAX` -/
def ntaMax : Nat := 25

def NtaAttr.code (attr : NtaAttr) : BitVec 16 := BitVec.ofNat 16 (ntaAttrs.idxOf attr)

/-- The functions of `parse.c` that set attributes. -/
inductive Parse where
  | u8 (attr : Attr8)
  | u16 (attr : Attr16)
  | u32 (attr : Attr32)
  | group (grp : AttrGrp)
  | natSeqAdj

/-- The bytes that the function reads. -/
def Parse.width : Parse → Nat
  | .u8 _ => 1
  | .u16 _ => 2
  | .u32 _ => 4
  | .group grp => grp.size
  | .natSeqAdj => 24

/-- `parse_u8`, `parse_u16`, `parse_u32`, `parse_group` and `parse_nat_seq_adj`. The last one takes all six values
from the first word. -/
def Parse.run (parse : Parse) (data : List (BitVec 8)) (ct : NfConntrack) : NfConntrack :=
  match parse with
  | .u8 attr => ct.setU8 attr (data.getD 0 0)
  | .u16 attr => ct.setU16 attr (ofBytes16 data)
  | .u32 attr => ct.setU32 attr (ofBytes32 data)
  | .group grp => ct.setGrp grp data
  | .natSeqAdj =>
      let origSeqCorrectionPos := ofBytes32 data
      ct.setU32 .origNatSeqCorrectionPos origSeqCorrectionPos
        |>.setU32 .origNatSeqOffsetBefore origSeqCorrectionPos
        |>.setU32 .origNatSeqOffsetAfter origSeqCorrectionPos
        |>.setU32 .replNatSeqCorrectionPos origSeqCorrectionPos
        |>.setU32 .replNatSeqOffsetBefore origSeqCorrectionPos
        |>.setU32 .replNatSeqOffsetAfter origSeqCorrectionPos

/-- `struct parser` -/
structure Parser where
  parse : Parse
  /-- The size without the header, which `NTA_SIZE` adds. -/
  dataSize : Nat

/-- `NTA_SIZE` -/
def Parser.size (parser : Parser) : Nat := 4 + parser.dataSize

/-- `h`. There is a function at every index. -/
def parserOf : NtaAttr → Parser
  | .ipv4 => ⟨.group .origIpv4, AttrGrp.size .origIpv4⟩
  | .ipv6 => ⟨.group .origIpv6, AttrGrp.size .origIpv6⟩
  | .port => ⟨.group .origPort, AttrGrp.size .origPort⟩
  | .l4proto => ⟨.u8 .l4proto, 1⟩
  | .tcpState => ⟨.u8 .tcpState, 1⟩
  | .status => ⟨.u32 .status, 4⟩
  | .mark => ⟨.u32 .mark, 4⟩
  | .timeout => ⟨.u32 .timeout, 4⟩
  | .masterIpv4 => ⟨.group .masterIpv4, AttrGrp.size .masterIpv4⟩
  | .masterIpv6 => ⟨.group .masterIpv6, AttrGrp.size .masterIpv6⟩
  | .masterL4proto => ⟨.u8 .masterL4proto, 1⟩
  | .masterPort => ⟨.group .masterPort, AttrGrp.size .masterPort⟩
  | .snatIpv4 => ⟨.u32 .snatIpv4, 4⟩
  | .dnatIpv4 => ⟨.u32 .dnatIpv4, 4⟩
  | .spatPort => ⟨.u16 .snatPort, 2⟩
  | .dpatPort => ⟨.u16 .dnatPort, 2⟩
  | .natSeqAdj => ⟨.natSeqAdj, 24⟩
  | .sctpState => ⟨.u8 .sctpState, 1⟩
  | .sctpVtagOrig => ⟨.u32 .sctpVtagOrig, 4⟩
  | .sctpVtagRepl => ⟨.u32 .sctpVtagRepl, 4⟩
  | .dccpState => ⟨.u8 .dccpState, 1⟩
  | .dccpRole => ⟨.u8 .dccpRole, 1⟩
  | .icmpType => ⟨.u8 .icmpType, 1⟩
  | .icmpCode => ⟨.u8 .icmpCode, 1⟩
  | .icmpId => ⟨.u16 .icmpId, 2⟩

/-! ## Headers -/

/-- `struct nethdr` -/
structure Nethdr where
  version : BitVec 4
  type : BitVec 4
  flags : BitVec 8
  len : BitVec 16
  seq : BitVec 32
  deriving DecidableEq

/-- `NETHDR_SIZ` -/
def nethdrSiz : Nat := 8

def netTStateNew : BitVec 4 := 0
def netTCtl : BitVec 4 := 10
def netFResync : BitVec 8 := 1 <<< 1
def netFNack : BitVec 8 := 1 <<< 2
def netFAck : BitVec 8 := 1 <<< 3

/-- The header in memory, with its words in network order. -/
def Nethdr.bytes (hdr : Nethdr) : List (BitVec 8) :=
  (hdr.version ++ hdr.type) :: hdr.flags :: (bytes16 hdr.len ++ bytes32 hdr.seq)

def Nethdr.ofBytes (bytes : List (BitVec 8)) : Nethdr where
  version := (bytes.getD 0 0).extractLsb' 4 4
  type := (bytes.getD 0 0).extractLsb' 0 4
  flags := bytes.getD 1 0
  len := ofBytes16 (bytes.drop 2)
  seq := ofBytes32 (bytes.drop 4)

/-- `IS_ACK`, `IS_NACK` or `IS_RESYNC`: there are two more words behind the header. -/
def Nethdr.isControl (hdr : Nethdr) : Bool :=
  hdr.type = netTCtl && (hdr.flags &&& netFAck ≠ 0 || hdr.flags &&& netFNack ≠ 0 || hdr.flags &&& netFResync ≠ 0)

/-- `from` and `to` of a `struct nethdr_ack` with their bytes the other way around. -/
def swapFromTo (block : List (BitVec 8)) : Option (List (BitVec 8)) := do
  let source ← slice block nethdrSiz 4
  let block ← poke block nethdrSiz source.reverse
  let target ← slice block (nethdrSiz + 4) 4
  poke block (nethdrSiz + 4) target.reverse

/-! ## Building -/

/-- A message that is built in a block of memory. The header stands in its first bytes at last. -/
structure Net where
  hdr : Nethdr
  block : List (BitVec 8)

/-- Memory that is not there cannot be used. -/
def orCrash {α : Type} : Option α → Except Halt α
  | none => .error .crashed
  | some a => .ok a

/-- `memcpy` to a block. -/
def Net.memcpy (n : Net) (ptr : Nat) (data : List (BitVec 8)) : Except Halt Net := do
  let block ← orCrash (poke n.block ptr data)
  pure { n with block }

/-- `put_header`: the message with the header of an attribute, and where its data goes. -/
def putHeader (n : Net) (attr : NtaAttr) (len : Nat) : Except Halt (Net × Nat) := do
  let nta := n.hdr.len.toNat
  let totalSize := align4 (4 + len)
  let attrSize := 4 + len
  let n := { n with hdr := { n.hdr with len := n.hdr.len + BitVec.ofNat 16 totalSize } }
  let n ← n.memcpy nta (bytes16 (BitVec.ofNat 16 attrSize) ++ bytes16 attr.code)
  let n ← n.memcpy (nta + attrSize) (List.replicate (totalSize - attrSize) 0)
  pure (n, nta + 4)

/-- `addattr` -/
def addattr (n : Net) (attr : NtaAttr) (data : List (BitVec 8)) : Except Halt Net := do
  let (n, ptr) ← putHeader n attr data.length
  n.memcpy ptr data

section Build

variable (ct : NfConntrack)

/-- `__build_u8`. There is no pointer to an attribute that is not set. -/
def buildU8 (a : Attr8) (n : Net) (b : NtaAttr) : Except Halt Net := do
  let (n, ptr) ← putHeader n b 1
  let value ← orCrash (ct.u8 a)
  n.memcpy ptr [value]

/-- `__build_u16` -/
def buildU16 (a : Attr16) (n : Net) (b : NtaAttr) : Except Halt Net := addattr n b (bytes16 (ct.getU16 a))

/-- `__build_u32` -/
def buildU32 (a : Attr32) (n : Net) (b : NtaAttr) : Except Halt Net := addattr n b (bytes32 (ct.getU32 a))

/-- `__build_group`. A group that is not set is not copied. -/
def buildGroup (a : AttrGrp) (n : Net) (b : NtaAttr) : Except Halt Net := do
  let (n, ptr) ← putHeader n b a.size
  match ct.grp a with
  | none => pure n
  | some data => n.memcpy ptr data.1

/-- `nat_type` -/
def natType : List Attr32 :=
  [.origNatSeqCorrectionPos, .origNatSeqOffsetBefore, .origNatSeqOffsetAfter,
    .replNatSeqCorrectionPos, .replNatSeqOffsetBefore, .replNatSeqOffsetAfter]

/-- `__build_natseqadj` -/
def buildNatseqadj (n : Net) : Except Halt Net :=
  addattr n .natSeqAdj (natType.flatMap fun attr => bytes32 (ct.getU32 attr))

/-- `build_l4proto_tcp` -/
def buildL4protoTcp (n : Net) : Except Halt Net :=
  if (ct.u8 .tcpState).isNone then pure n else buildU8 ct .tcpState n .tcpState

/-- `build_l4proto_sctp` -/
def buildL4protoSctp (n : Net) : Except Halt Net :=
  if (ct.u8 .sctpState).isNone then pure n
  else do
    let n ← buildU8 ct .sctpState n .sctpState
    let n ← buildU32 ct .sctpVtagOrig n .sctpVtagOrig
    buildU32 ct .sctpVtagRepl n .sctpVtagRepl

/-- `build_l4proto_dccp` -/
def buildL4protoDccp (n : Net) : Except Halt Net :=
  if (ct.u8 .dccpState).isNone then pure n
  else do
    let n ← buildU8 ct .dccpState n .dccpState
    buildU8 ct .dccpRole n .dccpRole

/-- `build_l4proto_icmp` -/
def buildL4protoIcmp (n : Net) : Except Halt Net := do
  let n ← buildU8 ct .icmpType n .icmpType
  let n ← buildU8 ct .icmpCode n .icmpCode
  buildU16 ct .icmpId n .icmpId

def ipprotoIcmp : BitVec 8 := 1
def ipprotoTcp : BitVec 8 := 6
def ipprotoDccp : BitVec 8 := 33
def ipprotoSctp : BitVec 8 := 132

/-- `l4proto_fcn` -/
def l4protoFcn (l4proto : BitVec 8) (n : Net) : Except Halt Net :=
  if l4proto = ipprotoTcp then buildL4protoTcp ct n
  else if l4proto = ipprotoSctp then buildL4protoSctp ct n
  else if l4proto = ipprotoDccp then buildL4protoDccp ct n
  else if l4proto = ipprotoIcmp then buildL4protoIcmp ct n
  else pure n

/-- What is written behind either address of a master. -/
def buildMaster (n : Net) : Except Halt Net := do
  let n ← buildU8 ct .masterL4proto n .masterL4proto
  if (ct.grp .masterPort).isSome then buildGroup ct .masterPort n .masterPort else pure n

/-- `build_payload` -/
def buildPayload (getobjopt : NfConntrack → Objopt → Bool) (n : Net) : Except Halt Net := do
  let l4proto := ct.getU8 .l4proto
  let n ← (
    if (ct.grp .origIpv4).isSome then buildGroup ct .origIpv4 n .ipv4
    else if (ct.grp .origIpv6).isSome then buildGroup ct .origIpv6 n .ipv6
    else pure n)
  let n ← buildU8 ct .l4proto n .l4proto
  let n ← (if (ct.grp .origPort).isSome then buildGroup ct .origPort n .port else pure n)
  let n ← buildU32 ct .status n .status
  let n ← l4protoFcn ct l4proto n
  let n ← (if (ct.u32 .timeout).isSome then buildU32 ct .timeout n .timeout else pure n)
  let n ← (if (ct.u32 .mark).isSome then buildU32 ct .mark n .mark else pure n)
  -- the master conntrack
  let n ← (
    if (ct.grp .masterIpv4).isSome then buildGroup ct .masterIpv4 n .masterIpv4 >>= buildMaster ct
    else if (ct.grp .masterIpv6).isSome then buildGroup ct .masterIpv6 n .masterIpv6 >>= buildMaster ct
    else pure n)
  let n ← (if getobjopt ct .isSnat then buildU32 ct .replIpv4Dst n .snatIpv4 else pure n)
  let n ← (if getobjopt ct .isDnat then buildU32 ct .replIpv4Src n .dnatIpv4 else pure n)
  let n ← (if getobjopt ct .isSpat then buildU16 ct .replPortDst n .spatPort else pure n)
  let n ← (if getobjopt ct .isDpat then buildU16 ct .replPortSrc n .dpatPort else pure n)
  if natType.all fun attr => (ct.u32 attr).isSome then buildNatseqadj ct n else pure n

end Build

/-- The static variables of messages: the block in which they are built, and the next number; there is none
before the first message. -/
structure NetState where
  net : List (BitVec 8)
  curSeq : Option (BitVec 32)

/-- `nethdr_set`, of a header that has been zeroed. -/
def nethdrSet (time : BitVec 32) (state : NetState) (type : BitVec 4) : Nethdr × NetState :=
  let curSeq := state.curSeq.getD time
  (⟨0, type, 0, BitVec.ofNat 16 nethdrSiz, curSeq⟩, { state with curSeq := some (curSeq + 1) })

/-- `BUILD_NETMSG` -/
def buildNetmsg (getobjopt : NfConntrack → Objopt → Bool) (time : BitVec 32) (ct : NfConntrack)
    (query : BitVec 4) (state : NetState) : Except Halt NetState := do
  let (hdr, state) := nethdrSet time state query
  let n ← buildPayload ct getobjopt ⟨hdr, state.net⟩
  let block ← if n.hdr.isControl then orCrash (swapFromTo n.block) else pure n.block
  pure { state with net := n.hdr.bytes ++ block.drop nethdrSiz }

/-- What `conntrack_get_callback` takes of the block: as many bytes as the header says. -/
def NetState.message (state : NetState) : List (BitVec 8) :=
  state.net.take (Nethdr.ofBytes state.net).len.toNat

/-! ## Parsing -/

/-- What comes of `parse_payload`: its result and the connection, or memory that is not there has been read. -/
inductive Payload where
  | ret (code : Int) (ct : NfConntrack)
  | crashed

/-- The loop of `parse_payload` from an attribute on. The words are turned around in place in the source, each
of them once. -/
def parseLoop (block : List (BitVec 8)) (attr : Nat) (len : Int) (ct : NfConntrack) : Payload :=
  if len ≤ 4 then .ret 0 ct
  else
    match slice block attr 2, slice block (attr + 2) 2 with
    | some lenBytes, some attrBytes =>
        let ntaLen := (ofBytes16 lenBytes).toNat
        let ntaAttr := (ofBytes16 attrBytes).toNat
        if len < ntaLen then .ret (-2) ct
        else if ntaMax < ntaAttr then .ret (-3) ct
        else
          match ntaAttrs[ntaAttr]? with
          | none => .crashed
          | some nta =>
              if ntaLen ≠ (parserOf nta).size then .ret (-4) ct
              else
                match slice block (attr + 4) (parserOf nta).parse.width with
                | none => .crashed
                | some data =>
                    parseLoop block (attr + align4 (parserOf nta).size) (len - align4 (parserOf nta).size)
                      ((parserOf nta).parse.run data ct)
    | _, _ => .crashed
  termination_by len.toNat
  decreasing_by
    have := le_align4 (parserOf nta).size
    have : (parserOf nta).size = 4 + (parserOf nta).dataSize := rfl
    omega

/-- `parse_payload`, after the header has been turned around. -/
def parsePayload (ct : NfConntrack) (hdr : Nethdr) (block : List (BitVec 8)) (remain : Nat) : Payload :=
  if remain < hdr.len.toNat then .ret (-1) ct
  else parseLoop block nethdrSiz (hdr.len.toNat - nethdrSiz) ct

/-- What `local_put_perflow` makes of the memory that has been decoded. What the header says of the length is
not compared with what there is. -/
def parseMessage (block : List (BitVec 8)) : Payload :=
  match slice block 0 nethdrSiz with
  | none => .crashed
  | some bytes =>
      let hdr := Nethdr.ofBytes bytes
      match if hdr.isControl then swapFromTo block else some block with
      | none => .crashed
      | some block => parsePayload .zeroed hdr block hdr.len.toNat

/-- The tuple of the original direction, by which the kernel knows a connection. -/
structure Tuple where
  ipv4 : Option (AttrGrp.Memory .origIpv4)
  ipv6 : Option (AttrGrp.Memory .origIpv6)
  l4proto : Option (BitVec 8)
  port : Option (AttrGrp.Memory .origPort)
  icmpType : Option (BitVec 8)
  icmpCode : Option (BitVec 8)
  icmpId : Option (BitVec 16)
  deriving DecidableEq

def NfConntrack.tuple (ct : NfConntrack) : Tuple where
  ipv4 := ct.grp .origIpv4
  ipv6 := ct.grp .origIpv6
  l4proto := ct.u8 .l4proto
  port := ct.grp .origPort
  icmpType := ct.u8 .icmpType
  icmpCode := ct.u8 .icmpCode
  icmpId := ct.u16 .icmpId

/-- A connection as it is handed to `nl_create_conntrack`. -/
def NfConntrack.conntrack (ct : NfConntrack) : Conntrack Tuple NfConntrack where
  orig := ct.tuple
  reply := none
  status := ct.u32 .status
  tcpState := ct.u8 .tcpState
  tcpFlags := none
  rest := ct

def parseConntrack (block : List (BitVec 8)) : Parsed Tuple NfConntrack :=
  match parseMessage block with
  | .crashed => .crashed
  | .ret code ct => if code ≠ 0 then .failed else .ok ct.conntrack

end OFM.Iptables
