import OFM.Controller.DHCP

/-!
# Setting the flag of a frame

`PacketUtil.setFlag` over the packets of Floodlight: a frame is read into `Ethernet`, `IPv4` and what
that carries, the flag becomes its ToS byte, and the whole is written again. The fields of these classes
hold bits, whose sign matters for the sizes of arrays only.
-/

namespace OFM.Controller
open OFM.Lib ByteBuffer

/-! ## Checksums -/

/-- What the pseudo header adds to a sum. -/
def pseudoHeader (sourceAddress destinationAddress : BitVec 32) (protocol : UInt8) (length : Nat) : Nat :=
  (sourceAddress.toNat / 2 ^ 16 + sourceAddress.toNat % 2 ^ 16) +
    (destinationAddress.toNat / 2 ^ 16 + destinationAddress.toNat % 2 ^ 16) + protocol.toNat +
    length % 2 ^ 16

/-- A checksum of zero is computed and put to its place. -/
def withChecksum (index : Nat) (checksum : BitVec 16) (accumulation : Nat) (data : Bytes) : Bytes :=
  if checksum = 0 then data.take index ++ putShort (checksumOf accumulation) ++ data.drop (index + 2)
  else data

/-! ## ICMP -/

structure ICMP where
  icmpType : UInt8
  icmpCode : UInt8
  checksum : BitVec 16
  payload : Bytes
  deriving DecidableEq

namespace ICMP

def read : Reader JavaException ICMP := do
  let icmpType ← getByte
  let icmpCode ← getByte
  let checksum ← getShort
  let payload ← Reader.remaining
  pure { icmpType, icmpCode, checksum, payload }

def serialize (icmp : ICMP) : Except JavaException Bytes := do
  let data ← filled (4 + icmp.payload.length)
    ([icmp.icmpType, icmp.icmpCode] ++ putShort icmp.checksum ++ icmp.payload)
  pure (withChecksum 2 icmp.checksum (wordSum data) data)

end ICMP

/-! ## TCP -/

structure TCP where
  sourcePort : BitVec 16
  destinationPort : BitVec 16
  sequence : BitVec 32
  acknowledge : BitVec 32
  dataOffset : Nat
  flags : BitVec 16
  windowSize : BitVec 16
  checksum : BitVec 16
  urgentPointer : BitVec 16
  options : Bytes
  payload : Bytes
  deriving DecidableEq

namespace TCP

/-- Options that are cut short are read as far as they go. -/
def read : Reader JavaException TCP := do
  let sourcePort ← getShort
  let destinationPort ← getShort
  let sequence ← getInt
  let acknowledge ← getInt
  let word ← getShort
  let dataOffset := (word >>> 12).toNat
  let flags := word &&& 0x1ff
  let windowSize ← getShort
  let checksum ← getShort
  let urgentPointer ← getShort
  let rest ← Reader.remaining
  let optLength := if 5 < dataOffset then min (4 * dataOffset - 20) rest.length else 0
  pure { sourcePort, destinationPort, sequence, acknowledge, dataOffset, flags, windowSize, checksum,
         urgentPointer, options := rest.take optLength, payload := rest.drop optLength }

def serialize (tcp : TCP) (sourceAddress destinationAddress : BitVec 32) : Except JavaException Bytes := do
  let dataOffset := if tcp.dataOffset = 0 then 5 else tcp.dataOffset
  let length := 4 * dataOffset + tcp.payload.length
  let options :=
    if 5 < dataOffset then
      tcp.options ++ List.replicate (4 * dataOffset - 20 - tcp.options.length) 0
    else []
  let data ← filled length
    (putShort tcp.sourcePort ++ putShort tcp.destinationPort ++ putInt tcp.sequence ++
      putInt tcp.acknowledge ++ putShort (tcp.flags ||| BitVec.ofNat 16 dataOffset <<< 12) ++
      putShort tcp.windowSize ++ putShort tcp.checksum ++ putShort tcp.urgentPointer ++ options ++
      tcp.payload)
  pure (withChecksum 16 tcp.checksum
    (pseudoHeader sourceAddress destinationAddress 6 length + wordSum data) data)

end TCP

/-! ## UDP -/

inductive UDPPayload
  | dhcp (message : Option DHCP)
  | data (bytes : Bytes)
  deriving DecidableEq

structure UDP where
  sourcePort : BitVec 16
  destinationPort : BitVec 16
  length : BitVec 16
  checksum : BitVec 16
  payload : UDPPayload
  deriving DecidableEq

/-- The keys of `decodeMap`, whose values are all `DHCP`. -/
def UDP.decodeMap : List (BitVec 16) := [67, 68]

def UDP.Decodes (sourcePort destinationPort : BitVec 16) : Prop :=
  destinationPort ∈ decodeMap ∨ sourcePort ∈ decodeMap

instance (sourcePort destinationPort : BitVec 16) : Decidable (UDP.Decodes sourcePort destinationPort) :=
  inferInstanceAs (Decidable (_ ∨ _))

namespace UDPPayload

def deserialize (sourcePort destinationPort : BitVec 16) (data : Bytes) : Except JavaException UDPPayload :=
  if UDP.Decodes sourcePort destinationPort then (DHCP.deserialize data).map .dhcp else .ok (.data data)

/-- The checksum to write and the bytes; a message of DHCP has reset the checksum. -/
def serialize (checksum : BitVec 16) : UDPPayload → Except JavaException (BitVec 16 × Bytes)
  | .dhcp message => (DHCP.serialize message).map fun bytes => (0, bytes)
  | .data bytes => .ok (checksum, bytes)

end UDPPayload

namespace UDP

def deserialize (data : Bytes) : Except JavaException UDP := do
  let (sourcePort, bb) ← getShort data
  let (destinationPort, bb) ← getShort bb
  let (length, bb) ← getShort bb
  let (checksum, bb) ← getShort bb
  let payload ← UDPPayload.deserialize sourcePort destinationPort bb
  pure { sourcePort, destinationPort, length, checksum, payload }

def serialize (udp : UDP) (sourceAddress destinationAddress : BitVec 32) : Except JavaException Bytes := do
  let (checksum, payloadData) ← udp.payload.serialize udp.checksum
  let length := BitVec.ofNat 16 (8 + payloadData.length)
  let data ← filled length.toInt
    (putShort udp.sourcePort ++ putShort udp.destinationPort ++ putShort length ++ putShort checksum ++
      payloadData)
  pure (withChecksum 6 checksum
    (pseudoHeader sourceAddress destinationAddress 17 length.toNat + wordSum data) data)

end UDP

/-! ## IPv4 -/

/-- What an `IPv4` carries, by `protocolClassMap`. -/
inductive IPv4Payload
  | icmp (packet : ICMP)
  | tcp (packet : TCP)
  | udp (packet : UDP)
  | data (bytes : Bytes)
  deriving DecidableEq

namespace IPv4Payload

def deserialize (protocol : UInt8) (data : Bytes) : Except JavaException IPv4Payload :=
  if protocol = 1 then (ICMP.read data).map fun read => .icmp read.1
  else if protocol = 6 then (TCP.read data).map fun read => .tcp read.1
  else if protocol = 17 then (UDP.deserialize data).map .udp
  else .ok (.data data)

def serialize (sourceAddress destinationAddress : BitVec 32) : IPv4Payload → Except JavaException Bytes
  | .icmp packet => packet.serialize
  | .tcp packet => packet.serialize sourceAddress destinationAddress
  | .udp packet => packet.serialize sourceAddress destinationAddress
  | .data bytes => .ok bytes

end IPv4Payload

/-- The fields of an `IPv4`, but for its payload; options that are null are none. -/
structure IPv4Header where
  version : UInt8
  headerLength : UInt8
  diffServ : UInt8
  totalLength : BitVec 16
  identification : BitVec 16
  flags : BitVec 16
  fragmentOffset : BitVec 16
  ttl : UInt8
  protocol : UInt8
  checksum : BitVec 16
  sourceAddress : BitVec 32
  destinationAddress : BitVec 32
  options : Bytes
  deriving DecidableEq

structure IPv4 extends IPv4Header where
  payload : IPv4Payload
  deriving DecidableEq

namespace IPv4Header

def readOptions (headerLength : UInt8) : Reader JavaException Bytes :=
  if 5 < headerLength then getBytes ((headerLength.toNat - 5) * 4) else pure []

def read : Reader JavaException IPv4Header := do
  let version ← getByte
  let headerLength := version &&& 0xf
  let version := (version >>> 4) &&& 0xf
  let diffServ ← getByte
  let totalLength ← getShort
  let identification ← getShort
  let sscratch ← getShort
  let flags := (sscratch >>> 13) &&& 0x7
  let fragmentOffset := sscratch &&& 0x1fff
  let ttl ← getByte
  let protocol ← getByte
  let checksum ← getShort
  let sourceAddress ← getInt
  let destinationAddress ← getInt
  let options ← readOptions headerLength
  pure { version, headerLength, diffServ, totalLength, identification, flags, fragmentOffset, ttl,
         protocol, checksum, sourceAddress, destinationAddress, options }

/-- The header as it is written. -/
def bytes (header : IPv4Header) : Bytes :=
  [((header.version &&& 0xf) <<< 4) ||| (header.headerLength &&& 0xf), header.diffServ] ++
    putShort header.totalLength ++ putShort header.identification ++
    putShort (((header.flags &&& 0x7) <<< 13) ||| (header.fragmentOffset &&& 0x1fff)) ++
    [header.ttl, header.protocol] ++ putShort header.checksum ++ putInt header.sourceAddress ++
    putInt header.destinationAddress ++ header.options

end IPv4Header

namespace IPv4

def deserialize (data : Bytes) : Except JavaException IPv4 := do
  let (header, bb) ← IPv4Header.read data
  let payload ← IPv4Payload.deserialize header.protocol bb
  pure { header with payload }

def serialize (ip : IPv4) : Except JavaException Bytes := do
  let payloadData ← ip.payload.serialize ip.sourceAddress ip.destinationAddress
  let headerLength := 5 + ip.options.length / 4
  let header := { ip.toIPv4Header with
    headerLength := UInt8.ofNat headerLength
    totalLength := BitVec.ofNat 16 (headerLength * 4 + payloadData.length) }
  let data ← filled header.totalLength.toInt (header.bytes ++ payloadData)
  pure (withChecksum 10 header.checksum (wordSum (data.take (headerLength * 4))) data)

end IPv4

/-! ## Ethernet -/

/-- `setFlag` has seen the type of IPv4, so that there is no VLAN tag and the payload is an `IPv4`. -/
structure Ethernet where
  destinationMACAddress : Bytes
  sourceMACAddress : Bytes
  etherType : BitVec 16
  payload : IPv4
  deriving DecidableEq

namespace Ethernet

def typeIPv4 : BitVec 16 := 0x0800

/-- Nothing is read of no bytes, and more than there are cannot be wrapped. -/
def deserialize (data : Bytes) (length : Int) : Except JavaException (Option Ethernet) :=
  if length ≤ 0 then .ok none
  else if data.length < length then .error .indexOutOfBounds
  else do
    let (destinationMACAddress, bb) ← getBytes 6 data
    let (sourceMACAddress, bb) ← getBytes 6 bb
    let (etherType, bb) ← getShort bb
    let payload ← IPv4.deserialize bb
    pure (some { destinationMACAddress, sourceMACAddress, etherType, payload })

def serialize (eth : Ethernet) : Except JavaException Bytes := do
  let payloadData ← eth.payload.serialize
  pure (eth.destinationMACAddress ++ eth.sourceMACAddress ++ putShort eth.etherType ++ payloadData)

end Ethernet

/-! ## The flag -/

namespace Floodlight

def ethHdrLen : Nat := 14

/-- `Arrays.copyOf` to a shorter length. -/
def copyOf (packet : Packet) (length : Int) : Except JavaException Packet :=
  if length < 0 then .error .negativeArraySize else .ok (packet.take length.toNat)

/-- The part of a packet that an IPv4 length leaves. -/
def actualPacket (packet : Packet) (actualLen : Int) : Except JavaException Packet :=
  if actualLen < packet.length then copyOf packet actualLen else .ok packet

/-- `PacketUtil.setFlag`; a frame that is not IPv4 yields null. -/
def setFlag (packet : Packet) (flag : UInt8) : Except JavaException (Option Packet) := do
  let (_, bb) ← getBytes 6 packet
  let (_, bb) ← getBytes 6 bb
  let (etherType, bb) ← getShort bb
  if etherType = Ethernet.typeIPv4 then
    let (_, bb) ← getByte bb
    let (_, bb) ← getByte bb
    let (ipLen, _) ← getShort bb
    let actualLen : Int := ethHdrLen + ipLen.toInt
    let actual ← actualPacket packet actualLen
    match ← Ethernet.deserialize actual actualLen with
    | none => .error .nullPointer
    | some ethPacket =>
        let ipPacket := { ethPacket.payload with diffServ := flag, checksum := 0 }
        (Ethernet.serialize { ethPacket with payload := ipPacket }).map some
  else pure none

end Floodlight

abbrev floodlight : PacketUtil := ⟨Floodlight.setFlag⟩

end OFM.Controller
