import OFM.Controller.OFMatch

/-!
# Matches of packets

`OFMatch.loadFromPacket`, with the reads of a `ByteBuffer` that it makes, and `PerflowKey.fromOFMatch`.
-/

namespace OFM.Controller

/-! ## Reading a packet -/

namespace ByteBuffer

/-- The bytes from a position on as one number, the first byte highest. -/
def word (bytes : Nat) (packet : Packet) (position : Nat) : BitVec (8 * bytes) :=
  BitVec.ofNat _ (((packet.drop position).take bytes).foldl (fun n byte => n * 256 + byte.toNat) 0)

/-- A relative read; what is missing underflows. -/
def get (bytes : Nat) (packet : Packet) (position : Nat) : Except JavaException (BitVec (8 * bytes)) :=
  if position + bytes ≤ packet.length then .ok (word bytes packet position) else .error .bufferUnderflow

/-- An absolute read. -/
def getAt (bytes : Nat) (packet : Packet) (index : Nat) : Except JavaException (BitVec (8 * bytes)) :=
  if index + bytes ≤ packet.length then .ok (word bytes packet index) else .error .indexOutOfBounds

/-- `position` with an argument. -/
def seek (packet : Packet) (position : Nat) : Except JavaException Nat :=
  if position ≤ packet.length then .ok position else .error .illegalArgument

end ByteBuffer

namespace OFMatch
open ByteBuffer

def ofppAll : BitVec 16 := 0xfffc

/-- The match after its link layer, and the position of what follows. -/
def loadDataLayer (packetData : Packet) (inputPort : BitVec 16) : Except JavaException (OFMatch × Nat) := do
  let wildcards := if inputPort = ofppAll then ofpfwInPort else 0
  let dataLayerDestination ← get 6 packetData 0
  let dataLayerSource ← get 6 packetData 6
  let dataLayerType ← get 2 packetData 12
  let fields := { new with wildcards, inputPort, dataLayerDestination, dataLayerSource, dataLayerType }
  if dataLayerType ≠ 0x8100 then
    pure ({ fields with dataLayerVirtualLan := 0xffff, dataLayerVirtualLanPriorityCodePoint := 0 }, 14)
  else
    let scratch ← get 2 packetData 14
    let dataLayerType ← get 2 packetData 16
    pure ({ fields with
      dataLayerType
      dataLayerVirtualLan := 0xfff &&& scratch
      dataLayerVirtualLanPriorityCodePoint := ((0xe000 &&& scratch) >>> 13).setWidth 8 }, 18)

/-- The same after its network layer. -/
def loadNetwork (packetData : Packet) (fields : OFMatch) (position : Nat) :
    Except JavaException (OFMatch × Nat) := do
  if fields.dataLayerType = 0x0800 then
    let scratch ← get 1 packetData position
    let transportOffset := position + (0xf &&& scratch).toNat * 4
    let scratch ← get 1 packetData (position + 1)
    let _ ← seek packetData (position + 9)
    let networkProtocol ← get 1 packetData (position + 9)
    let _ ← seek packetData (position + 12)
    let networkSource ← get 4 packetData (position + 12)
    let networkDestination ← get 4 packetData (position + 16)
    let transportOffset ← seek packetData transportOffset
    pure ({ fields with
      networkTypeOfService := (0xfc &&& scratch) >>> 2
      networkProtocol, networkSource, networkDestination }, transportOffset)
  else if fields.dataLayerType = 0x0806 then
    let scratch ← getAt 2 packetData (position + 6)
    let fields := { fields with networkProtocol := scratch.setWidth 8 }
    let scratch ← getAt 2 packetData (position + 2)
    let length ← if scratch = 0x800 then getAt 1 packetData (position + 5) else pure 0
    if length = 4 then
      let networkSource ← getAt 4 packetData (position + 14)
      let networkDestination ← getAt 4 packetData (position + 24)
      pure ({ fields with networkSource, networkDestination }, position)
    else pure ({ fields with networkSource := 0, networkDestination := 0 }, position)
  else
    pure ({ fields with
      networkTypeOfService := 0, networkProtocol := 0, networkSource := 0, networkDestination := 0 },
      position)

/-- The same after its transport layer. -/
def loadTransport (packetData : Packet) (fields : OFMatch) (position : Nat) :
    Except JavaException OFMatch := do
  if fields.networkProtocol = 0x01 then
    let type ← get 1 packetData position
    let code ← get 1 packetData (position + 1)
    pure { fields with transportSource := type.setWidth 16, transportDestination := code.setWidth 16 }
  else if fields.networkProtocol = 0x06 ∨ fields.networkProtocol = 0x11 then
    let transportSource ← get 2 packetData position
    let transportDestination ← get 2 packetData (position + 2)
    pure { fields with transportSource, transportDestination }
  else pure { fields with transportDestination := 0, transportSource := 0 }

def loadFromPacket (packetData : Packet) (inputPort : BitVec 16) : Except JavaException OFMatch := do
  let (fields, position) ← loadDataLayer packetData inputPort
  let (fields, position) ← loadNetwork packetData fields position
  loadTransport packetData fields position

/-- How many of the first bits of an address are compared. -/
def maskLen (m : OFMatch) (shift bits : Nat) : Nat := 32 - m.ignoredBits shift bits

end OFMatch

/-! ## From matches to keys -/

/-- A number in decimal. -/
def decimal (n : Nat) : JavaString := (Nat.toDigits 10 n).map fun c => c.toNat.toUInt16

def IPv4.fromIPv4Address (ipAddress : BitVec 32) : JavaString :=
  let part := fun shift => decimal ((ipAddress >>> (shift : Nat)).setWidth 8).toNat
  part 24 ++ [46] ++ part 16 ++ [46] ++ part 8 ++ [46] ++ part 0

/-- Addresses are compared as signed numbers, so that the upper half of them is left out. -/
def PerflowKey.fromOFMatch (m : OFMatch) : PerflowKey where
  dlType := if m.compares OFMatch.ofpfwDlType then some m.dataLayerType.toInt else none
  nwProto := if m.compares OFMatch.ofpfwNwProto then some m.networkProtocol.toInt else none
  nwSrc := if 0 < m.networkSource.toInt then some (IPv4.fromIPv4Address m.networkSource) else none
  nwSrcMask :=
    let length := m.maskLen OFMatch.ofpfwNwSrcShift OFMatch.ofpfwNwSrcBits
    if length < 32 then some length else none
  nwDst := if 0 < m.networkDestination.toInt then some (IPv4.fromIPv4Address m.networkDestination)
    else none
  nwDstMask :=
    let length := m.maskLen OFMatch.ofpfwNwDstShift OFMatch.ofpfwNwDstBits
    if length < 32 then some length else none
  tpSrc := if m.compares OFMatch.ofpfwTpSrc then some m.transportSource.toInt else none
  tpDst := if m.compares OFMatch.ofpfwTpDst then some m.transportDestination.toInt else none
  tpFlip := 0

end OFM.Controller
