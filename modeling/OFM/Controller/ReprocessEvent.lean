import OFM.Controller.Message
import OFM.Lib.Computations

/-!
# Reprocess events

A packet that a network function reported, on its way to another instance: `ReprocessEvent.java`,
with what it uses of `PacketUtil.java`, and the things an operation can be seen to do. How a network function
writes a packet into a message (`SDMBNCore.c`), and what `setFlag` makes of the plain frames: no VLAN tag, no IPv4
options, nothing behind the IPv4 length, and a protocol without a parser of its own.
-/

namespace OFM.Controller
open OFM.Lib

/-- The exceptions that can leave a handler or a task. -/
inductive JavaException
  | nullPointer | arrayIndexOutOfBounds | indexOutOfBounds | bufferUnderflow | bufferOverflow
  | illegalArgument | numberFormat | negativeArraySize
  deriving DecidableEq, Repr

/-- `PacketUtil.setFlag` deserialises a frame and serialises it again with the flag as its ToS byte;
it yields null for a frame that is not IPv4 and throws on one that is cut short. Nothing about the
operations depends on more than that, so that they are stated for any such function. -/
class PacketUtil where
  setFlag : Packet → UInt8 → Except JavaException (Option Packet)

namespace PacketUtil

def flagNone : UInt8 := 0
def flagDoNotBuffer : UInt8 := (1 : UInt8) <<< 2
def flagDoNotDrop : UInt8 := (1 : UInt8) <<< 3

end PacketUtil

structure ReprocessEvent where
  dst : Middlebox
  eventId : Int
  packet : JavaString
  sendDirect : Bool
  deriving DecidableEq, Repr

/-- What an operation does that can be seen from outside it. -/
inductive Effect
  | send (mb : Middlebox) (cmd : Command)
  /-- The rules for the matches of a key. -/
  | installRule (sw : Nat) (inPort : Int) (outPorts : List Int) (key : PerflowKey)
  /-- The packet-out of an event, and the line `[CONT_EXIT]` that names the event. -/
  | eventOut (event : ReprocessEvent) (sw : Nat) (packet : Packet)
  /-- The packet-out by which a share gives a packet back to the instance it came from. -/
  | packetOut (src : Middlebox) (sw : Nat) (packet : Packet)
  | operationFinished
  | operationFailed
  /-- An exception that leaves a handler. -/
  | thrown (e : JavaException)
  deriving DecidableEq, Repr

namespace ReprocessEvent

def new (msg : ReprocessMessage) (dst : Middlebox) (sendDirect : Bool) : ReprocessEvent :=
  ⟨dst, -1, msg.packet, sendDirect⟩

/-! ## The text a packet is carried in -/

/-- The six bits a character stands for. -/
def base64DecodeBits (ch : UInt16) : UInt8 :=
  if 65 ≤ ch ∧ ch ≤ 90 then (ch - 65).toUInt8
  else if 97 ≤ ch ∧ ch ≤ 122 then (ch + 26 - 97).toUInt8
  else if 48 ≤ ch ∧ ch ≤ 57 then (ch + 52 - 48).toUInt8
  else if ch = 43 then 62
  else if ch = 47 then 63
  else 0

/-- Two characters a byte, the lower half first; a last odd character is left over. -/
def base64Decode : JavaString → Packet
  | lo :: hi :: rest => (base64DecodeBits hi <<< 4 ||| base64DecodeBits lo) :: base64Decode rest
  | _ => []

/-- The character for six bits; a byte is never negative here. -/
def base64EncodeBits (data : UInt8) : UInt16 :=
  if data < 26 then data.toUInt16 + 65
  else if data < 52 then data.toUInt16 - 26 + 97
  else if data < 62 then data.toUInt16 - 52 + 48
  else if data = 62 then 43
  else if data = 63 then 47
  else 0

/-- The loop over the bytes. -/
def encodeBytes : Packet → JavaString
  | [] => []
  | byte :: rest =>
      base64EncodeBits (byte &&& 0x0f) :: base64EncodeBits ((byte &&& 0xf0) >>> 4) :: encodeBytes rest

/-- The text ends with a NUL character. The size of its array is an int, which wraps around. -/
def base64Encode (decodedPkt : Option Packet) : Except JavaException (Option JavaString) :=
  match decodedPkt with
  | none => .ok none
  | some decodedPkt =>
      if decodedPkt.length < 1 then .ok none
      else if 2 ^ 31 ≤ decodedPkt.length * 2 + 1 then .error .negativeArraySize
      else .ok (some (encodeBytes decodedPkt ++ [0]))

theorem base64DecodeBits_encodeBits (byte : UInt8) :
    base64DecodeBits (base64EncodeBits ((byte &&& 0xf0) >>> 4)) <<< 4 |||
      base64DecodeBits (base64EncodeBits (byte &&& 0x0f)) = byte := by
  have h : ∀ n < 256,
      base64DecodeBits (base64EncodeBits ((UInt8.ofNat n &&& 0xf0) >>> 4)) <<< 4 |||
        base64DecodeBits (base64EncodeBits (UInt8.ofNat n &&& 0x0f)) = UInt8.ofNat n := by
    decide +kernel
  simpa using h byte.toNat byte.toNat_lt

/-- The bytes are read again. What is behind the last byte is no byte. -/
theorem base64Decode_encodeBytes (bytes : Packet) {rest : JavaString} (hrest : rest.length ≤ 1) :
    base64Decode (encodeBytes bytes ++ rest) = bytes := by
  induction bytes with
  | nil =>
      rcases rest with _ | ⟨c, _ | ⟨c', rest⟩⟩
      · rfl
      · rfl
      · simp at hrest
  | cons byte bytes ih =>
      rw [encodeBytes, List.cons_append, List.cons_append, base64Decode, base64DecodeBits_encodeBits, ih]

/-! ## Sending -/

variable [PacketUtil]

/-- A null packet and an unknown switch are dereferenced. -/
def sendViaSwitch (event : ReprocessEvent) (decodedPacket : Option Packet) :
    Except JavaException (List Effect) :=
  match decodedPacket, event.dst.sw with
  | some packet, some sw => .ok [.eventOut event sw packet]
  | _, _ => .error .nullPointer

/-- An event channel writes no message at all: its exception is caught and logged. -/
def sendDirectly (_event : ReprocessEvent) (_decodedPacket : Option Packet) :
    Except JavaException (List Effect) :=
  .ok []

def call (event : ReprocessEvent) : Except JavaException (List Effect) :=
  match PacketUtil.setFlag (base64Decode event.packet) PacketUtil.flagDoNotBuffer with
  | .error e => .error e
  | .ok decodedPacket =>
      if event.sendDirect then event.sendDirectly decodedPacket
      else event.sendViaSwitch decodedPacket

/-- What a call leaves behind when its exception is swallowed by a future nobody asks. -/
def sent (event : ReprocessEvent) : List Effect :=
  match event.call with
  | .ok out => out
  | .error _ => []

end ReprocessEvent

/-! ## Plain frames -/

/-- The sum of the 16-bit words. -/
def sumWords : List UInt8 → UInt32
  | hi :: lo :: rest => (hi.toUInt32 <<< 8) + lo.toUInt32 + sumWords rest
  | _ => 0

/-- The checksum `IPv4.serialize` computes over a header whose own checksum is 0. -/
def headerChecksum (header : List UInt8) : UInt16 :=
  let accumulation := sumWords header
  ~~~ ((accumulation >>> 16) + (accumulation &&& 0xffff)).toUInt16

/-- The ToS byte is set and the checksum computed anew. -/
def plainSetFlag (packet : Packet) (flag : UInt8) : Except JavaException (Option Packet) :=
  if packet.length < 14 then .error .bufferUnderflow
  else if (packet.drop 12).take 2 ≠ [0x08, 0x00] then .ok none
  else if packet.length < 34 then .error .bufferUnderflow
  else
    let header := ((((packet.drop 14).take 20).set 1 flag).set 10 0).set 11 0
    let checksum := headerChecksum header
    .ok (some (packet.take 14 ++
      (header.set 10 (checksum >>> 8).toUInt8).set 11 checksum.toUInt8 ++ packet.drop 34))

abbrev plainFrames : PacketUtil := ⟨plainSetFlag⟩

/-- A frame with no more than a header, from `10.0.0.1` to the host with the given last byte. -/
def plainFrame (host : UInt8) : Packet :=
  let header : Packet := [0x45, 0, 0, 20, 0, 0, 0, 0, 64, 253, 0, 0, 10, 0, 0, 1, 10, 0, 0, host]
  let checksum := headerChecksum header
  let ethernet : Packet := [0, 0, 0, 0, 0, 2, 0, 0, 0, 0, 0, 1, 0x08, 0x00]
  ethernet ++ (header.set 10 (checksum >>> 8).toUInt8).set 11 checksum.toUInt8

example : plainSetFlag (plainFrame 2) PacketUtil.flagNone = .ok (some (plainFrame 2)) := by decide

end OFM.Controller
