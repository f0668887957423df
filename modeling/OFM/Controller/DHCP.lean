import Mathlib.Data.List.DropRight
import OFM.Lib.OnesComplement
import OFM.Controller.Text
import OFM.Controller.ReprocessEvent

/-!
# DHCP messages

`DHCP.java` and `DHCPOption.java`: what is read of a message and what is written of it again, with the
relative reads and writes of a `ByteBuffer`.
-/

namespace OFM.Controller
open OFM.Lib

/-! ## Relative reads and writes -/

namespace ByteBuffer

def getBytes (count : Nat) : Reader JavaException Bytes := Reader.take .bufferUnderflow count

def getByte : Reader JavaException UInt8
  | [] => .error .bufferUnderflow
  | byte :: rest => .ok (byte, rest)

def getShort : Reader JavaException (BitVec 16) := Reader.word .bufferUnderflow 2

def getInt : Reader JavaException (BitVec 32) := Reader.word .bufferUnderflow 4

def putShort (value : BitVec 16) : Bytes := wordBytes 2 value

def putInt (value : BitVec 32) : Bytes := wordBytes 4 value

/-- An array that is new, with what is put into it from its start on. -/
def filled (length : Int) (bytes : Bytes) : Except JavaException Bytes :=
  if length < 0 then .error .negativeArraySize
  else if length < bytes.length then .error .bufferOverflow
  else .ok (bytes ++ List.replicate (length.toNat - bytes.length) 0)

end ByteBuffer

open ByteBuffer

/-! ## Messages -/

/-- The data of an option that has none are null. -/
structure DHCPOption where
  code : UInt8
  length : UInt8
  data : Bytes
  deriving DecidableEq

structure DHCP where
  opCode : UInt8
  hardwareType : UInt8
  hardwareAddressLength : UInt8
  hops : UInt8
  transactionId : BitVec 32
  seconds : BitVec 16
  flags : BitVec 16
  clientIPAddress : BitVec 32
  yourIPAddress : BitVec 32
  serverIPAddress : BitVec 32
  gatewayIPAddress : BitVec 32
  clientHardwareAddress : Bytes
  serverName : JavaString
  bootFileName : JavaString
  options : List DHCPOption
  deriving DecidableEq

/-- `String.trim`. -/
def trim (text : JavaString) : JavaString := (text.dropWhile (· ≤ 0x20)).rdropWhile (· ≤ 0x20)

namespace DHCP

def minHeaderLength : Nat := 240

def optionEnd : DHCPOption := ⟨255, 0, []⟩

def magicCookie : Bytes := [0x63, 0x82, 0x53, 0x63]

/-! ## Reading -/

def readString (maxLength : Nat) : Reader JavaException JavaString := do
  let bytes ← getBytes maxLength
  pure (trim (usAscii.newString bytes))

/-- The options up to their end; one that is cut short is taken for the end. -/
def readOptions : Bytes → List DHCPOption
  | [] => []
  | code :: rest =>
      if code = 0 then readOptions rest
      else if code = 255 then [optionEnd]
      else
        match rest with
        | [] => [optionEnd]
        | l :: rest =>
            if l.toNat ≤ rest.length then
              ⟨code, l, rest.take l.toNat⟩ :: readOptions (rest.drop l.toNat)
            else [optionEnd]
termination_by bytes => bytes.length
decreasing_by
  all_goals simp only [List.length_cons, List.length_drop]
  all_goals omega

def readFields : Reader JavaException DHCP := do
  let opCode ← getByte
  let hardwareType ← getByte
  let hardwareAddressLength ← getByte
  let hops ← getByte
  let transactionId ← getInt
  let seconds ← getShort
  let flags ← getShort
  let clientIPAddress ← getInt
  let yourIPAddress ← getInt
  let serverIPAddress ← getInt
  let gatewayIPAddress ← getInt
  let clientHardwareAddress ← getBytes hardwareAddressLength.toNat
  let _ ← getBytes (16 - hardwareAddressLength.toNat)
  let serverName ← readString 64
  let bootFileName ← readString 128
  let _ ← getBytes 4
  let rest ← Reader.remaining
  pure { opCode, hardwareType, hardwareAddressLength, hops, transactionId, seconds, flags,
         clientIPAddress, yourIPAddress, serverIPAddress, gatewayIPAddress, clientHardwareAddress,
         serverName, bootFileName, options := readOptions rest }

/-- A message that is too short is left as it was made, its fields null. -/
def deserialize (data : Bytes) : Except JavaException (Option DHCP) :=
  if data.length < minHeaderLength then .ok none
  else (readFields data).map fun read => some read.1

/-! ## Writing -/

def writeString (string : JavaString) (maxLength : Nat) : Bytes :=
  let bytes := (usAscii.getBytes string).take maxLength
  bytes ++ List.replicate (maxLength - bytes.length) 0

/-- The bytes that are counted for an option. A code is compared as a signed byte, which is never 255, so
that the end counts as two. -/
def optionLength (option : DHCPOption) : Nat :=
  if option.code = 0 then 1 else 2 + option.length.toNat

def writeOption (option : DHCPOption) : Bytes :=
  if option.code ≠ 0 ∧ option.code ≠ 255 then option.code :: option.length :: option.data
  else [option.code]

/-- The size of the array a message is written to. -/
def size (dhcp : DHCP) : Nat :=
  let optionsLength := (dhcp.options.map optionLength).sum
  let optionsPadLength := 60 - optionsLength
  minHeaderLength + optionsLength + optionsPadLength

/-- What is put into it. -/
def written (dhcp : DHCP) : Bytes :=
  [dhcp.opCode, dhcp.hardwareType, dhcp.hardwareAddressLength, dhcp.hops] ++
    putInt dhcp.transactionId ++ putShort dhcp.seconds ++ putShort dhcp.flags ++
    putInt dhcp.clientIPAddress ++ putInt dhcp.yourIPAddress ++ putInt dhcp.serverIPAddress ++
    putInt dhcp.gatewayIPAddress ++ dhcp.clientHardwareAddress ++
    List.replicate (16 - dhcp.clientHardwareAddress.length) 0 ++
    writeString dhcp.serverName 64 ++ writeString dhcp.bootFileName 128 ++ magicCookie ++
    dhcp.options.flatMap writeOption

/-- The checksums of what it is in are reset before. -/
def serialize : Option DHCP → Except JavaException Bytes
  | none => .error .nullPointer
  | some dhcp => filled dhcp.size dhcp.written

end DHCP

end OFM.Controller
