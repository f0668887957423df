import OFM.Controller.Message
import OFM.Lib.Words
import OFM.Lib.FlowKey

/-!
# Keys inside a network function

`PerflowKey` of `SDMBN.h`, and `json_parse_perflow_key`, which fills it from the key of a message. The
machine is little-endian.
-/

namespace OFM.Shared
open OFM.Lib
open OFM.Controller (JavaString)

/-! ## Addresses -/

/-- The value of a digit of `strtoul`. -/
def digit (base : Nat) (c : UInt16) : Option Nat :=
  let n := c.toNat
  let d := if 48 ≤ n ∧ n ≤ 57 then some (n - 48)
    else if 97 ≤ n ∧ n ≤ 102 then some (n - 87)
    else if 65 ≤ n ∧ n ≤ 70 then some (n - 55)
    else none
  d.filter (· < base)

def strtoulFrom (base : Nat) : Nat → JavaString → Nat × JavaString
  | n, [] => (n, [])
  | n, c :: rest =>
      match digit base c with
      | some d => strtoulFrom base (n * base + d) rest
      | none => (n, c :: rest)

/-- `strtoul` with base 0: the number a text starts with, and the rest of the text. -/
def strtoul : JavaString → Nat × JavaString
  | 48 :: x :: c :: rest =>
      if (x = 120 ∨ x = 88) ∧ (digit 16 c).isSome then strtoulFrom 16 0 (c :: rest)
      else strtoulFrom 8 0 (48 :: x :: c :: rest)
  | 48 :: rest => strtoulFrom 8 0 (48 :: rest)
  | text => strtoulFrom 10 0 text

def isSpace (c : UInt16) : Bool := c = 32 ∨ 9 ≤ c ∧ c ≤ 13

/-- The rounds of `inet_aton`, of which there are four at most. -/
def inetAtonFrom : Nat → List Nat → JavaString → Option (BitVec 32)
  | 0, _, _ => none
  | rounds + 1, bytes, text =>
      if (text.head?.bind (digit 10)).isNone then none
      else
        let (val, rest) := strtoul text
        if 0xffffffff < val then none
        else
          match rest with
          | 46 :: rest =>
              if 2 < bytes.length ∨ 0xff < val then none
              else inetAtonFrom rounds (bytes ++ [val]) rest
          | _ =>
              if (rest.head?.any fun c => !isSpace c) ∨ 2 ^ (32 - 8 * bytes.length) ≤ val then none
              else
                let byte := fun i => BitVec.ofNat 32 (bytes.getD i 0) <<< (24 - 8 * i)
                some (byte 0 ||| byte 1 ||| byte 2 ||| BitVec.ofNat 32 val)

/-- `inet_aton`: the address that a text denotes, before it is put into network order. -/
def inetAton (text : JavaString) : Option (BitVec 32) := inetAtonFrom 4 [] text

/-- `10.0.0.1` -/
def sampleText : JavaString := [49, 48, 46, 48, 46, 48, 46, 49]

example : inetAton sampleText = some 0x0a000001 := by decide

/-! ## The structure -/

structure PerflowKey where
  nwSrc : BitVec 32
  nwSrcMask : BitVec 32
  nwDst : BitVec 32
  nwDstMask : BitVec 32
  tpSrc : BitVec 16
  tpDst : BitVec 16
  dlType : BitVec 16
  nwProto : BitVec 8
  wildcards : BitVec 8
  tpFlip : BitVec 8
  deriving DecidableEq

def wildcardDlType : BitVec 8 := 0x01
def wildcardNwSrc : BitVec 8 := 0x02
def wildcardNwDst : BitVec 8 := 0x04
def wildcardNwProto : BitVec 8 := 0x08
def wildcardTpSrc : BitVec 8 := 0x10
def wildcardTpDst : BitVec 8 := 0x20
def wildcardNwSrcMask : BitVec 8 := 0x40
def wildcardNwDstMask : BitVec 8 := 0x80
def wildcardNone : BitVec 8 := 0x00
def wildcardAll : BitVec 8 := 0xff

namespace PerflowKey

/-- `bzero` -/
def zero : PerflowKey := ⟨0, 0, 0, 0, 0, 0, 0, 0, 0, 0⟩

/-- A member of the message that sets a field, or a wildcard when it is missing. -/
def read {α : Type} (key : PerflowKey) (member : Option α) (set : PerflowKey → α → PerflowKey)
    (wildcard : BitVec 8) : PerflowKey :=
  match member with
  | some x => set key x
  | none => { key with wildcards := key.wildcards ||| wildcard }

end PerflowKey

/-- `json_object_get_int` -/
def jsonObjectGetInt (n : Int) : BitVec 32 :=
  BitVec.ofInt 32 (max (-2147483648) (min n 2147483647))

/-- `inet_aton` into an address that has been cleared; the field keeps the network order. -/
def readAddress (text : JavaString) : BitVec 32 := swap32 ((inetAton text).getD 0)

/-- `json_parse_perflow_key` -/
def jsonParsePerflowKey (field : Controller.PerflowKey) : PerflowKey :=
  let key := PerflowKey.zero
  let key := key.read field.dlType
    (fun key n => { key with dlType := (jsonObjectGetInt n).setWidth 16 }) wildcardDlType
  let key := key.read field.nwSrc
    (fun key text => { key with nwSrc := readAddress text }) wildcardNwSrc
  let key := key.read field.nwSrcMask
    (fun key n => { key with nwSrcMask := jsonObjectGetInt n }) wildcardNwSrcMask
  let key := key.read field.nwDst
    (fun key text => { key with nwDst := readAddress text }) wildcardNwDst
  let key := key.read field.nwDstMask
    (fun key n => { key with nwDstMask := jsonObjectGetInt n }) wildcardNwDstMask
  let key := key.read field.nwProto
    (fun key n => { key with nwProto := (jsonObjectGetInt n).setWidth 8 }) wildcardNwProto
  let key := key.read field.tpSrc
    (fun key n => { key with tpSrc := swap16 ((jsonObjectGetInt n).setWidth 16) }) wildcardTpSrc
  let key := key.read field.tpDst
    (fun key n => { key with tpDst := swap16 ((jsonObjectGetInt n).setWidth 16) }) wildcardTpDst
  { key with tpFlip := (jsonObjectGetInt field.tpFlip).setWidth 8 }

/-! ## What the key of a message says -/

/-- The key as it is meant, its numbers cut to the width of their fields. -/
def flowKey (field : Controller.PerflowKey) : FlowKey where
  dlType := field.dlType.map fun n => (jsonObjectGetInt n).setWidth 16
  nwProto := field.nwProto.map fun n => (jsonObjectGetInt n).setWidth 8
  nwSrc := field.nwSrc.map fun text =>
    ⟨(inetAton text).getD 0, (field.nwSrcMask.map fun n => (jsonObjectGetInt n).toNat).getD 32⟩
  nwDst := field.nwDst.map fun text =>
    ⟨(inetAton text).getD 0, (field.nwDstMask.map fun n => (jsonObjectGetInt n).toNat).getD 32⟩
  tpSrc := field.tpSrc.map fun n => (jsonObjectGetInt n).setWidth 16
  tpDst := field.tpDst.map fun n => (jsonObjectGetInt n).setWidth 16
  flip := (jsonObjectGetInt field.tpFlip).setWidth 8 ≠ (0 : BitVec 8)

/-! ## What is parsed -/

section Parse

variable (field : Controller.PerflowKey)

/-- The wildcards of the members that are missing. -/
def missing : BitVec 8 :=
  0 ||| (if field.dlType.isNone then wildcardDlType else 0) |||
  (if field.nwSrc.isNone then wildcardNwSrc else 0) |||
  (if field.nwSrcMask.isNone then wildcardNwSrcMask else 0) |||
  (if field.nwDst.isNone then wildcardNwDst else 0) |||
  (if field.nwDstMask.isNone then wildcardNwDstMask else 0) |||
  (if field.nwProto.isNone then wildcardNwProto else 0) |||
  (if field.tpSrc.isNone then wildcardTpSrc else 0) |||
  (if field.tpDst.isNone then wildcardTpDst else 0)

/-- What a member does to the key: the field keeps what it had when the member is missing. -/
theorem PerflowKey.read_eq {α β : Type} (set : PerflowKey → β → PerflowKey) (get : PerflowKey → β)
    (f : α → β) {key : PerflowKey} (member : Option α) (w : BitVec 8) (h : set key (get key) = key) :
    key.read member (fun key x => set key (f x)) w =
      { set key ((member.map f).getD (get key)) with
        wildcards := (set key ((member.map f).getD (get key))).wildcards |||
          if member.isNone then w else 0 } := by
  cases member with
  | none => simp [read, h]
  | some x => simp [read]

theorem jsonParsePerflowKey_eq : jsonParsePerflowKey field =
    { nwSrc := (field.nwSrc.map readAddress).getD 0
      nwSrcMask := (field.nwSrcMask.map jsonObjectGetInt).getD 0
      nwDst := (field.nwDst.map readAddress).getD 0
      nwDstMask := (field.nwDstMask.map jsonObjectGetInt).getD 0
      tpSrc := (field.tpSrc.map fun n => swap16 ((jsonObjectGetInt n).setWidth 16)).getD 0
      tpDst := (field.tpDst.map fun n => swap16 ((jsonObjectGetInt n).setWidth 16)).getD 0
      dlType := (field.dlType.map fun n => (jsonObjectGetInt n).setWidth 16).getD 0
      nwProto := (field.nwProto.map fun n => (jsonObjectGetInt n).setWidth 8).getD 0
      wildcards := missing field
      tpFlip := (jsonObjectGetInt field.tpFlip).setWidth 8 } := by
  rw [jsonParsePerflowKey,
    PerflowKey.read_eq (fun key v => { key with dlType := v }) PerflowKey.dlType
      (fun n => (jsonObjectGetInt n).setWidth 16) _ _ rfl,
    PerflowKey.read_eq (fun key v => { key with nwSrc := v }) PerflowKey.nwSrc readAddress _ _ rfl,
    PerflowKey.read_eq (fun key v => { key with nwSrcMask := v }) PerflowKey.nwSrcMask
      jsonObjectGetInt _ _ rfl,
    PerflowKey.read_eq (fun key v => { key with nwDst := v }) PerflowKey.nwDst readAddress _ _ rfl,
    PerflowKey.read_eq (fun key v => { key with nwDstMask := v }) PerflowKey.nwDstMask
      jsonObjectGetInt _ _ rfl,
    PerflowKey.read_eq (fun key v => { key with nwProto := v }) PerflowKey.nwProto
      (fun n => (jsonObjectGetInt n).setWidth 8) _ _ rfl,
    PerflowKey.read_eq (fun key v => { key with tpSrc := v }) PerflowKey.tpSrc
      (fun n => swap16 ((jsonObjectGetInt n).setWidth 16)) _ _ rfl,
    PerflowKey.read_eq (fun key v => { key with tpDst := v }) PerflowKey.tpDst
      (fun n => swap16 ((jsonObjectGetInt n).setWidth 16)) _ _ rfl]
  rfl

/-- Which fields are compared. -/
theorem missing_and :
    (missing field &&& wildcardDlType = 0 ↔ field.dlType.isSome = true) ∧
    (missing field &&& wildcardNwSrc = 0 ↔ field.nwSrc.isSome = true) ∧
    (missing field &&& wildcardNwSrcMask = 0 ↔ field.nwSrcMask.isSome = true) ∧
    (missing field &&& wildcardNwDst = 0 ↔ field.nwDst.isSome = true) ∧
    (missing field &&& wildcardNwDstMask = 0 ↔ field.nwDstMask.isSome = true) ∧
    (missing field &&& wildcardNwProto = 0 ↔ field.nwProto.isSome = true) ∧
    (missing field &&& wildcardTpSrc = 0 ↔ field.tpSrc.isSome = true) ∧
    (missing field &&& wildcardTpDst = 0 ↔ field.tpDst.isSome = true) := by
  simp only [missing, ← Option.not_isSome]
  generalize field.dlType.isSome = dlType, field.nwSrc.isSome = nwSrc,
    field.nwSrcMask.isSome = nwSrcMask, field.nwDst.isSome = nwDst,
    field.nwDstMask.isSome = nwDstMask, field.nwProto.isSome = nwProto,
    field.tpSrc.isSome = tpSrc, field.tpDst.isSome = tpDst
  revert dlType nwSrc nwSrcMask nwDst nwDstMask nwProto tpSrc tpDst
  decide

end Parse

end OFM.Shared
