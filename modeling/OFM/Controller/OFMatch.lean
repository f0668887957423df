import OFM.Controller.ReprocessEvent
import OFM.Lib.FlowKey

/-!
# Switch-side keys

`OFMatch.java`, and `PerflowKey.toOFMatches`: the matches a key is turned into when a rule is installed.
-/

namespace OFM.Controller
open OFM.Lib

/-! ## Addresses -/

namespace IPv4

/-- `String.split` on a dot, before it drops the empty strings at the end. -/
def splitDots : JavaString → List JavaString
  | [] => [[]]
  | c :: rest =>
      match splitDots rest with
      | [] => [[c]]
      | part :: parts => if c = 46 then [] :: part :: parts else (c :: part) :: parts

/-- `String.split` on a dot. -/
def split (text : JavaString) : List JavaString :=
  ((splitDots text).reverse.dropWhile List.isEmpty).reverse

/-- A digit of `Integer.valueOf`. -/
def digit (c : UInt16) : Option Int := if 48 ≤ c ∧ c ≤ 57 then some (c.toNat - 48) else none

def digits : Int → JavaString → Option Int
  | n, [] => some n
  | n, c :: rest => (digit c).bind fun d => digits (n * 10 + d) rest

/-- `Integer.valueOf`. -/
def valueOf (text : JavaString) : Except JavaException Int :=
  let number := match text with
    | [] => none
    | [c] => digits 0 [c]
    | c :: rest =>
        if c = 45 then (digits 0 rest).map fun n => -n
        else if c = 43 then digits 0 rest
        else digits 0 (c :: rest)
  match number with
  | some n => if -2147483648 ≤ n ∧ n ≤ 2147483647 then .ok n else .error .numberFormat
  | none => .error .numberFormat

/-- `IPv4.toIPv4Address` of a string. -/
def toIPv4Address (ipAddress : JavaString) : Except JavaException (BitVec 32) :=
  match split ipAddress with
  | [a, b, c, d] => do
      let a ← valueOf a
      let b ← valueOf b
      let c ← valueOf c
      let d ← valueOf d
      pure ((BitVec.ofInt 32 a <<< 24) ||| (BitVec.ofInt 32 b <<< 16) ||| (BitVec.ofInt 32 c <<< 8) |||
        BitVec.ofInt 32 d)
  | _ => .error .illegalArgument

/-- `10.0.0.1` -/
def sampleText : JavaString := [49, 48, 46, 48, 46, 48, 46, 49]

example : toIPv4Address sampleText = .ok 0x0a000001 := by decide

end IPv4

/-! ## Matches -/

structure OFMatch where
  wildcards : BitVec 32
  inputPort : BitVec 16
  dataLayerSource : BitVec 48
  dataLayerDestination : BitVec 48
  dataLayerVirtualLan : BitVec 16
  dataLayerVirtualLanPriorityCodePoint : BitVec 8
  dataLayerType : BitVec 16
  networkTypeOfService : BitVec 8
  networkProtocol : BitVec 8
  networkSource : BitVec 32
  networkDestination : BitVec 32
  transportSource : BitVec 16
  transportDestination : BitVec 16
  deriving DecidableEq

/-- The fields of a packet that a switch compares. -/
structure SwitchHeader where
  inPort : BitVec 16
  dlSrc : BitVec 48
  dlDst : BitVec 48
  dlVlan : BitVec 16
  dlVlanPcp : BitVec 8
  dlType : BitVec 16
  nwTos : BitVec 8
  nwProto : BitVec 8
  nwSrc : BitVec 32
  nwDst : BitVec 32
  tpSrc : BitVec 16
  tpDst : BitVec 16

namespace OFMatch

def ofpfwAll : BitVec 32 := (1#32 <<< 22) - 1
def ofpfwInPort : BitVec 32 := 1#32 <<< 0
def ofpfwDlVlan : BitVec 32 := 1#32 <<< 1
def ofpfwDlSrc : BitVec 32 := 1#32 <<< 2
def ofpfwDlDst : BitVec 32 := 1#32 <<< 3
def ofpfwDlType : BitVec 32 := 1#32 <<< 4
def ofpfwNwProto : BitVec 32 := 1#32 <<< 5
def ofpfwTpSrc : BitVec 32 := 1#32 <<< 6
def ofpfwTpDst : BitVec 32 := 1#32 <<< 7
def ofpfwNwSrcShift : Nat := 8
def ofpfwNwSrcBits : Nat := 6
def ofpfwNwSrcMask : BitVec 32 := ((1#32 <<< ofpfwNwSrcBits) - 1) <<< ofpfwNwSrcShift
def ofpfwNwSrcAll : BitVec 32 := 32#32 <<< ofpfwNwSrcShift
def ofpfwNwDstShift : Nat := 14
def ofpfwNwDstBits : Nat := 6
def ofpfwNwDstMask : BitVec 32 := ((1#32 <<< ofpfwNwDstBits) - 1) <<< ofpfwNwDstShift
def ofpfwNwDstAll : BitVec 32 := 32#32 <<< ofpfwNwDstShift
def ofpfwDlVlanPcp : BitVec 32 := 1#32 <<< 20
def ofpfwNwTos : BitVec 32 := 1#32 <<< 21

/-- The constructor: everything is matched. -/
def new : OFMatch where
  wildcards := ofpfwAll
  inputPort := 0
  dataLayerSource := 0
  dataLayerDestination := 0
  dataLayerVirtualLan := -1
  dataLayerVirtualLanPriorityCodePoint := 0
  dataLayerType := 0
  networkTypeOfService := 0
  networkProtocol := 0
  networkSource := 0
  networkDestination := 0
  transportSource := 0
  transportDestination := 0

/-! ### What a switch makes of a match -/

/-- A field is compared unless its bit is set. -/
def compares (m : OFMatch) (bit : BitVec 32) : Prop := m.wildcards &&& bit = 0

instance (m : OFMatch) (bit : BitVec 32) : Decidable (m.compares bit) :=
  inferInstanceAs (Decidable (_ = _))

/-- How many of the last bits of an address are ignored; 32 and more are all of them. -/
def ignoredBits (m : OFMatch) (shift bits : Nat) : Nat := ((m.wildcards >>> shift).setWidth bits).toNat

/-- OpenFlow 1.0. -/
structure Matches (m : OFMatch) (p : SwitchHeader) : Prop where
  inPort : m.compares ofpfwInPort → m.inputPort = p.inPort
  dlVlan : m.compares ofpfwDlVlan → m.dataLayerVirtualLan = p.dlVlan
  dlVlanPcp : m.compares ofpfwDlVlanPcp → m.dataLayerVirtualLanPriorityCodePoint = p.dlVlanPcp
  dlSrc : m.compares ofpfwDlSrc → m.dataLayerSource = p.dlSrc
  dlDst : m.compares ofpfwDlDst → m.dataLayerDestination = p.dlDst
  dlType : m.compares ofpfwDlType → m.dataLayerType = p.dlType
  nwTos : m.compares ofpfwNwTos → m.networkTypeOfService = p.nwTos
  nwProto : m.compares ofpfwNwProto → m.networkProtocol = p.nwProto
  nwSrc : SamePrefix (32 - m.ignoredBits ofpfwNwSrcShift ofpfwNwSrcBits) m.networkSource p.nwSrc
  nwDst : SamePrefix (32 - m.ignoredBits ofpfwNwDstShift ofpfwNwDstBits) m.networkDestination p.nwDst
  tpSrc : m.compares ofpfwTpSrc → m.transportSource = p.tpSrc
  tpDst : m.compares ofpfwTpDst → m.transportDestination = p.tpDst

end OFMatch

/-! ## From keys to matches -/

namespace PerflowKey

/-- The variables of the first half of `toOFMatches`. -/
structure MatchBuilder where
  fields : OFMatch
  notWildcard : BitVec 32
  wildcard : BitVec 32

namespace MatchBuilder

def new : MatchBuilder := ⟨OFMatch.new, 0, OFMatch.ofpfwAll⟩

def dlType (b : MatchBuilder) (key : PerflowKey) : MatchBuilder :=
  match key.dlType with
  | none => b
  | some dlType => { b with
      fields := { b.fields with dataLayerType := BitVec.ofInt 16 dlType }
      notWildcard := b.notWildcard ||| OFMatch.ofpfwDlType }

def nwProto (b : MatchBuilder) (key : PerflowKey) : MatchBuilder :=
  match key.nwProto with
  | none => b
  | some nwProto => { b with
      fields := { b.fields with networkProtocol := BitVec.ofInt 8 nwProto }
      notWildcard := b.notWildcard ||| OFMatch.ofpfwNwProto }

def nwSrc (b : MatchBuilder) (key : PerflowKey) : Except JavaException MatchBuilder :=
  match key.nwSrc with
  | none => .ok b
  | some nwSrc => do
      let address ← IPv4.toIPv4Address nwSrc
      let b := { b with fields := { b.fields with networkSource := address } }
      match key.nwSrcMask with
      | some mask => .ok { b with wildcard := (b.wildcard &&& ~~~OFMatch.ofpfwNwSrcMask) |||
          (BitVec.ofInt 32 (32 - mask) <<< OFMatch.ofpfwNwSrcShift) }
      | none => .ok { b with notWildcard := b.notWildcard ||| OFMatch.ofpfwNwSrcAll }

/-- Whether the mask of the destination counts is asked of the source; a missing one is unboxed. -/
def nwDst (b : MatchBuilder) (key : PerflowKey) : Except JavaException MatchBuilder :=
  match key.nwDst with
  | none => .ok b
  | some nwDst => do
      let address ← IPv4.toIPv4Address nwDst
      let b := { b with fields := { b.fields with networkDestination := address } }
      if key.nwSrcMask.isSome then
        match key.nwDstMask with
        | some mask => .ok { b with wildcard := (b.wildcard &&& ~~~OFMatch.ofpfwNwDstMask) |||
            (BitVec.ofInt 32 (32 - mask) <<< OFMatch.ofpfwNwDstShift) }
        | none => .error .nullPointer
      else .ok { b with notWildcard := b.notWildcard ||| OFMatch.ofpfwNwDstAll }

def tpSrc (b : MatchBuilder) (key : PerflowKey) : MatchBuilder :=
  match key.tpSrc with
  | none => b
  | some tpSrc => { b with
      fields := { b.fields with transportSource := BitVec.ofInt 16 tpSrc }
      notWildcard := b.notWildcard ||| OFMatch.ofpfwTpSrc }

def tpDst (b : MatchBuilder) (key : PerflowKey) : MatchBuilder :=
  match key.tpDst with
  | none => b
  | some tpDst => { b with
      fields := { b.fields with transportDestination := BitVec.ofInt 16 tpDst }
      notWildcard := b.notWildcard ||| OFMatch.ofpfwTpDst }

def build (b : MatchBuilder) : OFMatch :=
  { b.fields with wildcards := b.wildcard &&& ~~~b.notWildcard }

end MatchBuilder

/-- The match before any ports are flipped. -/
def toOFMatch (key : PerflowKey) : Except JavaException OFMatch := do
  let b := (MatchBuilder.new.dlType key).nwProto key
  let b ← b.nwSrc key
  let b ← b.nwDst key
  pure ((b.tpSrc key).tpDst key).build

/-- The match with its ports the other way round, unless both are wildcards. -/
def flipPorts (currMatch : OFMatch) : Option OFMatch :=
  let tpSrcWild := decide (currMatch.wildcards &&& OFMatch.ofpfwTpSrc ≠ 0)
  let tpDstWild := decide (currMatch.wildcards &&& OFMatch.ofpfwTpDst ≠ 0)
  if tpSrcWild && tpDstWild then none
  else
    let newWild := currMatch.wildcards &&& ~~~(OFMatch.ofpfwTpSrc ||| OFMatch.ofpfwTpDst)
    let newWild := if tpSrcWild then newWild ||| OFMatch.ofpfwTpDst else newWild
    let newWild := if tpDstWild then newWild ||| OFMatch.ofpfwTpSrc else newWild
    some { currMatch with
      transportSource := currMatch.transportDestination
      transportDestination := currMatch.transportSource
      wildcards := newWild }

def toOFMatches (key : PerflowKey) : Except JavaException (List OFMatch) := do
  let currMatch ← key.toOFMatch
  if key.getTpFlip then pure (currMatch :: (flipPorts currMatch).toList) else pure [currMatch]

end PerflowKey

end OFM.Controller
