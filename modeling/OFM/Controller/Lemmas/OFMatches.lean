import Mathlib.Tactic.IntervalCases
import OFM.Controller.OFMatch

/-!
# The matches of a key

What a switch compares for the match that a key has been turned into, read as a key again.
-/

namespace OFM.Controller
open OFM.Lib

/-! ## Wildcards -/

/-- A mask that is set under a condition. -/
def bitIf (c : Bool) (mask : BitVec 32) : BitVec 32 := if c then mask else 0

@[simp] theorem getLsbD_bitIf (c : Bool) (mask : BitVec 32) (i : Nat) :
    (bitIf c mask).getLsbD i = (c && mask.getLsbD i) := by
  cases c <;> simp [bitIf]

@[simp] theorem getElem_bitIf (c : Bool) (mask : BitVec 32) (i : Nat) (h : i < 32) :
    (bitIf c mask)[i] = (c && mask[i]) := by
  cases c <;> simp [bitIf]

theorem getLsbD_of_lt_64 {x : BitVec 32} (hx : x.toNat < 64) {i : Nat} (hi : 6 ≤ i) :
    x.getLsbD i = false := by
  rw [← BitVec.testBit_toNat]
  exact Nat.testBit_lt_two_pow (Nat.lt_of_lt_of_le hx (Nat.pow_le_pow_right Nat.two_pos hi))

namespace OFMatch

variable {m : OFMatch}

theorem compares_iff {i : Nat} (h : i < 32) :
    m.compares (1#32 <<< i) ↔ m.wildcards.getLsbD i = false := by
  rw [compares, ← BitVec.twoPow_eq, BitVec.and_twoPow]
  cases hb : m.wildcards.getLsbD i with
  | false => simp
  | true =>
      simp only [if_true, Bool.true_eq_false, iff_false]
      intro hzero
      have hbit := congrArg (fun x => x.getLsbD i) hzero
      simp [h] at hbit

theorem ignoredBits_eq {x : BitVec 32} (hx : x.toNat < 64) {shift : Nat}
    (hw : ∀ i < 6, m.wildcards.getLsbD (shift + i) = x.getLsbD i) :
    m.ignoredBits shift 6 = x.toNat := by
  have he : (m.wildcards >>> shift).setWidth 6 = x.setWidth 6 := by
    apply BitVec.eq_of_getLsbD_eq
    intro i hi
    simp [hi, hw i hi]
  rw [ignoredBits, he, BitVec.toNat_setWidth]
  exact Nat.mod_eq_of_lt hx

/-- A match compares none of the fields that keys are not about. -/
structure Open (m : OFMatch) : Prop where
  inPort : ¬ m.compares ofpfwInPort
  dlVlan : ¬ m.compares ofpfwDlVlan
  dlVlanPcp : ¬ m.compares ofpfwDlVlanPcp
  dlSrc : ¬ m.compares ofpfwDlSrc
  dlDst : ¬ m.compares ofpfwDlDst
  nwTos : ¬ m.compares ofpfwNwTos

/-- What a match fixes, as a key. -/
def key (m : OFMatch) : FlowKey where
  dlType := if m.compares ofpfwDlType then some m.dataLayerType else none
  nwProto := if m.compares ofpfwNwProto then some m.networkProtocol else none
  nwSrc := some ⟨m.networkSource, 32 - m.ignoredBits ofpfwNwSrcShift ofpfwNwSrcBits⟩
  nwDst := some ⟨m.networkDestination, 32 - m.ignoredBits ofpfwNwDstShift ofpfwNwDstBits⟩
  tpSrc := if m.compares ofpfwTpSrc then some m.transportSource else none
  tpDst := if m.compares ofpfwTpDst then some m.transportDestination else none
  flip := false

end OFMatch

/-- The fields that keys are about. -/
def SwitchHeader.header (p : SwitchHeader) : FlowHeader :=
  .full p.dlType p.nwProto p.nwSrc p.nwDst p.tpSrc p.tpDst

theorem FlowKey.fixes_ite {α : Type} {c : Prop} [Decidable c] {x y : α} :
    FlowKey.Fixes (if c then some x else none) (some y) ↔ (c → x = y) := by
  split <;> simp [*, eq_comm]

theorem OFMatch.matches_iff {m : OFMatch} (h : m.Open) (p : SwitchHeader) :
    m.Matches p ↔ m.key.Satisfied p.header := by
  constructor
  · intro hm
    exact ⟨FlowKey.fixes_ite.mpr hm.dlType, FlowKey.fixes_ite.mpr hm.nwProto,
      FlowKey.covers_some.mpr hm.nwSrc, FlowKey.covers_some.mpr hm.nwDst,
      Or.inl ⟨FlowKey.fixes_ite.mpr hm.tpSrc, FlowKey.fixes_ite.mpr hm.tpDst⟩⟩
  · intro hk
    have hports : FlowKey.Ports m.key.tpSrc m.key.tpDst p.header := by
      rcases hk.ports with hp | ⟨hf, -⟩
      · exact hp
      · cases hf
    exact {
      inPort := fun hc => absurd hc h.inPort
      dlVlan := fun hc => absurd hc h.dlVlan
      dlVlanPcp := fun hc => absurd hc h.dlVlanPcp
      dlSrc := fun hc => absurd hc h.dlSrc
      dlDst := fun hc => absurd hc h.dlDst
      dlType := FlowKey.fixes_ite.mp hk.dlType
      nwTos := fun hc => absurd hc h.nwTos
      nwProto := FlowKey.fixes_ite.mp hk.nwProto
      nwSrc := FlowKey.covers_some.mp hk.nwSrc
      nwDst := FlowKey.covers_some.mp hk.nwDst
      tpSrc := FlowKey.fixes_ite.mp hports.1
      tpDst := FlowKey.fixes_ite.mp hports.2 }

/-! ## Keys -/

namespace PerflowKey

/-- The address of a text; there is none for a text that is not an address. -/
def address (text : JavaString) : BitVec 32 :=
  match IPv4.toIPv4Address text with
  | .ok a => a
  | .error _ => 0

/-- The addresses are addresses. -/
def Addressed (key : PerflowKey) : Prop :=
  (∀ text ∈ key.nwSrc, (IPv4.toIPv4Address text).isOk = true) ∧
    ∀ text ∈ key.nwDst, (IPv4.toIPv4Address text).isOk = true

/-- The masks are prefix lengths. -/
def MasksInRange (key : PerflowKey) : Prop :=
  (∀ mask ∈ key.nwSrcMask, 0 ≤ mask ∧ mask ≤ 32) ∧ ∀ mask ∈ key.nwDstMask, 0 ≤ mask ∧ mask ≤ 32

/-- What a key says. -/
def flowKey (key : PerflowKey) : FlowKey where
  dlType := key.dlType.map (BitVec.ofInt 16)
  nwProto := key.nwProto.map (BitVec.ofInt 8)
  nwSrc := key.nwSrc.map fun text => ⟨address text, (key.nwSrcMask.map Int.toNat).getD 32⟩
  nwDst := key.nwDst.map fun text => ⟨address text, (key.nwDstMask.map Int.toNat).getD 32⟩
  tpSrc := key.tpSrc.map (BitVec.ofInt 16)
  tpDst := key.tpDst.map (BitVec.ofInt 16)
  flip := key.getTpFlip

variable (key : PerflowKey) (b : MatchBuilder)

def notWildcard : BitVec 32 :=
  0 ||| bitIf key.dlType.isSome OFMatch.ofpfwDlType |||
    bitIf key.nwProto.isSome OFMatch.ofpfwNwProto |||
    bitIf (key.nwSrc.isSome && key.nwSrcMask.isNone) OFMatch.ofpfwNwSrcAll |||
    bitIf (key.nwDst.isSome && key.nwSrcMask.isNone) OFMatch.ofpfwNwDstAll |||
    bitIf key.tpSrc.isSome OFMatch.ofpfwTpSrc ||| bitIf key.tpDst.isSome OFMatch.ofpfwTpDst

namespace MatchBuilder

theorem dlType_eq : b.dlType key = { b with
    fields := { b.fields with
      dataLayerType := (key.dlType.map (BitVec.ofInt 16)).getD b.fields.dataLayerType }
    notWildcard := b.notWildcard ||| bitIf key.dlType.isSome OFMatch.ofpfwDlType } := by
  rw [dlType]
  cases key.dlType <;> simp [bitIf]

theorem nwProto_eq : b.nwProto key = { b with
    fields := { b.fields with
      networkProtocol := (key.nwProto.map (BitVec.ofInt 8)).getD b.fields.networkProtocol }
    notWildcard := b.notWildcard ||| bitIf key.nwProto.isSome OFMatch.ofpfwNwProto } := by
  rw [nwProto]
  cases key.nwProto <;> simp [bitIf]

theorem tpSrc_eq : b.tpSrc key = { b with
    fields := { b.fields with
      transportSource := (key.tpSrc.map (BitVec.ofInt 16)).getD b.fields.transportSource }
    notWildcard := b.notWildcard ||| bitIf key.tpSrc.isSome OFMatch.ofpfwTpSrc } := by
  rw [tpSrc]
  cases key.tpSrc <;> simp [bitIf]

theorem tpDst_eq : b.tpDst key = { b with
    fields := { b.fields with
      transportDestination := (key.tpDst.map (BitVec.ofInt 16)).getD b.fields.transportDestination }
    notWildcard := b.notWildcard ||| bitIf key.tpDst.isSome OFMatch.ofpfwTpDst } := by
  rw [tpDst]
  cases key.tpDst <;> simp [bitIf]

/-- What is left of the wildcards when a prefix has been written into them. -/
def prefixWildcard (wildcard mask : BitVec 32) (shift : Nat) : Option Int → BitVec 32
  | some length => (wildcard &&& ~~~mask) ||| (BitVec.ofInt 32 (32 - length) <<< shift)
  | none => wildcard

theorem nwSrc_eq (h : ∀ text ∈ key.nwSrc, (IPv4.toIPv4Address text).isOk = true) :
    b.nwSrc key = .ok { b with
      fields := { b.fields with
        networkSource := (key.nwSrc.map address).getD b.fields.networkSource }
      notWildcard := b.notWildcard |||
        bitIf (key.nwSrc.isSome && key.nwSrcMask.isNone) OFMatch.ofpfwNwSrcAll
      wildcard := prefixWildcard b.wildcard OFMatch.ofpfwNwSrcMask OFMatch.ofpfwNwSrcShift
        (key.nwSrc.bind fun _ => key.nwSrcMask) } := by
  rw [nwSrc]
  cases hs : key.nwSrc with
  | none => simp [bitIf, prefixWildcard]
  | some text =>
      cases ht : IPv4.toIPv4Address text with
      | error e =>
          have hok := h text hs
          rw [ht] at hok
          cases hok
      | ok a =>
          cases hm : key.nwSrcMask <;> simp [bitIf, prefixWildcard, ht, address] <;> rfl

theorem nwDst_eq (h : ∀ text ∈ key.nwDst, (IPv4.toIPv4Address text).isOk = true)
    (hmask : key.nwDst.isSome = true → key.nwSrcMask.isSome = true → key.nwDstMask.isSome = true) :
    b.nwDst key = .ok { b with
      fields := { b.fields with
        networkDestination := (key.nwDst.map address).getD b.fields.networkDestination }
      notWildcard := b.notWildcard |||
        bitIf (key.nwDst.isSome && key.nwSrcMask.isNone) OFMatch.ofpfwNwDstAll
      wildcard := prefixWildcard b.wildcard OFMatch.ofpfwNwDstMask OFMatch.ofpfwNwDstShift
        (key.nwDst.bind fun _ => key.nwSrcMask.bind fun _ => key.nwDstMask) } := by
  rw [nwDst]
  cases hd : key.nwDst with
  | none => simp [bitIf, prefixWildcard]
  | some text =>
      cases ht : IPv4.toIPv4Address text with
      | error e =>
          have hok := h text hd
          rw [ht] at hok
          cases hok
      | ok a =>
          cases hs : key.nwSrcMask with
          | none =>
              simp [bitIf, prefixWildcard, ht, address]
              rfl
          | some n =>
              cases hm : key.nwDstMask with
              | none =>
                  have hsome := hmask (by simp [hd]) (by simp [hs])
                  rw [hm] at hsome
                  cases hsome
              | some n' =>
                  simp [bitIf, prefixWildcard, ht, address]
                  rfl

end MatchBuilder

/-- The mask that is written for the source, and the one for the destination. -/
def writtenSrcMask : Option Int := key.nwSrc.bind fun _ => key.nwSrcMask
def writtenDstMask : Option Int := key.nwDst.bind fun _ => key.nwSrcMask.bind fun _ => key.nwDstMask

def wildcards : BitVec 32 :=
  MatchBuilder.prefixWildcard (MatchBuilder.prefixWildcard OFMatch.ofpfwAll OFMatch.ofpfwNwSrcMask
      OFMatch.ofpfwNwSrcShift key.writtenSrcMask)
    OFMatch.ofpfwNwDstMask OFMatch.ofpfwNwDstShift key.writtenDstMask &&& ~~~key.notWildcard

/-- The match for the ports as they are. -/
def baseMatch : OFMatch := { OFMatch.new with
  wildcards := key.wildcards
  dataLayerType := (key.dlType.map (BitVec.ofInt 16)).getD 0
  networkProtocol := (key.nwProto.map (BitVec.ofInt 8)).getD 0
  networkSource := (key.nwSrc.map address).getD 0
  networkDestination := (key.nwDst.map address).getD 0
  transportSource := (key.tpSrc.map (BitVec.ofInt 16)).getD 0
  transportDestination := (key.tpDst.map (BitVec.ofInt 16)).getD 0 }

variable {key}

theorem toOFMatch_eq (ha : key.Addressed)
    (hmask : key.nwDst.isSome = true → key.nwSrcMask.isSome = true → key.nwDstMask.isSome = true) :
    key.toOFMatch = .ok key.baseMatch := by
  rw [toOFMatch, MatchBuilder.dlType_eq, MatchBuilder.nwProto_eq, MatchBuilder.nwSrc_eq _ _ ha.1]
  show (MatchBuilder.nwDst _ key >>= _) = _
  rw [MatchBuilder.nwDst_eq _ _ ha.2 hmask]
  show Except.ok (MatchBuilder.build _) = _
  rw [MatchBuilder.tpSrc_eq, MatchBuilder.tpDst_eq]
  rfl

/-- A destination without a mask under a source with one is not turned into a match. -/
theorem toOFMatch_error (hd : key.nwDst.isSome = true) (hs : key.nwSrcMask.isSome = true)
    (hnone : key.nwDstMask = none) (m : OFMatch) : key.toOFMatch ≠ .ok m := by
  have hdst : ∀ b b', MatchBuilder.nwDst b key ≠ .ok b' := by
    intro b b'
    rw [MatchBuilder.nwDst]
    cases htext : key.nwDst with
    | none =>
        rw [htext] at hd
        cases hd
    | some text =>
        cases ht : IPv4.toIPv4Address text with
        | error e =>
            show (IPv4.toIPv4Address text >>= _) ≠ _
            rw [ht]
            exact fun h => by cases h
        | ok a =>
            show (IPv4.toIPv4Address text >>= _) ≠ _
            rw [ht]
            show (if key.nwSrcMask.isSome = true then _ else _) ≠ _
            rw [if_pos hs]
            simp [hnone]
  rw [toOFMatch]
  cases hb : MatchBuilder.nwSrc ((MatchBuilder.new.dlType key).nwProto key) key with
  | error e => exact fun h => by cases h
  | ok b =>
      cases hb' : MatchBuilder.nwDst b key with
      | error e =>
          show (MatchBuilder.nwDst b key >>= _) ≠ _
          rw [hb']
          exact fun h => by cases h
      | ok b' => exact absurd hb' (hdst b b')

/-! ## The bits of the wildcards -/

theorem toNat_ofInt_sub {n : Int} (h : 0 ≤ n ∧ n ≤ 32) :
    (BitVec.ofInt 32 (32 - n)).toNat = 32 - n.toNat := by
  rw [BitVec.toNat_ofInt]
  omega

theorem writtenSrcMask_range (h : key.MasksInRange) {n : Int} (hn : key.writtenSrcMask = some n) :
    0 ≤ n ∧ n ≤ 32 := by
  obtain ⟨text, -, hmask⟩ := Option.bind_eq_some_iff.mp hn
  exact h.1 n hmask

/-- What is written for a mask stays in its six bits. -/
theorem getLsbD_written {n : Int} (h : 0 ≤ n ∧ n ≤ 32) {i : Nat} (hi : 6 ≤ i) :
    (BitVec.ofInt 32 (32 - n)).getLsbD i = false := by
  refine getLsbD_of_lt_64 ?_ hi
  rw [toNat_ofInt_sub h]
  omega

/-- The bits of the wildcards outside the two prefixes. -/
theorem getLsbD_wildcards {i : Nat} (hi : i < 8 ∨ 20 ≤ i ∧ i < 22) :
    key.wildcards.getLsbD i = !key.notWildcard.getLsbD i := by
  have hall : (MatchBuilder.prefixWildcard (MatchBuilder.prefixWildcard OFMatch.ofpfwAll
      OFMatch.ofpfwNwSrcMask OFMatch.ofpfwNwSrcShift key.writtenSrcMask)
      OFMatch.ofpfwNwDstMask OFMatch.ofpfwNwDstShift key.writtenDstMask).getLsbD i = true := by
    have hsrc : (MatchBuilder.prefixWildcard OFMatch.ofpfwAll
        OFMatch.ofpfwNwSrcMask OFMatch.ofpfwNwSrcShift key.writtenSrcMask).getLsbD i = true := by
      cases key.writtenSrcMask with
      | none =>
          obtain hlt | ⟨hge, hlt⟩ := hi <;> interval_cases i <;> rfl
      | some n =>
          rw [MatchBuilder.prefixWildcard, BitVec.getLsbD_or]
          refine Bool.or_eq_true_iff.mpr (Or.inl ?_)
          obtain hlt | ⟨hge, hlt⟩ := hi <;> interval_cases i <;> rfl
    cases key.writtenDstMask with
    | none => exact hsrc
    | some n =>
        rw [MatchBuilder.prefixWildcard, BitVec.getLsbD_or, BitVec.getLsbD_and, hsrc]
        refine Bool.or_eq_true_iff.mpr (Or.inl ?_)
        obtain hlt | ⟨hge, hlt⟩ := hi <;> interval_cases i <;> rfl
  rw [wildcards, BitVec.getLsbD_and, hall, Bool.true_and, BitVec.getLsbD_not]
  have hlt : i < 32 := by omega
  rw [decide_eq_true hlt, Bool.true_and]

/-- The bits that `notWildcard` clears outside the two prefixes are those of the fields present. -/
theorem getLsbD_notWildcard :
    key.notWildcard.getLsbD 4 = key.dlType.isSome ∧ key.notWildcard.getLsbD 5 = key.nwProto.isSome ∧
    key.notWildcard.getLsbD 6 = key.tpSrc.isSome ∧ key.notWildcard.getLsbD 7 = key.tpDst.isSome ∧
    ∀ i ∈ [0, 1, 2, 3, 20, 21], key.notWildcard.getLsbD i = false := by
  simp [notWildcard, OFMatch.ofpfwDlType, OFMatch.ofpfwNwProto, OFMatch.ofpfwNwSrcAll,
    OFMatch.ofpfwNwDstAll, OFMatch.ofpfwTpSrc, OFMatch.ofpfwTpDst, OFMatch.ofpfwNwSrcShift,
    OFMatch.ofpfwNwDstShift]

/-- How many bits of the source address are ignored. -/
def srcIgnored (key : PerflowKey) : BitVec 32 :=
  match key.nwSrc, key.nwSrcMask with
  | none, _ => 63
  | some _, some n => BitVec.ofInt 32 (32 - n)
  | some _, none => 31

/-- How many bits of the destination address are ignored. -/
def dstIgnored (key : PerflowKey) : BitVec 32 :=
  match key.nwDst, key.nwSrcMask, key.nwDstMask with
  | none, _, _ => 63
  | some _, some _, some n => BitVec.ofInt 32 (32 - n)
  | some _, some _, none => 63
  | some _, none, _ => 31

theorem getLsbD_src {i : Nat} (hi : i < 6) :
    key.wildcards.getLsbD (8 + i) = key.srcIgnored.getLsbD i := by
  have hdst : ∀ w : BitVec 32, (MatchBuilder.prefixWildcard w OFMatch.ofpfwNwDstMask
      OFMatch.ofpfwNwDstShift key.writtenDstMask).getLsbD (8 + i) = w.getLsbD (8 + i) := by
    intro w
    cases key.writtenDstMask with
    | none => rfl
    | some n =>
        interval_cases i <;>
          simp [MatchBuilder.prefixWildcard, OFMatch.ofpfwNwDstMask, OFMatch.ofpfwNwDstShift,
            OFMatch.ofpfwNwDstBits]
  rw [wildcards, BitVec.getLsbD_and, hdst]
  have hnot : key.notWildcard.getLsbD (8 + i) =
      (key.nwSrc.isSome && key.nwSrcMask.isNone && decide (i = 5)) := by
    interval_cases i <;>
      simp [notWildcard, OFMatch.ofpfwDlType, OFMatch.ofpfwNwProto, OFMatch.ofpfwNwSrcAll,
        OFMatch.ofpfwNwDstAll, OFMatch.ofpfwTpSrc, OFMatch.ofpfwTpDst, OFMatch.ofpfwNwSrcShift,
        OFMatch.ofpfwNwDstShift]
  rw [BitVec.getLsbD_not, hnot]
  cases hs : key.nwSrc with
  | none =>
      simp only [writtenSrcMask, srcIgnored, hs]
      interval_cases i <;> simp [MatchBuilder.prefixWildcard, OFMatch.ofpfwAll]
  | some text =>
      cases hm : key.nwSrcMask with
      | none =>
          simp only [writtenSrcMask, srcIgnored, hs, hm]
          interval_cases i <;> simp [MatchBuilder.prefixWildcard, OFMatch.ofpfwAll]
      | some n =>
          simp only [writtenSrcMask, srcIgnored, hs, hm]
          interval_cases i <;>
            simp [MatchBuilder.prefixWildcard, OFMatch.ofpfwAll, OFMatch.ofpfwNwSrcMask,
              OFMatch.ofpfwNwSrcShift, OFMatch.ofpfwNwSrcBits]

theorem getLsbD_dst (h : key.MasksInRange)
    (hmask : key.nwDst.isSome = true → key.nwSrcMask.isSome = true → key.nwDstMask.isSome = true)
    {i : Nat} (hi : i < 6) : key.wildcards.getLsbD (14 + i) = key.dstIgnored.getLsbD i := by
  have hsrc : (MatchBuilder.prefixWildcard OFMatch.ofpfwAll OFMatch.ofpfwNwSrcMask
      OFMatch.ofpfwNwSrcShift key.writtenSrcMask).getLsbD (14 + i) = true := by
    cases hm : key.writtenSrcMask with
    | none => interval_cases i <;> rfl
    | some n =>
        have hhigh := fun {j : Nat} => getLsbD_written (writtenSrcMask_range h hm) (i := j)
        interval_cases i <;>
          simp [MatchBuilder.prefixWildcard, OFMatch.ofpfwAll, OFMatch.ofpfwNwSrcMask,
            OFMatch.ofpfwNwSrcShift, OFMatch.ofpfwNwSrcBits]
  have hnot : key.notWildcard.getLsbD (14 + i) =
      (key.nwDst.isSome && key.nwSrcMask.isNone && decide (i = 5)) := by
    interval_cases i <;>
      simp [notWildcard, OFMatch.ofpfwDlType, OFMatch.ofpfwNwProto, OFMatch.ofpfwNwSrcAll,
        OFMatch.ofpfwNwDstAll, OFMatch.ofpfwTpSrc, OFMatch.ofpfwTpDst, OFMatch.ofpfwNwSrcShift,
        OFMatch.ofpfwNwDstShift]
  have hlt : 14 + i < 32 := by omega
  rw [wildcards, BitVec.getLsbD_and, BitVec.getLsbD_not, hnot, decide_eq_true hlt, Bool.true_and]
  cases hd : key.nwDst with
  | none =>
      simp only [writtenDstMask, dstIgnored, hd]
      interval_cases i <;> simpa [MatchBuilder.prefixWildcard] using hsrc
  | some text =>
      cases hs : key.nwSrcMask with
      | none =>
          simp only [writtenDstMask, dstIgnored, hd, hs]
          interval_cases i <;> simpa [MatchBuilder.prefixWildcard] using hsrc
      | some n =>
          cases hm : key.nwDstMask with
          | none =>
              have hsome := hmask (by simp [hd]) (by simp [hs])
              rw [hm] at hsome
              cases hsome
          | some n' =>
              simp only [writtenDstMask, dstIgnored, hd, hs, hm]
              interval_cases i <;>
                simp [MatchBuilder.prefixWildcard, OFMatch.ofpfwNwDstMask, OFMatch.ofpfwNwDstShift,
                  OFMatch.ofpfwNwDstBits]

theorem srcIgnored_lt (h : key.MasksInRange) : key.srcIgnored.toNat < 64 := by
  rw [srcIgnored]
  split
  · decide
  · rename_i n _ hm
    rw [toNat_ofInt_sub (h.1 n hm)]
    omega
  · decide

theorem dstIgnored_lt (h : key.MasksInRange) : key.dstIgnored.toNat < 64 := by
  rw [dstIgnored]
  split
  · decide
  · rename_i n _ _ hm
    rw [toNat_ofInt_sub (h.2 n hm)]
    omega
  · decide
  · decide

/-! ## What is compared -/

/-- The key that the match of a key says: a prefix of one bit is compared where no mask is written. -/
def compiled (key : PerflowKey) : FlowKey := { key.flowKey with
  nwSrc := key.nwSrc.map fun text => ⟨address text, (key.nwSrcMask.map Int.toNat).getD 1⟩
  nwDst := key.nwDst.map fun text =>
    ⟨address text, if key.nwSrcMask.isSome then (key.nwDstMask.map Int.toNat).getD 32 else 1⟩ }

theorem baseMatch_open : key.baseMatch.Open := by
  have hbit : ∀ i ∈ [0, 1, 2, 3, 20, 21], key.wildcards.getLsbD i = true := by
    intro i hi
    rw [getLsbD_wildcards, getLsbD_notWildcard.2.2.2.2 i hi, Bool.not_false]
    simp only [List.mem_cons, List.not_mem_nil, or_false] at hi
    omega
  refine ⟨?_, ?_, ?_, ?_, ?_, ?_⟩
  all_goals
    intro hc
    have hfalse := (OFMatch.compares_iff (by decide)).mp hc
    rw [show key.baseMatch.wildcards = key.wildcards from rfl, hbit _ (by decide)] at hfalse
    cases hfalse

theorem baseMatch_ports :
    (key.baseMatch.compares OFMatch.ofpfwTpSrc ↔ key.tpSrc.isSome = true) ∧
    (key.baseMatch.compares OFMatch.ofpfwTpDst ↔ key.tpDst.isSome = true) := by
  constructor
  · rw [OFMatch.ofpfwTpSrc, OFMatch.compares_iff (by decide),
      show key.baseMatch.wildcards = key.wildcards from rfl, getLsbD_wildcards (by decide),
      getLsbD_notWildcard.2.2.1, Bool.not_eq_false']
  · rw [OFMatch.ofpfwTpDst, OFMatch.compares_iff (by decide),
      show key.baseMatch.wildcards = key.wildcards from rfl, getLsbD_wildcards (by decide),
      getLsbD_notWildcard.2.2.2.1, Bool.not_eq_false']

theorem ite_isSome_getD {α β : Type} {k : Option α} {f : α → β} {c : Prop} [Decidable c] {d : β}
    (h : c ↔ k.isSome = true) : (if c then some ((k.map f).getD d) else none) = k.map f := by
  cases k with
  | none => simp [h]
  | some x => simp [h]

/-- A match compares the fields that the key has, each address up to a prefix. -/
theorem baseMatch_same (hm : key.MasksInRange)
    (hmask : key.nwDst.isSome = true → key.nwSrcMask.isSome = true → key.nwDstMask.isSome = true) :
    key.baseMatch.key.Same { key.compiled with flip := false } := by
  have hdlType : key.baseMatch.key.dlType = key.compiled.dlType := by
    refine ite_isSome_getD ?_
    rw [OFMatch.ofpfwDlType, OFMatch.compares_iff (by decide),
      show key.baseMatch.wildcards = key.wildcards from rfl, getLsbD_wildcards (by decide),
      getLsbD_notWildcard.1, Bool.not_eq_false']
  have hnwProto : key.baseMatch.key.nwProto = key.compiled.nwProto := by
    refine ite_isSome_getD ?_
    rw [OFMatch.ofpfwNwProto, OFMatch.compares_iff (by decide),
      show key.baseMatch.wildcards = key.wildcards from rfl, getLsbD_wildcards (by decide),
      getLsbD_notWildcard.2.1, Bool.not_eq_false']
  have htpSrc : key.baseMatch.key.tpSrc = key.compiled.tpSrc := ite_isSome_getD baseMatch_ports.1
  have htpDst : key.baseMatch.key.tpDst = key.compiled.tpDst := ite_isSome_getD baseMatch_ports.2
  have hnwSrc : ∀ a, FlowKey.Covers key.baseMatch.key.nwSrc (some a) ↔
      FlowKey.Covers key.compiled.nwSrc (some a) := by
    intro a
    have hignored : key.baseMatch.ignoredBits 8 6 = key.srcIgnored.toNat :=
      OFMatch.ignoredBits_eq (srcIgnored_lt hm) fun i hi => getLsbD_src hi
    rw [OFMatch.key, FlowKey.covers_some]
    show SamePrefix (32 - key.baseMatch.ignoredBits 8 6) ((key.nwSrc.map address).getD 0) a ↔ _
    rw [hignored, compiled, srcIgnored]
    cases hs : key.nwSrc with
    | none => simp
    | some text =>
        cases hn : key.nwSrcMask with
        | none => simp
        | some n =>
            have hrange := hm.1 n hn
            simp only [Option.map_some, Option.getD_some, FlowKey.covers_some]
            rw [toNat_ofInt_sub hrange, show 32 - (32 - n.toNat) = n.toNat by omega]
  have hnwDst : ∀ a, FlowKey.Covers key.baseMatch.key.nwDst (some a) ↔
      FlowKey.Covers key.compiled.nwDst (some a) := by
    intro a
    have hignored : key.baseMatch.ignoredBits 14 6 = key.dstIgnored.toNat :=
      OFMatch.ignoredBits_eq (dstIgnored_lt hm) fun i hi => getLsbD_dst hm hmask hi
    rw [OFMatch.key, FlowKey.covers_some]
    show SamePrefix (32 - key.baseMatch.ignoredBits 14 6) ((key.nwDst.map address).getD 0) a ↔ _
    rw [hignored, compiled, dstIgnored]
    cases hd : key.nwDst with
    | none => simp
    | some text =>
        cases hs : key.nwSrcMask with
        | none => simp
        | some n =>
            cases hn : key.nwDstMask with
            | none =>
                have hsome := hmask (by simp [hd]) (by simp [hs])
                rw [hn] at hsome
                cases hsome
            | some n' =>
                have hrange := hm.2 n' hn
                simp only [Option.map_some, Option.getD_some, Option.isSome_some, if_true,
                  FlowKey.covers_some]
                rw [toNat_ofInt_sub hrange, show 32 - (32 - n'.toNat) = n'.toNat by omega]
  exact ⟨hdlType, hnwProto, hnwSrc, hnwDst, htpSrc, htpDst, rfl⟩

/-! ## Flipped ports -/

/-- The wildcards with those of the ports exchanged. -/
def swapWildcards (w : BitVec 32) : BitVec 32 :=
  w &&& ~~~(OFMatch.ofpfwTpSrc ||| OFMatch.ofpfwTpDst) |||
    bitIf (w.getLsbD 6) OFMatch.ofpfwTpDst ||| bitIf (w.getLsbD 7) OFMatch.ofpfwTpSrc

theorem getLsbD_swapWildcards (w : BitVec 32) {i : Nat} (hi : i < 32) :
    (swapWildcards w).getLsbD i =
      if i = 6 then w.getLsbD 7 else if i = 7 then w.getLsbD 6 else w.getLsbD i := by
  interval_cases i <;> simp [swapWildcards, OFMatch.ofpfwTpSrc, OFMatch.ofpfwTpDst]

theorem ignoredBits_swap {m m' : OFMatch} (hw : m'.wildcards = swapWildcards m.wildcards)
    {shift : Nat} (hshift : 8 ≤ shift) : m'.ignoredBits shift 6 = m.ignoredBits shift 6 := by
  have he : (m'.wildcards >>> shift).setWidth 6 = (m.wildcards >>> shift).setWidth 6 := by
    apply BitVec.eq_of_getLsbD_eq
    intro i hi
    simp only [BitVec.getLsbD_setWidth, BitVec.getLsbD_ushiftRight, hw]
    by_cases hlt : shift + i < 32
    · rw [getLsbD_swapWildcards _ hlt, if_neg (by omega), if_neg (by omega)]
    · rw [BitVec.getLsbD_of_ge _ _ (by omega), BitVec.getLsbD_of_ge _ _ (by omega)]
  rw [OFMatch.ignoredBits, OFMatch.ignoredBits, he]

theorem wild_eq (m : OFMatch) {i : Nat} (hi : i < 32) :
    decide (m.wildcards &&& (1#32 <<< i) ≠ 0) = m.wildcards.getLsbD i := by
  have hiff := OFMatch.compares_iff (m := m) hi
  rw [OFMatch.compares] at hiff
  cases hb : m.wildcards.getLsbD i with
  | false => exact decide_eq_false (not_not_intro (hiff.mpr hb))
  | true => exact decide_eq_true fun hz => by rw [hiff.mp hz] at hb; cases hb

/-- The wildcards of the ports change places, and the other ones stay. -/
theorem flipPorts_spec {m : OFMatch} (ho : m.Open) :
    (flipPorts m = none ∧ m.key.tpSrc = none ∧ m.key.tpDst = none) ∨
      ∃ m', flipPorts m = some m' ∧ m'.Open ∧ m'.key = m.key.swapPorts := by
  have hsrc : decide (m.wildcards &&& OFMatch.ofpfwTpSrc ≠ 0) = m.wildcards.getLsbD 6 :=
    wild_eq m (by decide)
  have hdst : decide (m.wildcards &&& OFMatch.ofpfwTpDst ≠ 0) = m.wildcards.getLsbD 7 :=
    wild_eq m (by decide)
  have hcompares : ∀ {m : OFMatch} {i : Nat}, i < 32 →
      (m.compares (1#32 <<< i) ↔ m.wildcards.getLsbD i = false) := OFMatch.compares_iff
  have hother : ∀ i, i < 32 → i ≠ 6 → i ≠ 7 →
      (swapWildcards m.wildcards).getLsbD i = m.wildcards.getLsbD i := by
    intro i hi h6 h7
    rw [getLsbD_swapWildcards _ hi, if_neg h6, if_neg h7]
  by_cases hboth : (m.wildcards.getLsbD 6 && m.wildcards.getLsbD 7) = true
  · obtain ⟨h6, h7⟩ := Bool.and_eq_true_iff.mp hboth
    refine Or.inl ⟨?_, ?_, ?_⟩
    · simp only [flipPorts, hsrc, hdst, hboth, if_true]
    · exact if_neg fun hc => by rw [(hcompares (by decide)).mp hc] at h6; cases h6
    · exact if_neg fun hc => by rw [(hcompares (by decide)).mp hc] at h7; cases h7
  · refine Or.inr ⟨{ m with
      transportSource := m.transportDestination
      transportDestination := m.transportSource
      wildcards := swapWildcards m.wildcards }, ?_, ?_, ?_⟩
    · simp only [flipPorts, hsrc, hdst]
      rw [if_neg hboth]
      refine congrArg some (congrArg (fun w => ({ m with
        transportSource := m.transportDestination
        transportDestination := m.transportSource
        wildcards := w } : OFMatch)) ?_)
      rw [swapWildcards]
      cases m.wildcards.getLsbD 6 <;> cases m.wildcards.getLsbD 7 <;> simp [bitIf]
    · refine ⟨fun h => ho.inPort ?_, fun h => ho.dlVlan ?_, fun h => ho.dlVlanPcp ?_,
        fun h => ho.dlSrc ?_, fun h => ho.dlDst ?_, fun h => ho.nwTos ?_⟩
      all_goals
        refine (hcompares (by decide)).mpr ?_
        rw [← hother _ (by decide) (by decide) (by decide)]
        exact (hcompares (by decide)).mp h
    · have hsame : ∀ i, i < 32 → i ≠ 6 → i ≠ 7 →
          (OFMatch.compares { m with
            transportSource := m.transportDestination
            transportDestination := m.transportSource
            wildcards := swapWildcards m.wildcards } (1#32 <<< i) ↔ m.compares (1#32 <<< i)) := by
        intro i hi h6 h7
        rw [hcompares hi, hcompares hi, hother i hi h6 h7]
      simp only [OFMatch.key, FlowKey.swapPorts, FlowKey.mk.injEq, and_true]
      refine ⟨if_congr (hsame 4 (by decide) (by decide) (by decide)) rfl rfl,
        if_congr (hsame 5 (by decide) (by decide) (by decide)) rfl rfl, ?_, ?_,
        if_congr ?_ rfl rfl, if_congr ?_ rfl rfl⟩
      · exact congrArg some (congrArg (fun n => AddressPrefix.mk _ (32 - n))
          (ignoredBits_swap rfl (by decide)))
      · exact congrArg some (congrArg (fun n => AddressPrefix.mk _ (32 - n))
          (ignoredBits_swap rfl (by decide)))
      · rw [OFMatch.ofpfwTpSrc, OFMatch.ofpfwTpDst, hcompares (by decide), hcompares (by decide),
          getLsbD_swapWildcards _ (by decide), if_pos rfl]
      · rw [OFMatch.ofpfwTpSrc, OFMatch.ofpfwTpDst, hcompares (by decide), hcompares (by decide),
          getLsbD_swapWildcards _ (by decide), if_neg (by decide), if_pos rfl]

end PerflowKey

end OFM.Controller
