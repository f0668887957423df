import OFM.Shared.Lemmas.Filters

/-!
# The filter of a packet

For which keys the filter that is found for a packet is the last one whose key the packet satisfies.
-/

namespace OFM.Shared
open OFM.Lib

/-! ## Addresses -/

/-- An address can be compared in the wrong order: it begins with the same bits, and its length is one
that can be shifted by. -/
def AddressSafe (k : Option AddressPrefix) : Prop :=
  ∀ x ∈ k, 1 ≤ x.length ∧ x.length ≤ 32 ∧ SamePrefix x.length (swap32 x.address) x.address

theorem lengthMask_eq {u : Undefined} {length : Nat} (h₁ : 1 ≤ length) (h₂ : length ≤ 32) :
    lengthMask u length = BitVec.allOnes 32 <<< (32 - length) := by
  have hcount : (32 - BitVec.ofNat 32 length : BitVec 32).toNat = 32 - length := by
    rw [BitVec.toNat_sub, BitVec.toNat_ofNat, show (32 : BitVec 32).toNat = 32 from rfl]
    omega
  rw [lengthMask, shiftLeft, hcount, if_pos (by omega)]
  rfl

theorem lengthMask_undefined {u : Undefined} {length : Nat} (h : length = 0 ∨ 32 < length)
    (hlt : length < 2 ^ 32) : lengthMask u length = u.shift (32 - BitVec.ofNat 32 length) := by
  have hcount : ¬ (32 - BitVec.ofNat 32 length : BitVec 32).toNat < 32 := by
    rw [BitVec.toNat_sub, BitVec.toNat_ofNat, show (32 : BitVec 32).toNat = 32 from rfl]
    omega
  rw [lengthMask, shiftLeft, if_neg hcount]

theorem not_eq_self {w : Nat} (hw : 0 < w) (x : BitVec w) : ~~~x ≠ x := by
  intro h
  have hbit := congrArg (fun y => y.getLsbD 0) h
  simp [hw] at hbit

theorem addressSafe_iff {k : Option AddressPrefix} (hlt : ∀ x ∈ k, x.length < 2 ^ 32) :
    AddressSafe k ↔ ∀ (u : Undefined) a, CodeCovers u k a ↔ FlowKey.Covers k (some a) := by
  cases k with
  | none => simp [AddressSafe, CodeCovers]
  | some x =>
      simp only [AddressSafe, CodeCovers, Option.mem_def, Option.some.injEq, forall_eq',
        FlowKey.covers_some]
      constructor
      · rintro ⟨h₁, h₂, hsame⟩ u a
        rw [lengthMask_eq h₁ h₂, ← samePrefix_iff_and h₂]
        exact ⟨fun h => hsame.symm.trans h, fun h => hsame.trans h⟩
      · intro h
        rcases Nat.eq_zero_or_pos x.length with hz | hpos
        · -- Every address is meant, and the mask may be that of one.
          have hmask := lengthMask_undefined (u := .const .zero (BitVec.allOnes 32)) (Or.inl hz)
            (hlt x rfl)
          have hall := (h (.const .zero (BitVec.allOnes 32)) (~~~swap32 x.address)).mpr (by simp [hz])
          rw [hmask, Undefined.const, BitVec.and_allOnes, BitVec.and_allOnes] at hall
          exact absurd hall.symm (not_eq_self (by decide) _)
        · by_cases h₂ : x.length ≤ 32
          · refine ⟨hpos, h₂, ?_⟩
            have hown := (h (.const .zero 0) (swap32 x.address)).mp rfl
            exact hown.symm
          · -- One address is meant, and the mask may be that of all.
            have hlong := Nat.lt_of_not_le h₂
            have hmask := lengthMask_undefined (u := .const .zero 0#32) (Or.inr hlong) (hlt x rfl)
            have hall := (h (.const .zero 0#32) (~~~x.address)).mp
              (by rw [hmask]; exact BitVec.and_zero.trans BitVec.and_zero.symm)
            rw [samePrefix_iff_eq (Nat.le_of_lt hlong)] at hall
            exact absurd hall.symm (not_eq_self (by decide) _)

/-! ## Ports -/

/-- Ports can be compared in the wrong order and flipped one by one: a single port is 0 and may not be
flipped, two ports are the same, and so are their bytes. -/
def PortsSafe (k : FlowKey) : Prop :=
  match k.tpSrc, k.tpDst with
  | none, none => True
  | some x, none => x = 0 ∧ k.flip = false
  | none, some y => y = 0 ∧ k.flip = false
  | some x, some y => x = y ∧ swap16 x = x

/-- The ports of a packet that has ports. -/
def RefPorts (k : FlowKey) (src dst : BitVec 16) : Prop :=
  (FlowKey.Fixes k.tpSrc (some src) ∧ FlowKey.Fixes k.tpDst (some dst)) ∨
    k.flip = true ∧ FlowKey.Fixes k.tpDst (some src) ∧ FlowKey.Fixes k.tpSrc (some dst)

theorem single_port {x : BitVec 16} {kflip : Bool} :
    (x = 0 ∧ kflip = false) ↔ ∀ (flip : BitVec 8) (a b : BitVec 16),
      (swap16 x = a ∨ flip ≠ 0 ∧ 0 = a) ↔ (a = x ∨ kflip = true ∧ b = x) := by
  constructor
  · rintro ⟨rfl, rfl⟩ flip a b
    have hzero : swap16 0 = 0 := by decide
    rw [hzero]
    constructor
    · rintro (rfl | ⟨-, rfl⟩) <;> exact Or.inl rfl
    · rintro (rfl | ⟨h, -⟩)
      · exact Or.inl rfl
      · cases h
  · intro h
    have hx : x = 0 := by
      rcases (h 1 0 0).mp (Or.inr ⟨by decide, rfl⟩) with hx | ⟨-, hx⟩ <;> exact hx.symm
    subst hx
    refine ⟨rfl, Bool.eq_false_iff.mpr fun hflip => ?_⟩
    rcases (h 0 1 0).mpr (Or.inr ⟨hflip, rfl⟩) with hswap | ⟨hne, -⟩
    · exact absurd hswap (by decide)
    · exact hne rfl

theorem two_ports {x y : BitVec 16} {kflip : Bool} :
    (x = y ∧ swap16 x = x) ↔ ∀ (flip : BitVec 8) (a b : BitVec 16),
      ((swap16 x = a ∨ flip ≠ 0 ∧ swap16 y = a) ∧ (swap16 y = b ∨ flip ≠ 0 ∧ swap16 x = b)) ↔
        ((a = x ∧ b = y) ∨ kflip = true ∧ a = y ∧ b = x) := by
  constructor
  · rintro ⟨rfl, hx⟩ flip a b
    rw [hx]
    constructor
    · rintro ⟨rfl | ⟨-, rfl⟩, rfl | ⟨-, rfl⟩⟩ <;> exact Or.inl ⟨rfl, rfl⟩
    · rintro (⟨rfl, rfl⟩ | ⟨-, rfl, rfl⟩) <;> exact ⟨Or.inl rfl, Or.inl rfl⟩
  · intro h
    rcases (h 1 (swap16 x) (swap16 x)).mp ⟨Or.inl rfl, Or.inr ⟨by decide, rfl⟩⟩ with
      ⟨hx, hy⟩ | ⟨-, hy, hx⟩
    · exact ⟨hx.symm.trans hy, hx⟩
    · exact ⟨hx.symm.trans hy, hx⟩

theorem portsSafe_iff {k : FlowKey} :
    PortsSafe k ↔ ∀ flip src dst, CodePorts k flip src dst ↔ RefPorts k src dst := by
  obtain ⟨dlType, nwProto, nwSrc, nwDst, tpSrc, tpDst, kflip⟩ := k
  cases tpSrc with
  | none =>
      cases tpDst with
      | none => simp [PortsSafe, CodePorts, RefPorts]
      | some y =>
          have hcode : ∀ flip src dst, CodePorts ⟨dlType, nwProto, nwSrc, nwDst, none, some y, kflip⟩
              flip src dst ↔ (swap16 y = dst ∨ flip ≠ 0 ∧ 0 = dst) := by simp [CodePorts]
          have href : ∀ src dst, RefPorts ⟨dlType, nwProto, nwSrc, nwDst, none, some y, kflip⟩ src dst ↔
              (dst = y ∨ kflip = true ∧ src = y) := by simp [RefPorts]
          simp only [hcode, href]
          exact single_port.trans
            ⟨fun h flip src dst => h flip dst src, fun h flip a b => h flip b a⟩
  | some x =>
      cases tpDst with
      | none =>
          have hcode : ∀ flip src dst, CodePorts ⟨dlType, nwProto, nwSrc, nwDst, some x, none, kflip⟩
              flip src dst ↔ (swap16 x = src ∨ flip ≠ 0 ∧ 0 = src) := by simp [CodePorts]
          have href : ∀ src dst, RefPorts ⟨dlType, nwProto, nwSrc, nwDst, some x, none, kflip⟩ src dst ↔
              (src = x ∨ kflip = true ∧ dst = x) := by simp [RefPorts]
          simp only [hcode, href]
          exact single_port
      | some y =>
          have hcode : ∀ flip src dst, CodePorts ⟨dlType, nwProto, nwSrc, nwDst, some x, some y, kflip⟩
              flip src dst ↔ ((swap16 x = src ∨ flip ≠ 0 ∧ swap16 y = src) ∧
                (swap16 y = dst ∨ flip ≠ 0 ∧ swap16 x = dst)) := by simp [CodePorts]
          have href : ∀ src dst, RefPorts ⟨dlType, nwProto, nwSrc, nwDst, some x, some y, kflip⟩ src dst ↔
              ((src = x ∧ dst = y) ∨ kflip = true ∧ src = y ∧ dst = x) := by simp [RefPorts]
          simp only [hcode, href]
          exact two_ports

/-! ## Packets -/

def frame (bytes : List (BitVec 8)) : Memory := fun i => bytes.getD i 0

def bytes16 (x : BitVec 16) : List (BitVec 8) := [x.extractLsb' 8 8, x.extractLsb' 0 8]

def bytes32 (x : BitVec 32) : List (BitVec 8) :=
  [x.extractLsb' 24 8, x.extractLsb' 16 8, x.extractLsb' 8 8, x.extractLsb' 0 8]

/-- An IPv4 packet without options. -/
def ipPacket (proto : BitVec 8) (src dst : BitVec 32) (tpSrc tpDst : BitVec 16) : Memory :=
  frame (List.replicate 12 0 ++ [0x08, 0x00] ++ [0x45] ++ List.replicate 8 0 ++ [proto] ++ [0, 0] ++
    bytes32 src ++ bytes32 dst ++ bytes16 tpSrc ++ bytes16 tpDst)

/-- A frame of another type. -/
def otherPacket (dlType tpSrc tpDst : BitVec 16) : Memory :=
  frame (List.replicate 12 0 ++ bytes16 dlType ++ bytes16 tpSrc ++ bytes16 tpDst)

theorem append_bytes16 (x : BitVec 16) : (x.extractLsb' 8 8 ++ x.extractLsb' 0 8 : BitVec 16) = x := by
  refine BitVec.eq_of_getLsbD_eq fun i hi => ?_
  simp only [BitVec.getLsbD_append, BitVec.getLsbD_extractLsb']
  grind

theorem append_bytes32 (x : BitVec 32) :
    (x.extractLsb' 24 8 ++ x.extractLsb' 16 8 ++ x.extractLsb' 8 8 ++ x.extractLsb' 0 8 : BitVec 32) =
      x := by
  refine BitVec.eq_of_getLsbD_eq fun i hi => ?_
  simp only [BitVec.getLsbD_append, BitVec.getLsbD_extractLsb']
  grind

section IpPacket

variable (proto : BitVec 8) (src dst : BitVec 32) (tpSrc tpDst : BitVec 16)

theorem transport_ipPacket : transport (ipPacket proto src dst tpSrc tpDst) = 34 := by
  have hihl : ipPacket proto src dst tpSrc tpDst etherHdrLen = 0x45 := rfl
  rw [transport, hihl]
  rfl

theorem ipPacket_spec :
    be16 (ipPacket proto src dst tpSrc tpDst) 12 = ethertypeIp ∧
    ipPacket proto src dst tpSrc tpDst 23 = proto ∧
    be32 (ipPacket proto src dst tpSrc tpDst) 26 = src ∧
    be32 (ipPacket proto src dst tpSrc tpDst) 30 = dst ∧
    be16 (ipPacket proto src dst tpSrc tpDst) 34 = tpSrc ∧
    be16 (ipPacket proto src dst tpSrc tpDst) 36 = tpDst := by
  have htype : (0x08#8 ++ 0x00#8 : BitVec 16) = ethertypeIp := by decide
  exact ⟨htype, rfl, append_bytes32 src, append_bytes32 dst, append_bytes16 tpSrc,
    append_bytes16 tpDst⟩

/-- What is read from an IPv4 packet. -/
theorem buildPacketKey_ipPacket (key : PerflowKey) :
    (buildPacketKey (ipPacket proto src dst tpSrc tpDst) key).nwSrc = src ∧
    (buildPacketKey (ipPacket proto src dst tpSrc tpDst) key).nwDst = dst ∧
    (buildPacketKey (ipPacket proto src dst tpSrc tpDst) key).nwProto = proto ∧
    (buildPacketKey (ipPacket proto src dst tpSrc tpDst) key).tpSrc =
      (if HasPorts proto then tpSrc else key.tpSrc) ∧
    (buildPacketKey (ipPacket proto src dst tpSrc tpDst) key).tpDst =
      (if HasPorts proto then tpDst else key.tpDst) := by
  obtain ⟨htype, hproto, hsrc, hdst, hts, htd⟩ := ipPacket_spec proto src dst tpSrc tpDst
  have hkey := buildPacketKey_ip (ipPacket proto src dst tpSrc tpDst) key htype
  rw [transport_ipPacket, hproto, hsrc, hdst, hts, htd] at hkey
  exact hkey

end IpPacket

theorem otherPacket_spec (dlType tpSrc tpDst : BitVec 16) :
    be16 (otherPacket dlType tpSrc tpDst) 12 = dlType ∧
    be16 (otherPacket dlType tpSrc tpDst) 14 = tpSrc ∧
    be16 (otherPacket dlType tpSrc tpDst) 16 = tpDst :=
  ⟨append_bytes16 dlType, append_bytes16 tpSrc, append_bytes16 tpDst⟩

/-! ## Keys -/

/-- The code and the meaning of a key agree on every packet, whatever is on the stack. -/
def Exact (k : FlowKey) : Prop :=
  ∀ (u : Undefined) (pkt : Memory), CodeMatches u k (buildPacketKey pkt u.pKey) ↔ k.Satisfied (header pkt)

/-- A key names the type of a packet before it names anything inside, and TCP or UDP before it names
ports; addresses and ports survive the wrong byte order. -/
structure Safe (k : FlowKey) : Prop where
  network : (k.nwProto.isSome ∨ k.nwSrc.isSome ∨ k.nwDst.isSome ∨ k.tpSrc.isSome ∨ k.tpDst.isSome) →
    k.dlType = some ethertypeIp
  transport : (k.tpSrc.isSome ∨ k.tpDst.isSome) → ∃ proto ∈ k.nwProto, HasPorts proto
  nwSrc : AddressSafe k.nwSrc
  nwDst : AddressSafe k.nwDst
  ports : PortsSafe k

variable {k : FlowKey} {pkt : Memory}

/-- What an IPv4 packet has to satisfy. -/
theorem satisfied_ip (h : be16 pkt 12 = ethertypeIp) : k.Satisfied (header pkt) ↔
    FlowKey.Fixes k.dlType (some (be16 pkt 12)) ∧ FlowKey.Fixes k.nwProto (some (pkt 23)) ∧
      FlowKey.Covers k.nwSrc (some (be32 pkt 26)) ∧ FlowKey.Covers k.nwDst (some (be32 pkt 30)) ∧
      if HasPorts (pkt 23) then RefPorts k (be16 pkt (transport pkt)) (be16 pkt (transport pkt + 2))
      else k.tpSrc = none ∧ k.tpDst = none := by
  rw [header, if_pos h]
  have hports : FlowKey.Ports k.tpSrc k.tpDst
        { dlType := be16 pkt 12, nwProto := some (pkt 23), nwSrc := some (be32 pkt 26),
          nwDst := some (be32 pkt 30),
          tpSrc := if HasPorts (pkt 23) then some (be16 pkt (transport pkt)) else none,
          tpDst := if HasPorts (pkt 23) then some (be16 pkt (transport pkt + 2)) else none } ∨
      k.flip = true ∧ FlowKey.Ports k.tpDst k.tpSrc
        { dlType := be16 pkt 12, nwProto := some (pkt 23), nwSrc := some (be32 pkt 26),
          nwDst := some (be32 pkt 30),
          tpSrc := if HasPorts (pkt 23) then some (be16 pkt (transport pkt)) else none,
          tpDst := if HasPorts (pkt 23) then some (be16 pkt (transport pkt + 2)) else none } ↔
      if HasPorts (pkt 23) then RefPorts k (be16 pkt (transport pkt)) (be16 pkt (transport pkt + 2))
      else k.tpSrc = none ∧ k.tpDst = none := by
    split
    · exact Iff.rfl
    · simp only [FlowKey.Ports, FlowKey.fixes_absent]
      constructor
      · rintro (h | ⟨-, hd, hs⟩)
        · exact h
        · exact ⟨hs, hd⟩
      · exact Or.inl
  constructor
  · rintro ⟨h₁, h₂, h₃, h₄, h₅⟩
    exact ⟨h₁, h₂, h₃, h₄, hports.mp h₅⟩
  · rintro ⟨h₁, h₂, h₃, h₄, h₅⟩
    exact ⟨h₁, h₂, h₃, h₄, hports.mpr h₅⟩

/-- Any other packet satisfies keys that name nothing but its type. -/
theorem satisfied_other (h : be16 pkt 12 ≠ ethertypeIp) : k.Satisfied (header pkt) ↔
    FlowKey.Fixes k.dlType (some (be16 pkt 12)) ∧ k.nwProto = none ∧ k.nwSrc = none ∧ k.nwDst = none ∧
      k.tpSrc = none ∧ k.tpDst = none := by
  rw [header, if_neg h]
  constructor
  · rintro ⟨h₁, h₂, h₃, h₄, h₅⟩
    simp only [FlowKey.Ports, FlowKey.fixes_absent, FlowKey.covers_absent] at h₂ h₃ h₄ h₅
    rcases h₅ with ⟨hs, hd⟩ | ⟨-, hd, hs⟩ <;> exact ⟨h₁, h₂, h₃, h₄, hs, hd⟩
  · rintro ⟨h₁, h₂, h₃, h₄, hs, hd⟩
    exact ⟨h₁, by simp [h₂], by simp [h₃], by simp [h₄], Or.inl (by simp [FlowKey.Ports, hs, hd])⟩

theorem codePorts_none (hs : k.tpSrc = none) (hd : k.tpDst = none) (flip : BitVec 8)
    (src dst : BitVec 16) : CodePorts k flip src dst := by
  simp [CodePorts, hs, hd]

/-- The lengths of a key that has been read fit a word. -/
def LengthsFit (k : FlowKey) : Prop :=
  (∀ x ∈ k.nwSrc, x.length < 2 ^ 32) ∧ ∀ x ∈ k.nwDst, x.length < 2 ^ 32

theorem Safe.noPorts (h : Safe k) {proto : BitVec 8} (hp : ¬ HasPorts proto)
    (hk : FlowKey.Fixes k.nwProto (some proto)) : k.tpSrc = none ∧ k.tpDst = none := by
  have hno : ¬ (k.tpSrc.isSome ∨ k.tpDst.isSome) := by
    intro hany
    obtain ⟨p, hp', hhas⟩ := h.transport hany
    exact hp (Option.some.inj (hk p hp') ▸ hhas)
  simpa [not_or] using hno

theorem Safe.exact (h : Safe k) (hfit : LengthsFit k) : Exact k := by
  intro u pkt
  by_cases hip : be16 pkt 12 = ethertypeIp
  · obtain ⟨hsrc, hdst, hproto, hts, htd⟩ := buildPacketKey_ip pkt u.pKey hip
    have hcoversSrc := (addressSafe_iff hfit.1).mp h.nwSrc u (be32 pkt 26)
    have hcoversDst := (addressSafe_iff hfit.2).mp h.nwDst u (be32 pkt 30)
    rw [satisfied_ip hip]
    constructor
    · rintro ⟨h₁, h₂, h₃, h₄, h₅⟩
      rw [buildPacketKey_dlType] at h₁
      rw [hproto] at h₂
      rw [hsrc] at h₃
      rw [hdst] at h₄
      refine ⟨h₁, h₂, hcoversSrc.mp h₃, hcoversDst.mp h₄, ?_⟩
      split
      · rename_i hp
        rw [hts, htd, if_pos hp, if_pos hp] at h₅
        exact (portsSafe_iff.mp h.ports _ _ _).mp h₅
      · rename_i hp
        exact h.noPorts hp h₂
    · rintro ⟨h₁, h₂, h₃, h₄, h₅⟩
      refine ⟨by rwa [buildPacketKey_dlType], by rwa [hproto], by rw [hsrc]; exact hcoversSrc.mpr h₃,
        by rw [hdst]; exact hcoversDst.mpr h₄, ?_⟩
      by_cases hp : HasPorts (pkt 23)
      · rw [if_pos hp] at h₅
        rw [hts, htd, if_pos hp, if_pos hp]
        exact (portsSafe_iff.mp h.ports _ _ _).mpr h₅
      · exact codePorts_none (h.noPorts hp h₂).1 (h.noPorts hp h₂).2 _ _ _
  · rw [satisfied_other hip]
    by_cases hdl : k.dlType = some ethertypeIp
    · have hno : ¬ FlowKey.Fixes k.dlType (some (be16 pkt 12)) := by
        rw [hdl, FlowKey.fixes_some]
        exact fun h => hip (Option.some.inj h)
      constructor
      · intro hc
        have htype := hc.dlType
        rw [buildPacketKey_dlType] at htype
        exact absurd htype hno
      · exact fun hs => absurd hs.1 hno
    · -- Nothing but the type is compared.
      have hall : ¬ (k.nwProto.isSome ∨ k.nwSrc.isSome ∨ k.nwDst.isSome ∨ k.tpSrc.isSome ∨
          k.tpDst.isSome) := fun hany => hdl (h.network hany)
      simp only [not_or, Option.not_isSome_iff_eq_none] at hall
      obtain ⟨hp, hs, hd, hts, htd⟩ := hall
      constructor
      · intro hc
        have htype := hc.dlType
        rw [buildPacketKey_dlType] at htype
        exact ⟨htype, hp, hs, hd, hts, htd⟩
      · rintro ⟨htype, -⟩
        exact ⟨by rwa [buildPacketKey_dlType], by simp [hp], by simp [CodeCovers, hs],
          by simp [CodeCovers, hd], codePorts_none hts htd _ _ _⟩

/-! ### Packets that tell a key apart -/

/-- A key on the stack that agrees with a key on everything. -/
def agreeing (k : FlowKey) : PerflowKey :=
  { PerflowKey.zero with
    nwSrc := (k.nwSrc.map fun x => swap32 x.address).getD 0
    nwDst := (k.nwDst.map fun x => swap32 x.address).getD 0
    nwProto := k.nwProto.getD 0
    tpSrc := (k.tpSrc.map swap16).getD 0
    tpDst := (k.tpDst.map swap16).getD 0 }

theorem codeCovers_own {u : Undefined} {o : Option AddressPrefix} :
    CodeCovers u o ((o.map fun x => swap32 x.address).getD 0) := by
  cases o <;> simp [CodeCovers]

theorem covers_own {o : Option AddressPrefix} :
    FlowKey.Covers o (some ((o.map AddressPrefix.address).getD 0)) := by
  cases o with
  | none => simp
  | some x => simpa using SamePrefix.refl x.length x.address

theorem codePorts_own {flip : BitVec 8} :
    CodePorts k flip ((k.tpSrc.map swap16).getD 0) ((k.tpDst.map swap16).getD 0) := by
  constructor
  · intro x hx
    rw [Option.mem_def.mp hx]
    exact Or.inl rfl
  · intro x hx
    rw [Option.mem_def.mp hx]
    exact Or.inl rfl

theorem refPorts_own : RefPorts k (k.tpSrc.getD 0) (k.tpDst.getD 0) := by
  have hfix : ∀ o : Option (BitVec 16), FlowKey.Fixes o (some (o.getD 0)) := by
    intro o
    cases o <;> simp
  exact Or.inl ⟨hfix _, hfix _⟩

/-- A frame that is no IPv4 packet may match by what is on the stack. -/
theorem Exact.network (h : Exact k)
    (hany : k.nwProto.isSome ∨ k.nwSrc.isSome ∨ k.nwDst.isSome ∨ k.tpSrc.isSome ∨ k.tpDst.isSome) :
    k.dlType = some ethertypeIp := by
  by_contra hne
  obtain ⟨dlType, hdl, hno⟩ : ∃ d, FlowKey.Fixes k.dlType (some d) ∧ d ≠ ethertypeIp := by
    cases hk : k.dlType with
    | none => exact ⟨0x0806, by simp, by decide⟩
    | some d => exact ⟨d, by simp, fun he => hne (by rw [hk, he])⟩
  obtain ⟨htype, hts, htd⟩ := otherPacket_spec dlType ((k.tpSrc.map swap16).getD 0)
    ((k.tpDst.map swap16).getD 0)
  have hip : be16 (otherPacket dlType ((k.tpSrc.map swap16).getD 0) ((k.tpDst.map swap16).getD 0)) 12 ≠
      ethertypeIp := by rwa [htype]
  obtain ⟨hsrc, hdst, hproto, hkts, hktd⟩ := buildPacketKey_other _ (agreeing k) hip
  rw [hts] at hkts
  rw [htd] at hktd
  have hcode : CodeMatches (.const (agreeing k) 0) k (buildPacketKey (otherPacket dlType
      ((k.tpSrc.map swap16).getD 0) ((k.tpDst.map swap16).getD 0)) (agreeing k)) := by
    refine ⟨by rwa [buildPacketKey_dlType, htype], ?_, ?_, ?_, ?_⟩
    · rw [hproto]
      cases hk : k.nwProto <;> simp [agreeing, hk]
    · rw [hsrc]
      exact codeCovers_own
    · rw [hdst]
      exact codeCovers_own
    · have hts' : (buildPacketKey (otherPacket dlType ((k.tpSrc.map swap16).getD 0)
          ((k.tpDst.map swap16).getD 0)) (agreeing k)).tpSrc = (k.tpSrc.map swap16).getD 0 := by
        rw [hkts]
        exact ite_self _
      have htd' : (buildPacketKey (otherPacket dlType ((k.tpSrc.map swap16).getD 0)
          ((k.tpDst.map swap16).getD 0)) (agreeing k)).tpDst = (k.tpDst.map swap16).getD 0 := by
        rw [hktd]
        exact ite_self _
      rw [hts', htd']
      exact codePorts_own
  have hsat := (satisfied_other hip).mp ((h (.const (agreeing k) 0) _).mp hcode)
  obtain ⟨-, hp, hs, hd, hs', hd'⟩ := hsat
  simp [hp, hs, hd, hs', hd'] at hany

/-- What a key that is exact says about IPv4 packets of a protocol that it allows. -/
theorem Exact.ipPacket (h : Exact k) (hdl : k.dlType = some ethertypeIp) {proto : BitVec 8}
    (hproto : FlowKey.Fixes k.nwProto (some proto)) (u : Undefined) (src dst : BitVec 32)
    (tpSrc tpDst : BitVec 16) :
    (CodeCovers u k.nwSrc src ∧ CodeCovers u k.nwDst dst ∧ CodePorts k u.pKey.tpFlip
        (if HasPorts proto then tpSrc else u.pKey.tpSrc)
        (if HasPorts proto then tpDst else u.pKey.tpDst)) ↔
      (FlowKey.Covers k.nwSrc (some src) ∧ FlowKey.Covers k.nwDst (some dst) ∧
        if HasPorts proto then RefPorts k tpSrc tpDst else k.tpSrc = none ∧ k.tpDst = none) := by
  obtain ⟨htype, hp, hs, hd, hts, htd⟩ := ipPacket_spec proto src dst tpSrc tpDst
  obtain ⟨hsrc, hdst, hkp, hkts, hktd⟩ := buildPacketKey_ipPacket proto src dst tpSrc tpDst u.pKey
  have hfix : FlowKey.Fixes k.dlType (some ethertypeIp) := by rw [hdl, FlowKey.fixes_some]
  have hsat := satisfied_ip (k := k) htype
  rw [transport_ipPacket, htype, hp, hs, hd, hts, htd] at hsat
  constructor
  · rintro ⟨h₁, h₂, h₃⟩
    have hall := hsat.mp ((h u _).mp ⟨by rwa [buildPacketKey_dlType, htype], by rwa [hkp],
      by rwa [hsrc], by rwa [hdst], by rwa [buildPacketKey_tpFlip, hkts, hktd]⟩)
    exact hall.2.2
  · rintro hall
    obtain ⟨-, -, h₁, h₂, h₃⟩ := (h u _).mpr (hsat.mpr ⟨hfix, hproto, hall⟩)
    rw [hsrc] at h₁
    rw [hdst] at h₂
    rw [buildPacketKey_tpFlip, hkts, hktd] at h₃
    exact ⟨h₁, h₂, h₃⟩

/-- A packet without ports may match by what is on the stack. -/
theorem Exact.transport (h : Exact k) (hany : k.tpSrc.isSome ∨ k.tpDst.isSome) :
    ∃ proto ∈ k.nwProto, HasPorts proto := by
  by_contra hno
  obtain ⟨proto, hfix, hp⟩ : ∃ p, FlowKey.Fixes k.nwProto (some p) ∧ ¬ HasPorts p := by
    cases hk : k.nwProto with
    | none => exact ⟨1, by simp, by decide⟩
    | some p => exact ⟨p, by simp, fun hp => hno ⟨p, hk, hp⟩⟩
  have hdl := h.network (Or.inr (Or.inr (Or.inr hany)))
  have hiff := h.ipPacket hdl hfix (.const (agreeing k) 0) (agreeing k).nwSrc (agreeing k).nwDst 0 0
  rw [if_neg hp, if_neg hp, if_neg hp] at hiff
  obtain ⟨-, -, hs, hd⟩ := hiff.mp ⟨codeCovers_own, codeCovers_own, codePorts_own⟩
  simp [hs, hd] at hany

/-- The checks of addresses and ports, on packets of some protocol. -/
theorem Exact.fields (h : Exact k) (hdl : k.dlType = some ethertypeIp) (u : Undefined)
    (src dst : BitVec 32) (tpSrc tpDst : BitVec 16) :
    (CodeCovers u k.nwSrc src ∧ CodeCovers u k.nwDst dst ∧ CodePorts k u.pKey.tpFlip tpSrc tpDst) ↔
      (FlowKey.Covers k.nwSrc (some src) ∧ FlowKey.Covers k.nwDst (some dst) ∧
        RefPorts k tpSrc tpDst) := by
  by_cases hany : k.tpSrc.isSome ∨ k.tpDst.isSome
  · obtain ⟨proto, hk, hp⟩ := h.transport hany
    have hfix : FlowKey.Fixes k.nwProto (some proto) := by rw [Option.mem_def.mp hk, FlowKey.fixes_some]
    have hiff := h.ipPacket hdl hfix u src dst tpSrc tpDst
    rwa [if_pos hp, if_pos hp, if_pos hp] at hiff
  · have hnone : k.tpSrc = none ∧ k.tpDst = none := by simpa [not_or] using hany
    have hfix : FlowKey.Fixes k.nwProto (some (k.nwProto.getD 0)) := by
      cases k.nwProto <;> simp
    have href : RefPorts k tpSrc tpDst := Or.inl ⟨by simp [hnone.1], by simp [hnone.2]⟩
    have hiff := h.ipPacket hdl hfix u src dst tpSrc tpDst
    have hcode := fun flip a b => codePorts_none hnone.1 hnone.2 flip a b
    simp only [hcode, and_true, hnone, and_self, ite_self, href] at hiff ⊢
    exact hiff

theorem Exact.safe (h : Exact k) (hfit : LengthsFit k) : Safe k where
  network := h.network
  transport := h.transport
  nwSrc := by
    refine (addressSafe_iff hfit.1).mpr fun u a => ?_
    cases hk : k.nwSrc with
    | none => simp [CodeCovers]
    | some x =>
        have hdl := h.network (Or.inr (Or.inl (by simp [hk])))
        rw [← hk]
        constructor
        · exact fun hc => ((h.fields hdl u a _ _ _).mp ⟨hc, codeCovers_own, codePorts_own⟩).1
        · exact fun hc => ((h.fields hdl u a _ _ _).mpr ⟨hc, covers_own, refPorts_own⟩).1
  nwDst := by
    refine (addressSafe_iff hfit.2).mpr fun u a => ?_
    cases hk : k.nwDst with
    | none => simp [CodeCovers]
    | some x =>
        have hdl := h.network (Or.inr (Or.inr (Or.inl (by simp [hk]))))
        rw [← hk]
        constructor
        · exact fun hc => ((h.fields hdl u _ a _ _).mp ⟨codeCovers_own, hc, codePorts_own⟩).2.1
        · exact fun hc => ((h.fields hdl u _ a _ _).mpr ⟨covers_own, hc, refPorts_own⟩).2.1
  ports := by
    by_cases hany : k.tpSrc.isSome ∨ k.tpDst.isSome
    · have hdl := h.network (Or.inr (Or.inr (Or.inr hany)))
      refine portsSafe_iff.mpr fun flip a b => ?_
      have hiff := h.fields hdl (.const { agreeing k with tpFlip := flip } 0)
      constructor
      · exact fun hc => ((hiff _ _ a b).mp ⟨codeCovers_own, codeCovers_own, hc⟩).2.2
      · exact fun hc => ((hiff _ _ a b).mpr ⟨covers_own, covers_own, hc⟩).2.2
    · have hnone : k.tpSrc = none ∧ k.tpDst = none := by simpa [not_or] using hany
      simp [PortsSafe, hnone.1, hnone.2]

theorem exact_iff_safe (hfit : LengthsFit k) : Exact k ↔ Safe k :=
  ⟨fun h => h.safe hfit, fun h => h.exact hfit⟩

/-! ## Lists of filters -/

theorem flowKey_fit (field : Controller.PerflowKey) : LengthsFit (flowKey field) := by
  have hfit : ∀ mask : Option Int, (mask.map fun n => (jsonObjectGetInt n).toNat).getD 32 < 2 ^ 32 := by
    intro mask
    cases mask with
    | none => decide
    | some n => exact (jsonObjectGetInt n).isLt
  constructor
  · intro x hx
    obtain ⟨text, -, rfl⟩ := Option.map_eq_some_iff.mp hx
    exact hfit field.nwSrcMask
  · intro x hx
    obtain ⟨text, -, rfl⟩ := Option.map_eq_some_iff.mp hx
    exact hfit field.nwDstMask

/-- A request to report packets. -/
structure EnableEvents where
  id : BitVec 32
  key : Controller.PerflowKey
  action : Controller.EventAction

def EnableEvents.filter (msg : EnableEvents) : EventFilter :=
  ⟨jsonParsePerflowKey msg.key, msg.action, msg.id, []⟩

/-- The filters after `handle_enable_events` for each of the messages. -/
def enabled (msgs : List EnableEvents) : List EventFilter :=
  msgs.foldl (fun filters msg => eventsAddFilter filters (jsonParsePerflowKey msg.key) msg.action msg.id) []

theorem enabled_eq (msgs : List EnableEvents) : enabled msgs = msgs.reverse.map EnableEvents.filter := by
  have hfold : ∀ filters, msgs.foldl (fun filters msg =>
      eventsAddFilter filters (jsonParsePerflowKey msg.key) msg.action msg.id) filters =
      msgs.reverse.map EnableEvents.filter ++ filters := by
    induction msgs with
    | nil => exact fun filters => rfl
    | cons msg msgs ih =>
        intro filters
        rw [List.foldl_cons, ih, List.reverse_cons, List.map_append, List.append_assoc]
        rfl
  rw [enabled, hfold, List.append_nil]

/-- The last message whose key a packet satisfies. -/
def lastSatisfied (msgs : List EnableEvents) (h : FlowHeader) : Option EnableEvents :=
  msgs.reverse.find? fun msg => decide ((flowKey msg.key).Satisfied h)

/-- The filter that is found is that of the last message whose key the packet satisfies, whatever has
not been initialised. -/
def FiltersExact (msgs : List EnableEvents) : Prop :=
  ∀ (u : Undefined) (pkt : Memory),
    matchesFilter u (enabled msgs) pkt = (lastSatisfied msgs (header pkt)).map EnableEvents.filter

theorem find?_congr {α : Type} {p q : α → Bool} : ∀ {l : List α}, (∀ x ∈ l, p x = q x) →
    l.find? p = l.find? q
  | [], _ => rfl
  | x :: l, h => by
      rw [List.find?_cons, List.find?_cons, h x List.mem_cons_self,
        find?_congr fun y hy => h y (List.mem_cons_of_mem x hy)]

theorem matchesFilter_eq (u : Undefined) (msgs : List EnableEvents) (pkt : Memory) :
    matchesFilter u (enabled msgs) pkt = (msgs.reverse.find? fun msg =>
      matchesKey u (jsonParsePerflowKey msg.key) (buildPacketKey pkt u.pKey)).map EnableEvents.filter := by
  rw [matchesFilter, enabled_eq, List.find?_map]
  rfl

/-- Filters are found as they should be, for all messages with keys of some set, if and only if each of
these keys is safe. -/
theorem matchesFilter_exact_iff (keys : Set Controller.PerflowKey) :
    (∀ msgs : List EnableEvents, (∀ msg ∈ msgs, msg.key ∈ keys) → FiltersExact msgs) ↔
      ∀ key ∈ keys, Safe (flowKey key) := by
  constructor
  · intro h key hkey
    refine (exact_iff_safe (flowKey_fit key)).mp fun u pkt => ?_
    have hfound := h [⟨0, key, .process⟩] (by simpa using hkey) u pkt
    rw [matchesFilter_eq, lastSatisfied] at hfound
    have hbool : ∀ b c : Bool, (if b then some (⟨0, key, .process⟩ : EnableEvents) else none).map
        EnableEvents.filter = (if c then some (⟨0, key, .process⟩ : EnableEvents) else none).map
        EnableEvents.filter → b = c := by
      intro b c
      cases b <;> cases c <;> simp
    rw [List.reverse_singleton, List.find?_singleton, List.find?_singleton] at hfound
    rw [← matchesKey_iff, hbool _ _ hfound, decide_eq_true_iff]
  · intro h msgs hmsgs u pkt
    rw [matchesFilter_eq, lastSatisfied]
    congr 1
    have hall : ∀ msg ∈ msgs.reverse, matchesKey u (jsonParsePerflowKey msg.key)
        (buildPacketKey pkt u.pKey) = decide ((flowKey msg.key).Satisfied (header pkt)) := by
      intro msg hmsg
      have hsafe := h msg.key (hmsgs msg (List.mem_reverse.mp hmsg))
      rw [Bool.eq_iff_iff, decide_eq_true_iff, matchesKey_iff]
      exact hsafe.exact (flowKey_fit msg.key) u pkt
    exact find?_congr hall

/-- IPv4 packets from `10.0.0.1`. -/
def sampleKey : Controller.PerflowKey :=
  { Controller.PerflowKey.new with dlType := some 0x0800, nwSrc := some sampleText }

/-- A packet from `10.0.0.1` does not match the filter for `10.0.0.1`. -/
theorem matchesFilter_reversed : ¬ FiltersExact [⟨1, sampleKey, .process⟩] := by
  intro h
  have hfound := congrArg Option.isSome
    (h (.const .zero 0) (ipPacket ipprotoTcp 0x0a000001 0x0a000002 1 2))
  have hcode : (matchesFilter (.const .zero 0) (enabled [⟨1, sampleKey, .process⟩])
      (ipPacket ipprotoTcp 0x0a000001 0x0a000002 1 2)).isSome = false := by decide
  have href : (lastSatisfied [⟨1, sampleKey, .process⟩]
      (header (ipPacket ipprotoTcp 0x0a000001 0x0a000002 1 2))).isSome = true := by decide
  rw [hcode, Option.isSome_map, href] at hfound
  cases hfound

end OFM.Shared
