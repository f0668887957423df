import OFM.Shared.Event

/-!
# What a filter matches

The checks of `matches_filter` in terms of the key of the message, and the header of the packet that
the key is about.
-/

namespace OFM.Shared
open OFM.Lib

/-! ## The header of a packet -/

/-- TCP and UDP have ports. -/
def HasPorts (proto : BitVec 8) : Prop := proto = ipprotoTcp ∨ proto = ipprotoUdp

instance (proto : BitVec 8) : Decidable (HasPorts proto) := inferInstanceAs (Decidable (_ ∨ _))

/-- Where the transport header of an IPv4 packet is. -/
def transport (pkt : Memory) : Nat := etherHdrLen + (pkt etherHdrLen &&& 0x0f).toNat * 4

/-- The fields of a packet, in the order they have on the wire. -/
def header (pkt : Memory) : FlowHeader :=
  if be16 pkt 12 = ethertypeIp then
    { dlType := be16 pkt 12
      nwProto := some (pkt 23)
      nwSrc := some (be32 pkt 26)
      nwDst := some (be32 pkt 30)
      tpSrc := if HasPorts (pkt 23) then some (be16 pkt (transport pkt)) else none
      tpDst := if HasPorts (pkt 23) then some (be16 pkt (transport pkt + 2)) else none }
  else ⟨be16 pkt 12, none, none, none, none, none⟩

section PacketKey

variable (pkt : Memory) (key : PerflowKey)

@[simp] theorem buildPacketKey_dlType : (buildPacketKey pkt key).dlType = be16 pkt 12 := by
  unfold buildPacketKey
  simp only [swap16_le16]
  split <;> split <;> rfl

@[simp] theorem buildPacketKey_tpFlip : (buildPacketKey pkt key).tpFlip = key.tpFlip := by
  unfold buildPacketKey
  simp only [swap16_le16]
  split <;> split <;> rfl

/-- The fields of an IPv4 packet; ports that it lacks are left as they were. -/
theorem buildPacketKey_ip (h : be16 pkt 12 = ethertypeIp) :
    (buildPacketKey pkt key).nwSrc = be32 pkt 26 ∧ (buildPacketKey pkt key).nwDst = be32 pkt 30 ∧
      (buildPacketKey pkt key).nwProto = pkt 23 ∧
      (buildPacketKey pkt key).tpSrc =
        (if HasPorts (pkt 23) then be16 pkt (transport pkt) else key.tpSrc) ∧
      (buildPacketKey pkt key).tpDst =
        (if HasPorts (pkt 23) then be16 pkt (transport pkt + 2) else key.tpDst) := by
  unfold buildPacketKey
  simp only [swap16_le16, swap32_le32, h, if_true]
  split
  · rename_i hp
    have hp' : HasPorts (pkt 23) := hp
    simp only [if_pos hp']
    refine ⟨?_, ?_, ?_, ?_, ?_⟩ <;> trivial
  · rename_i hp
    have hp' : ¬ HasPorts (pkt 23) := hp
    simp only [if_neg hp']
    refine ⟨?_, ?_, ?_, ?_, ?_⟩ <;> trivial

/-- Of any other packet only the type is read, and the ports if what was there before says so. -/
theorem buildPacketKey_other (h : be16 pkt 12 ≠ ethertypeIp) :
    (buildPacketKey pkt key).nwSrc = key.nwSrc ∧ (buildPacketKey pkt key).nwDst = key.nwDst ∧
      (buildPacketKey pkt key).nwProto = key.nwProto ∧
      (buildPacketKey pkt key).tpSrc =
        (if HasPorts key.nwProto then be16 pkt 14 else key.tpSrc) ∧
      (buildPacketKey pkt key).tpDst =
        (if HasPorts key.nwProto then be16 pkt 16 else key.tpDst) := by
  unfold buildPacketKey
  simp only [swap16_le16, h, if_false]
  split
  · rename_i hp
    have hp' : HasPorts key.nwProto := hp
    simp only [if_pos hp']
    refine ⟨?_, ?_, ?_, ?_, ?_⟩ <;> trivial
  · rename_i hp
    have hp' : ¬ HasPorts key.nwProto := hp
    simp only [if_neg hp']
    refine ⟨?_, ?_, ?_, ?_, ?_⟩ <;> trivial

end PacketKey

/-! ## The checks -/

/-- The mask that is used for a prefix length. -/
def lengthMask (u : Undefined) (length : Nat) : BitVec 32 :=
  shiftLeft u.shift 0xffffffff (32 - BitVec.ofNat 32 length)

/-- The address of a key is compared in network order with that of a packet in host order. -/
def CodeCovers (u : Undefined) (k : Option AddressPrefix) (address : BitVec 32) : Prop :=
  ∀ x ∈ k, swap32 x.address &&& lengthMask u x.length = address &&& lengthMask u x.length

/-- The ports likewise; those that are missing from the key are 0, and each port may be flipped on its
own if the packet says so. -/
def CodePorts (k : FlowKey) (flip : BitVec 8) (src dst : BitVec 16) : Prop :=
  (∀ x ∈ k.tpSrc, swap16 x = src ∨ flip ≠ 0 ∧ (k.tpDst.map swap16).getD 0 = src) ∧
    ∀ x ∈ k.tpDst, swap16 x = dst ∨ flip ≠ 0 ∧ (k.tpSrc.map swap16).getD 0 = dst

/-- What the code makes of a key. -/
structure CodeMatches (u : Undefined) (k : FlowKey) (pKey : PerflowKey) : Prop where
  dlType : FlowKey.Fixes k.dlType (some pKey.dlType)
  nwProto : FlowKey.Fixes k.nwProto (some pKey.nwProto)
  nwSrc : CodeCovers u k.nwSrc pKey.nwSrc
  nwDst : CodeCovers u k.nwDst pKey.nwDst
  ports : CodePorts k pKey.tpFlip pKey.tpSrc pKey.tpDst

/-- A check that goes on to the next filter. -/
theorem continue_iff {c : Prop} [Decidable c] {b : Bool} :
    (if c then false else b) = true ↔ ¬ c ∧ b = true := by
  split <;> simp [*]

theorem eq_swap16_iff {x y : BitVec 16} : x = swap16 y ↔ swap16 x = y := by
  constructor
  · rintro rfl
    exact swap16_swap16 y
  · rintro rfl
    exact (swap16_swap16 x).symm

theorem eq_swap32_iff {x y : BitVec 32} : x = swap32 y ↔ swap32 x = y := by
  constructor
  · rintro rfl
    exact swap32_swap32 y
  · rintro rfl
    exact (swap32_swap32 x).symm

section Checks

variable {α : Type} {o : Option α} {compared : Prop}

/-- A field that is compared when the key has it. -/
theorem check_iff (ok : Prop) (ok' : α → Prop) (hc : compared ↔ o.isSome = true)
    (ho : ∀ x ∈ o, ok ↔ ok' x) : ¬ (compared ∧ ¬ ok) ↔ ∀ x ∈ o, ok' x := by
  cases o with
  | none =>
      have hnot : ¬ compared := fun h => by cases hc.mp h
      simp [hnot]
  | some x =>
      have hyes : compared := hc.mpr rfl
      simp [hyes, ho x rfl]

theorem check_fixes {n : Nat} {f : α → BitVec n} {v : BitVec n} (hc : compared ↔ o.isSome = true) :
    ¬ (compared ∧ ¬ (o.map f).getD 0 = v) ↔ FlowKey.Fixes (o.map f) (some v) := by
  have hok := check_iff ((o.map f).getD 0 = v) (fun x => f x = v) hc fun x hx => by
    rw [Option.mem_def.mp hx]
    rfl
  rw [hok]
  cases o <;> simp [eq_comm]

theorem check_covers {u : Undefined} {o : Option Controller.JavaString} {length : Nat} {v : BitVec 32}
    (hc : compared ↔ o.isSome = true) :
    ¬ (compared ∧ ¬ (o.map readAddress).getD 0 &&& lengthMask u length = v &&& lengthMask u length) ↔
      CodeCovers u (o.map fun text => ⟨(inetAton text).getD 0, length⟩) v := by
  have hok := check_iff
    ((o.map readAddress).getD 0 &&& lengthMask u length = v &&& lengthMask u length)
    (fun x => readAddress x &&& lengthMask u length = v &&& lengthMask u length) hc
    fun x hx => by rw [Option.mem_def.mp hx]; rfl
  rw [hok]
  simp [CodeCovers, readAddress]

theorem check_port {f : α → BitVec 16} {o' : Option α} {v : BitVec 16} {flip : Prop}
    (hc : compared ↔ o.isSome = true) :
    ¬ (compared ∧ ¬ ((o.map fun x => swap16 (f x)).getD 0 = v ∨
        flip ∧ (o'.map fun x => swap16 (f x)).getD 0 = v)) ↔
      ∀ x ∈ o.map f, swap16 x = v ∨ flip ∧ ((o'.map f).map swap16).getD 0 = v := by
  rw [check_iff _ (fun x => swap16 (f x) = v ∨ flip ∧ (o'.map fun x => swap16 (f x)).getD 0 = v) hc
    fun x hx => by rw [Option.mem_def.mp hx]; rfl]
  simp [Function.comp_def]

theorem check_field {n : Nat} {f : α → BitVec n} {v : BitVec n} (hc : compared ↔ o.isSome = true) :
    ¬ (compared ∧ ¬ v = (o.map f).getD 0) ↔ FlowKey.Fixes (o.map f) (some v) := by
  rw [← check_fixes hc, eq_comm]

theorem check_flipped {f : α → BitVec 16} {v w : BitVec 16} {flip : BitVec 8}
    (hc : compared ↔ o.isSome = true) :
    ¬ (compared ∧ ¬ (v = (o.map fun x => swap16 (f x)).getD 0 ∨
        (flip ≠ 0 ∧ w = (o.map fun x => swap16 (f x)).getD 0))) ↔
      ∀ x ∈ o.map f, swap16 v = x ∨ decide (flip ≠ 0) = true ∧ swap16 w = x := by
  rw [check_iff _ (fun x => swap16 v = f x ∨ decide (flip ≠ 0) = true ∧ swap16 w = f x) hc fun x hx => by
    rw [Option.mem_def.mp hx, decide_eq_true_iff, ← eq_swap16_iff, ← eq_swap16_iff]; rfl]
  simp

end Checks

theorem lengthMask_mask (u : Undefined) (mask : Option Int) {c : Prop} [Decidable c]
    (hc : c ↔ mask.isSome = true) :
    (if c then shiftLeft u.shift 0xffffffff (32 - (mask.map jsonObjectGetInt).getD 0)
      else (0xffffffff : BitVec 32)) =
    lengthMask u ((mask.map fun n => (jsonObjectGetInt n).toNat).getD 32) := by
  cases mask with
  | none =>
      have hnot : ¬ c := fun h => by cases hc.mp h
      rw [if_neg hnot]
      rfl
  | some n =>
      rw [if_pos (hc.mpr rfl)]
      simp [lengthMask]

theorem matchesKey_iff (u : Undefined) (field : Controller.PerflowKey) (pKey : PerflowKey) :
    matchesKey u (jsonParsePerflowKey field) pKey = true ↔ CodeMatches u (flowKey field) pKey := by
  obtain ⟨hdl, hs, hsm, hd, hdm, hp, hts, htd⟩ := missing_and field
  simp only [matchesKey, jsonParsePerflowKey_eq, lengthMask_mask u field.nwSrcMask hsm,
    lengthMask_mask u field.nwDstMask hdm, continue_iff, ne_eq, check_fixes hdl, check_fixes hp,
    check_covers hs, check_covers hd, check_port hts, check_port htd, and_true]
  constructor
  · rintro ⟨h₁, h₂, h₃, h₄, h₅, h₆⟩
    exact ⟨h₁, h₄, h₂, h₃, h₅, h₆⟩
  · rintro ⟨h₁, h₄, h₂, h₃, h₅, h₆⟩
    exact ⟨h₁, h₂, h₃, h₄, h₅, h₆⟩

end OFM.Shared
