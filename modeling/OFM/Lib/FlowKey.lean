import OFM.Lib.Words

/-!
# Flow keys

What it means for a packet to belong to the traffic that a key names. A key fixes some of the fields of
a header: addresses up to a prefix, and ports in one orientation or in either.
-/

namespace OFM.Lib

/-- The fields of a packet that keys are about. A packet may lack some of them. -/
structure FlowHeader where
  dlType : BitVec 16
  nwProto : Option (BitVec 8)
  nwSrc : Option (BitVec 32)
  nwDst : Option (BitVec 32)
  tpSrc : Option (BitVec 16)
  tpDst : Option (BitVec 16)
  deriving DecidableEq

/-- An address and the length of the prefix that counts. -/
structure AddressPrefix where
  address : BitVec 32
  length : Nat
  deriving DecidableEq

structure FlowKey where
  dlType : Option (BitVec 16)
  nwProto : Option (BitVec 8)
  nwSrc : Option AddressPrefix
  nwDst : Option AddressPrefix
  tpSrc : Option (BitVec 16)
  tpDst : Option (BitVec 16)
  /-- The ports may also match the other way round. -/
  flip : Bool
  deriving DecidableEq

namespace FlowKey

/-- A field that a key fixes is present and equal. -/
def Fixes {α : Type} (k field : Option α) : Prop := ∀ x ∈ k, field = some x

instance {α : Type} [DecidableEq α] (k field : Option α) : Decidable (Fixes k field) :=
  match k with
  | none => isTrue fun _ h => absurd h (Option.not_mem_none _)
  | some x => decidable_of_iff (field = some x) (by simp [Fixes])

/-- An address that a key fixes agrees with it on the prefix. -/
def Covers (k : Option AddressPrefix) (field : Option (BitVec 32)) : Prop :=
  ∀ x ∈ k, ∃ a ∈ field, SamePrefix x.length x.address a

instance (k : Option AddressPrefix) (field : Option (BitVec 32)) : Decidable (Covers k field) :=
  match k, field with
  | none, _ => isTrue fun _ h => absurd h (Option.not_mem_none _)
  | some x, none => isFalse fun h => by obtain ⟨a, ha, -⟩ := h x rfl; cases ha
  | some x, some a => decidable_of_iff (SamePrefix x.length x.address a) (by simp [Covers])

def Ports (src dst : Option (BitVec 16)) (h : FlowHeader) : Prop :=
  Fixes src h.tpSrc ∧ Fixes dst h.tpDst

instance (src dst : Option (BitVec 16)) (h : FlowHeader) : Decidable (Ports src dst h) :=
  inferInstanceAs (Decidable (_ ∧ _))

/-- The packet belongs to the traffic of the key. -/
structure Satisfied (k : FlowKey) (h : FlowHeader) : Prop where
  dlType : Fixes k.dlType (some h.dlType)
  nwProto : Fixes k.nwProto h.nwProto
  nwSrc : Covers k.nwSrc h.nwSrc
  nwDst : Covers k.nwDst h.nwDst
  ports : Ports k.tpSrc k.tpDst h ∨ k.flip = true ∧ Ports k.tpDst k.tpSrc h

instance (k : FlowKey) (h : FlowHeader) : Decidable (k.Satisfied h) :=
  decidable_of_iff (Fixes k.dlType (some h.dlType) ∧ Fixes k.nwProto h.nwProto ∧
      Covers k.nwSrc h.nwSrc ∧ Covers k.nwDst h.nwDst ∧
      (Ports k.tpSrc k.tpDst h ∨ k.flip = true ∧ Ports k.tpDst k.tpSrc h))
    ⟨fun ⟨h₁, h₂, h₃, h₄, h₅⟩ => ⟨h₁, h₂, h₃, h₄, h₅⟩,
      fun ⟨h₁, h₂, h₃, h₄, h₅⟩ => ⟨h₁, h₂, h₃, h₄, h₅⟩⟩

variable {α : Type} {x y : α} {k : Option α}

@[simp] theorem fixes_none : Fixes none k := fun _ h => absurd h (Option.not_mem_none _)

@[simp] theorem fixes_some : Fixes (some x) k ↔ k = some x := by simp [Fixes]

/-- A field that a packet lacks cannot be fixed. -/
@[simp] theorem fixes_absent : Fixes k none ↔ k = none := by
  cases k <;> simp

variable {p : AddressPrefix} {a : BitVec 32} {field : Option (BitVec 32)}

@[simp] theorem covers_none : Covers none field := fun _ h => absurd h (Option.not_mem_none _)

@[simp] theorem covers_some : Covers (some p) (some a) ↔ SamePrefix p.length p.address a := by
  simp [Covers]

@[simp] theorem covers_absent {k : Option AddressPrefix} : Covers k none ↔ k = none := by
  cases k <;> simp [Covers]

/-! ## Ports in either orientation -/

variable {h : FlowHeader}

/-- The key with its ports the other way round. -/
def swapPorts (k : FlowKey) : FlowKey := { k with tpSrc := k.tpDst, tpDst := k.tpSrc }

/-- A key that may be flipped is two keys that may not. -/
theorem satisfied_iff_flip (k : FlowKey) :
    k.Satisfied h ↔ { k with flip := false }.Satisfied h ∨
      k.flip = true ∧ { k.swapPorts with flip := false }.Satisfied h := by
  constructor
  · rintro ⟨h₁, h₂, h₃, h₄, hp | ⟨hf, hp⟩⟩
    · exact Or.inl ⟨h₁, h₂, h₃, h₄, Or.inl hp⟩
    · exact Or.inr ⟨hf, h₁, h₂, h₃, h₄, Or.inl hp⟩
  · rintro (⟨h₁, h₂, h₃, h₄, hp | ⟨hf, -⟩⟩ | ⟨hflip, h₁, h₂, h₃, h₄, hp | ⟨hf, -⟩⟩)
    · exact ⟨h₁, h₂, h₃, h₄, Or.inl hp⟩
    · cases hf
    · exact ⟨h₁, h₂, h₃, h₄, Or.inr ⟨hflip, hp⟩⟩
    · cases hf

/-! ## Prefixes that count -/

/-- Keys that say the same about packets that lack nothing. -/
structure Same (k k' : FlowKey) : Prop where
  dlType : k.dlType = k'.dlType
  nwProto : k.nwProto = k'.nwProto
  nwSrc : ∀ a, Covers k.nwSrc (some a) ↔ Covers k'.nwSrc (some a)
  nwDst : ∀ a, Covers k.nwDst (some a) ↔ Covers k'.nwDst (some a)
  tpSrc : k.tpSrc = k'.tpSrc
  tpDst : k.tpDst = k'.tpDst
  flip : k.flip = k'.flip

theorem Same.swapPorts {k k' : FlowKey} (h : Same k k') : Same k.swapPorts k'.swapPorts :=
  ⟨h.dlType, h.nwProto, h.nwSrc, h.nwDst, h.tpDst, h.tpSrc, h.flip⟩

/-- The key with other prefixes of its addresses. -/
def withPrefixes (k : FlowKey) (src dst : Nat) : FlowKey := { k with
  nwSrc := k.nwSrc.map fun p => { p with length := src }
  nwDst := k.nwDst.map fun p => { p with length := dst } }

end FlowKey

/-- A header that lacks nothing. -/
def FlowHeader.full (dlType : BitVec 16) (nwProto : BitVec 8) (nwSrc nwDst : BitVec 32)
    (tpSrc tpDst : BitVec 16) : FlowHeader :=
  ⟨dlType, some nwProto, some nwSrc, some nwDst, some tpSrc, some tpDst⟩

namespace FlowKey

theorem Same.satisfied_iff {k k' : FlowKey} (hk : Same k k') {dlType : BitVec 16}
    {nwProto : BitVec 8} {nwSrc nwDst : BitVec 32} {tpSrc tpDst : BitVec 16} :
    k.Satisfied (.full dlType nwProto nwSrc nwDst tpSrc tpDst) ↔
      k'.Satisfied (.full dlType nwProto nwSrc nwDst tpSrc tpDst) := by
  obtain ⟨hd, hn, hs, ht, hp, hq, hf⟩ := hk
  constructor
  · rintro ⟨h₁, h₂, h₃, h₄, h₅⟩
    exact ⟨hd ▸ h₁, hn ▸ h₂, (hs _).mp h₃, (ht _).mp h₄, hp ▸ hq ▸ hf ▸ h₅⟩
  · rintro ⟨h₁, h₂, h₃, h₄, h₅⟩
    exact ⟨hd ▸ h₁, hn ▸ h₂, (hs _).mpr h₃, (ht _).mpr h₄, hp ▸ hq ▸ hf ▸ h₅⟩

/-- A header of the traffic that a key names, but for the addresses. -/
theorem satisfied_sample (k : FlowKey) (nwSrc nwDst : BitVec 32) :
    k.Satisfied (.full (k.dlType.getD 0) (k.nwProto.getD 0) nwSrc nwDst (k.tpSrc.getD 0)
      (k.tpDst.getD 0)) ↔ Covers k.nwSrc (some nwSrc) ∧ Covers k.nwDst (some nwDst) := by
  have hfix : ∀ {n : Nat} (f : Option (BitVec n)), Fixes f (some (f.getD 0)) := by
    intro n f
    cases f <;> simp
  constructor
  · exact fun h => ⟨h.nwSrc, h.nwDst⟩
  · exact fun h => ⟨hfix _, hfix _, h.1, h.2, Or.inl ⟨hfix _, hfix _⟩⟩

/-- The address of a key is covered whatever prefix counts. -/
theorem exists_covered (k : Option AddressPrefix) :
    ∃ a, ∀ n, Covers (k.map fun p => { p with length := n }) (some a) := by
  cases k with
  | none => exact ⟨0, fun _ => by simp⟩
  | some p => exact ⟨p.address, fun n => by simpa using SamePrefix.refl n p.address⟩

/-- Keys that differ in a prefix that counts are told apart by some header. -/
theorem withPrefixes_satisfied_iff (k : FlowKey) {src dst src' dst' : Nat} (hs : src ≤ 32)
    (hd : dst ≤ 32) (hs' : src' ≤ 32) (hd' : dst' ≤ 32) :
    (∀ dlType nwProto nwSrc nwDst tpSrc tpDst,
      (k.withPrefixes src dst).Satisfied (.full dlType nwProto nwSrc nwDst tpSrc tpDst) ↔
      (k.withPrefixes src' dst').Satisfied (.full dlType nwProto nwSrc nwDst tpSrc tpDst)) ↔
    (k.nwSrc = none ∨ src = src') ∧ (k.nwDst = none ∨ dst = dst') := by
  constructor
  · intro h
    have hsample := fun a b => (satisfied_sample (k.withPrefixes src dst) a b).symm.trans
      ((h _ _ a b _ _).trans (satisfied_sample (k.withPrefixes src' dst') a b))
    constructor
    · cases hk : k.nwSrc with
      | none => exact Or.inl rfl
      | some p =>
          refine Or.inr (eq_of_samePrefix_iff p.address hs hs' fun a => ?_)
          obtain ⟨b, hb⟩ := exists_covered k.nwDst
          have hboth := hsample a b
          simpa [withPrefixes, hk, hb] using hboth
    · cases hk : k.nwDst with
      | none => exact Or.inl rfl
      | some p =>
          refine Or.inr (eq_of_samePrefix_iff p.address hd hd' fun a => ?_)
          obtain ⟨b, hb⟩ := exists_covered k.nwSrc
          have hboth := hsample b a
          simpa [withPrefixes, hk, hb] using hboth
  · rintro ⟨hsrc, hdst⟩ dlType nwProto nwSrc nwDst tpSrc tpDst
    have he : k.withPrefixes src dst = k.withPrefixes src' dst' := by
      rcases hsrc with hsrc | rfl <;> rcases hdst with hdst | rfl <;> simp [withPrefixes, *]
    rw [he]

end FlowKey

end OFM.Lib
