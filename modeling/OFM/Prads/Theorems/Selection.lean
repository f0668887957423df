import OFM.Prads.Lemmas.Perflow
import OFM.Shared.Theorems.Filters

/-!
# Which connections a key selects

The three loops over the table of connections against the meaning of the key.
-/

namespace OFM.Prads
open OFM.Lib OFM.Shared

/-- The fields of a connection that keys are about. -/
def Connection.header (c : Connection) : FlowHeader :=
  .full (swap16 c.hwProto) c.proto (swap32 c.sIp.word0) (swap32 c.dIp.word0) (swap16 c.sPort)
    (swap16 c.dPort)

/-! ## The checks -/

/-- The address of a connection under a mask, against the whole address of a key. -/
def MaskedCovers (u : Undefined) (k : Option AddressPrefix) (address : BitVec 32) : Prop :=
  ∀ x ∈ k, lengthMask u x.length &&& swap32 address = swap32 x.address

structure GetSelects (u : Undefined) (k : FlowKey) (c : Connection) : Prop where
  dlType : FlowKey.Fixes k.dlType (some (swap16 c.hwProto))
  nwProto : FlowKey.Fixes k.nwProto (some c.proto)
  tpSrc : ∀ x ∈ k.tpSrc, swap16 c.sPort = x ∨ k.flip = true ∧ swap16 c.dPort = x
  tpDst : ∀ x ∈ k.tpDst, swap16 c.dPort = x ∨ k.flip = true ∧ swap16 c.sPort = x
  nwSrc : MaskedCovers u k.nwSrc (swap32 c.sIp.word0)
  nwDst : MaskedCovers u k.nwDst (swap32 c.dIp.word0)

structure DelSelects (k : FlowKey) (c : Connection) : Prop where
  dlType : FlowKey.Fixes k.dlType (some (swap16 c.hwProto))
  nwProto : FlowKey.Fixes k.nwProto (some c.proto)
  tpSrc : ∀ x ∈ k.tpSrc, swap16 c.sPort = x ∨ swap16 c.dPort = x
  nwSrc : FlowKey.Fixes (k.nwSrc.map AddressPrefix.address) (some (swap32 c.sIp.word0))
  nwDst : FlowKey.Fixes (k.nwDst.map AddressPrefix.address) (some (swap32 c.dIp.word0))

section Checks

variable {α : Type} {o : Option α} {compared : Prop}

theorem check_masked {u : Undefined} {o : Option Controller.JavaString} {length : Nat} {v : BitVec 32}
    (hc : compared ↔ o.isSome = true) :
    ¬ (compared ∧ ¬ lengthMask u length &&& v = (o.map readAddress).getD 0) ↔
      MaskedCovers u (o.map fun text => ⟨(inetAton text).getD 0, length⟩) (swap32 v) := by
  rw [check_iff _ (fun text => lengthMask u length &&& v = readAddress text) hc
    fun x hx => by rw [Option.mem_def.mp hx]; rfl]
  simp [MaskedCovers, readAddress]

theorem check_address {o : Option Controller.JavaString} {length : Nat} {v : BitVec 32}
    (hc : compared ↔ o.isSome = true) :
    ¬ (compared ∧ ¬ v = (o.map readAddress).getD 0) ↔
      FlowKey.Fixes ((o.map fun text => (⟨(inetAton text).getD 0, length⟩ : AddressPrefix)).map
        AddressPrefix.address) (some (swap32 v)) := by
  rw [check_iff _ (fun text => v = readAddress text) hc
    fun x hx => by rw [Option.mem_def.mp hx]; rfl]
  cases o with
  | none => simp
  | some text => simpa [readAddress] using eq_swap32_iff

theorem check_either {f : α → BitVec 16} {v w : BitVec 16} (hc : compared ↔ o.isSome = true) :
    ¬ (compared ∧ v ≠ (o.map fun x => swap16 (f x)).getD 0 ∧
        w ≠ (o.map fun x => swap16 (f x)).getD 0) ↔
      ∀ x ∈ o.map f, swap16 v = x ∨ swap16 w = x := by
  rw [← not_or, check_iff _ (fun x => swap16 v = f x ∨ swap16 w = f x) hc fun x hx => by
    rw [Option.mem_def.mp hx, ← eq_swap16_iff, ← eq_swap16_iff]; rfl]
  simp

end Checks

theorem getSelects_iff (u : Undefined) (field : Controller.PerflowKey) (c : Connection) :
    getSelects u (jsonParsePerflowKey field) c = true ↔ GetSelects u (flowKey field) c := by
  obtain ⟨hdl, hs, hsm, hd, hdm, hp, hts, htd⟩ := missing_and field
  simp only [getSelects, jsonParsePerflowKey_eq, lengthMask_mask u field.nwSrcMask hsm,
    lengthMask_mask u field.nwDstMask hdm, continue_iff, ne_eq, check_field hdl, check_field hp,
    check_masked hs, check_masked hd, and_true]
  rw [← ne_eq, check_flipped hts, check_flipped htd]
  constructor
  · rintro ⟨h₁, h₂, h₃, h₄, h₅, h₆⟩
    exact ⟨h₁, h₂, h₃, h₄, h₅, h₆⟩
  · rintro ⟨h₁, h₂, h₃, h₄, h₅, h₆⟩
    exact ⟨h₁, h₂, h₃, h₄, h₅, h₆⟩

theorem delSelects_iff (field : Controller.PerflowKey) (c : Connection) :
    delSelects (jsonParsePerflowKey field) c = true ↔ DelSelects (flowKey field) c := by
  obtain ⟨hdl, hs, hsm, hd, hdm, hp, hts, htd⟩ := missing_and field
  simp only [delSelects, jsonParsePerflowKey_eq, continue_iff, check_either hts]
  simp only [ne_eq, check_field hdl, check_field hp, and_true]
  rw [check_address hs, check_address hd]
  constructor
  · rintro ⟨h₁, h₂, h₃, h₄, h₅⟩
    exact ⟨h₁, h₂, h₃, h₄, h₅⟩
  · rintro ⟨h₁, h₂, h₃, h₄, h₅⟩
    exact ⟨h₁, h₂, h₃, h₄, h₅⟩

/-! ## Plain keys -/

/-- Addresses without a prefix, no destination port, and a source port only with the flip. -/
structure Plain (k : FlowKey) : Prop where
  nwSrc : ∀ x ∈ k.nwSrc, x.length = 32
  nwDst : ∀ x ∈ k.nwDst, x.length = 32
  tpSrc : k.tpSrc.isSome = true → k.flip = true
  tpDst : k.tpDst = none

variable {k : FlowKey} {c : Connection}

theorem plain_ports (hs : k.tpSrc.isSome = true → k.flip = true) (hd : k.tpDst = none) :
    (FlowKey.Ports k.tpSrc k.tpDst c.header ∨ k.flip = true ∧ FlowKey.Ports k.tpDst k.tpSrc c.header) ↔
      ∀ x ∈ k.tpSrc, swap16 c.sPort = x ∨ swap16 c.dPort = x := by
  cases hk : k.tpSrc with
  | none => simp [FlowKey.Ports, hd]
  | some x =>
      have hflip := hs (by simp [hk])
      simp [FlowKey.Ports, hd, hflip, Connection.header, FlowHeader.full]

theorem satisfied_plain (hs : k.tpSrc.isSome = true → k.flip = true) (hd : k.tpDst = none) :
    k.Satisfied c.header ↔ FlowKey.Fixes k.dlType (some (swap16 c.hwProto)) ∧
      FlowKey.Fixes k.nwProto (some c.proto) ∧ FlowKey.Covers k.nwSrc (some (swap32 c.sIp.word0)) ∧
      FlowKey.Covers k.nwDst (some (swap32 c.dIp.word0)) ∧
      ∀ x ∈ k.tpSrc, swap16 c.sPort = x ∨ swap16 c.dPort = x := by
  rw [← plain_ports hs hd]
  exact ⟨fun ⟨h₁, h₂, h₃, h₄, h₅⟩ => ⟨h₁, h₂, h₃, h₄, h₅⟩,
    fun ⟨h₁, h₂, h₃, h₄, h₅⟩ => ⟨h₁, h₂, h₃, h₄, h₅⟩⟩

theorem maskedCovers_whole {u : Undefined} {o : Option AddressPrefix} (h : ∀ x ∈ o, x.length = 32)
    {v : BitVec 32} : MaskedCovers u o v ↔ FlowKey.Covers o (some v) := by
  cases o with
  | none => simp [MaskedCovers]
  | some x =>
      have hx := h x rfl
      have hmask : lengthMask u x.length = BitVec.allOnes 32 := by
        rw [hx]
        exact lengthMask_eq (by decide) (by decide)
      simp only [MaskedCovers, Option.mem_def, Option.some.injEq, forall_eq', hmask,
        BitVec.allOnes_and, FlowKey.covers_some, swap32_inj]
      rw [samePrefix_iff_eq (Nat.le_of_eq hx.symm), eq_comm]

theorem fixes_whole {o : Option AddressPrefix} (h : ∀ x ∈ o, x.length = 32) {v : BitVec 32} :
    FlowKey.Fixes (o.map AddressPrefix.address) (some v) ↔ FlowKey.Covers o (some v) := by
  cases o with
  | none => simp
  | some x =>
      rw [Option.map_some, FlowKey.fixes_some, FlowKey.covers_some,
        samePrefix_iff_eq (Nat.le_of_eq (h x rfl).symm), Option.some.injEq, eq_comm]

theorem Plain.getSelects (h : Plain k) (u : Undefined) : GetSelects u k c ↔ k.Satisfied c.header := by
  rw [satisfied_plain h.tpSrc h.tpDst]
  constructor
  · rintro ⟨h₁, h₂, h₃, -, h₅, h₆⟩
    refine ⟨h₁, h₂, (maskedCovers_whole h.nwSrc).mp h₅, (maskedCovers_whole h.nwDst).mp h₆, ?_⟩
    exact fun x hx => (h₃ x hx).imp_right And.right
  · rintro ⟨h₁, h₂, h₅, h₆, h₃⟩
    refine ⟨h₁, h₂, fun x hx => ?_, fun x hx => ?_, (maskedCovers_whole h.nwSrc).mpr h₅,
      (maskedCovers_whole h.nwDst).mpr h₆⟩
    · have hflip := h.tpSrc (by rw [Option.mem_def.mp hx]; rfl)
      exact (h₃ x hx).imp_right fun hx => ⟨hflip, hx⟩
    · rw [h.tpDst] at hx
      cases hx

theorem Plain.delSelects (h : Plain k) : DelSelects k c ↔ k.Satisfied c.header := by
  rw [satisfied_plain h.tpSrc h.tpDst]
  constructor
  · rintro ⟨h₁, h₂, h₃, h₄, h₅⟩
    exact ⟨h₁, h₂, (fixes_whole h.nwSrc).mp h₄, (fixes_whole h.nwDst).mp h₅, h₃⟩
  · rintro ⟨h₁, h₂, h₄, h₅, h₃⟩
    exact ⟨h₁, h₂, h₃, (fixes_whole h.nwSrc).mpr h₄, (fixes_whole h.nwDst).mpr h₅⟩

/-! ## Connections that tell a key apart -/

/-- An IPv4 connection with the fields of a header. -/
def ofHeader (dlType : BitVec 16) (nwProto : BitVec 8) (nwSrc nwDst : BitVec 32)
    (tpSrc tpDst : BitVec 16) : Connection where
  startTime := 0
  lastPktTime := 0
  cxid := 1
  af := .inet
  hwProto := swap16 dlType
  proto := nwProto
  sIp := ⟨swap32 nwSrc, 0, 0, 0⟩
  dIp := ⟨swap32 nwDst, 0, 0, 0⟩
  sPort := swap16 tpSrc
  dPort := swap16 tpDst
  sTotalPkts := 1
  sTotalBytes := 0
  dTotalPkts := 0
  dTotalBytes := 0
  sTcpFlags := 0
  dTcpFlags := 0
  cAsset := none
  sAsset := none
  gotten := 0

theorem header_ofHeader (dlType : BitVec 16) (nwProto : BitVec 8) (nwSrc nwDst : BitVec 32)
    (tpSrc tpDst : BitVec 16) : (ofHeader dlType nwProto nwSrc nwDst tpSrc tpDst).header =
      .full dlType nwProto nwSrc nwDst tpSrc tpDst := by
  simp [Connection.header, ofHeader]

/-- The address of a key. -/
def ownAddress (o : Option AddressPrefix) : BitVec 32 := (o.map AddressPrefix.address).getD 0

/-- A connection with the fields of a key, but for addresses and ports. -/
def sampleOf (k : FlowKey) (nwSrc nwDst : BitVec 32) (tpSrc tpDst : BitVec 16) : Connection :=
  ofHeader (k.dlType.getD 0) (k.nwProto.getD 0) nwSrc nwDst tpSrc tpDst

/-- The checks agree with the meaning of a key on IPv4 connections. -/
structure Agrees (k : FlowKey) : Prop where
  get : ∀ u c, c.af = .inet → (GetSelects u k c ↔ k.Satisfied c.header)
  del : ∀ c, c.af = .inet → (DelSelects k c ↔ k.Satisfied c.header)

theorem fixes_own {n : Nat} (o : Option (BitVec n)) : FlowKey.Fixes o (some (o.getD 0)) := by
  cases o <;> simp

theorem fixes_ownAddress (o : Option AddressPrefix) :
    FlowKey.Fixes (o.map AddressPrefix.address) (some (ownAddress o)) := fixes_own _

theorem sampleOf_satisfied (nwSrc nwDst : BitVec 32) :
    k.Satisfied (sampleOf k nwSrc nwDst (k.tpSrc.getD 0) (k.tpDst.getD 0)).header ↔
      FlowKey.Covers k.nwSrc (some nwSrc) ∧ FlowKey.Covers k.nwDst (some nwDst) := by
  rw [sampleOf, header_ofHeader]
  exact FlowKey.satisfied_sample k nwSrc nwDst

theorem sampleOf_del (nwSrc nwDst : BitVec 32) (tpSrc tpDst : BitVec 16) :
    DelSelects k (sampleOf k nwSrc nwDst tpSrc tpDst) ↔
      (∀ x ∈ k.tpSrc, tpSrc = x ∨ tpDst = x) ∧
      FlowKey.Fixes (k.nwSrc.map AddressPrefix.address) (some nwSrc) ∧
      FlowKey.Fixes (k.nwDst.map AddressPrefix.address) (some nwDst) := by
  constructor
  · rintro ⟨-, -, h₃, h₄, h₅⟩
    simpa [sampleOf, ofHeader] using And.intro h₃ (And.intro h₄ h₅)
  · rintro ⟨h₃, h₄, h₅⟩
    exact ⟨by simpa [sampleOf, ofHeader] using fixes_own k.dlType,
      by simpa [sampleOf, ofHeader] using fixes_own k.nwProto, by simpa [sampleOf, ofHeader] using h₃,
      by simpa [sampleOf, ofHeader] using h₄, by simpa [sampleOf, ofHeader] using h₅⟩

/-- An address under a prefix is found by its own bits only. -/
theorem Agrees.whole_src (h : Agrees k) : ∀ x ∈ k.nwSrc, 32 ≤ x.length := by
  intro x hx
  by_contra hlt
  obtain ⟨b, hsame, hdiff⟩ := exists_differs_at x.address (Nat.lt_of_not_le hlt)
  have hsat := (sampleOf_satisfied (k := k) b (ownAddress k.nwDst)).mpr
    ⟨by rw [Option.mem_def.mp hx, FlowKey.covers_some]; exact hsame, covers_own⟩
  obtain ⟨-, hsrc, -⟩ := (sampleOf_del _ _ _ _).mp ((h.del _ rfl).mpr hsat)
  rw [Option.mem_def.mp hx, Option.map_some, FlowKey.fixes_some] at hsrc
  exact hdiff (Option.some.inj hsrc ▸ SamePrefix.refl _ _)

theorem Agrees.whole_dst (h : Agrees k) : ∀ x ∈ k.nwDst, 32 ≤ x.length := by
  intro x hx
  by_contra hlt
  obtain ⟨b, hsame, hdiff⟩ := exists_differs_at x.address (Nat.lt_of_not_le hlt)
  have hsat := (sampleOf_satisfied (k := k) (ownAddress k.nwSrc) b).mpr
    ⟨covers_own, by rw [Option.mem_def.mp hx, FlowKey.covers_some]; exact hsame⟩
  obtain ⟨-, -, hdst⟩ := (sampleOf_del _ _ _ _).mp ((h.del _ rfl).mpr hsat)
  rw [Option.mem_def.mp hx, Option.map_some, FlowKey.fixes_some] at hdst
  exact hdiff (Option.some.inj hdst ▸ SamePrefix.refl _ _)

theorem sampleOf_get (u : Undefined) (nwSrc nwDst : BitVec 32) :
    GetSelects u k (sampleOf k nwSrc nwDst (k.tpSrc.getD 0) (k.tpDst.getD 0)) ↔
      MaskedCovers u k.nwSrc nwSrc ∧ MaskedCovers u k.nwDst nwDst := by
  have hown : ∀ (o : Option (BitVec 16)), ∀ x ∈ o, o.getD 0 = x := by
    intro o x hx
    rw [Option.mem_def.mp hx]
    rfl
  constructor
  · rintro ⟨-, -, -, -, h₅, h₆⟩
    simpa [sampleOf, ofHeader] using And.intro h₅ h₆
  · rintro ⟨h₅, h₆⟩
    refine ⟨by simpa [sampleOf, ofHeader] using fixes_own k.dlType,
      by simpa [sampleOf, ofHeader] using fixes_own k.nwProto, fun x hx => Or.inl ?_,
      fun x hx => Or.inl ?_, by simpa [sampleOf, ofHeader] using h₅,
      by simpa [sampleOf, ofHeader] using h₆⟩
    · simpa [sampleOf, ofHeader] using hown _ x hx
    · simpa [sampleOf, ofHeader] using hown _ x hx

/-- Nothing is left of an address when the mask has come out as 0. -/
theorem maskedCovers_nothing {o : Option AddressPrefix} (hfit : ∀ x ∈ o, x.length < 2 ^ 32)
    (hlong : ∀ x ∈ o, 32 < x.length) {v : BitVec 32} :
    MaskedCovers (.const .zero 0#32) o v ↔ ∀ x ∈ o, x.address = 0 := by
  have hzero : ∀ a : BitVec 32, 0#32 = swap32 a ↔ a = 0 := by
    intro a
    have he : (0#32 : BitVec 32) = swap32 0 := by decide
    rw [he, swap32_inj, eq_comm]
  refine forall₂_congr fun x hx => ?_
  rw [lengthMask_undefined (Or.inr (hlong x hx)) (hfit x hx), ← hzero]
  exact Iff.of_eq (congrArg (· = swap32 x.address) BitVec.zero_and)

/-- Whatever the lengths are, the address of the key is let through under a mask that is 0, if a long
prefix means address 0. -/
theorem maskedCovers_own {o : Option AddressPrefix} (hfit : ∀ x ∈ o, x.length < 2 ^ 32)
    (hwhole : ∀ x ∈ o, 32 ≤ x.length) (hzero : ∀ x ∈ o, 32 < x.length → x.address = 0) :
    MaskedCovers (.const .zero 0#32) o (ownAddress o) := by
  cases o with
  | none => exact fun x hx => absurd hx (Option.not_mem_none x)
  | some x =>
      rcases Nat.lt_or_eq_of_le (hwhole x rfl) with hlt | heq
      · refine (maskedCovers_nothing hfit (fun y hy => ?_)).mpr fun y hy => ?_
        · obtain rfl := Option.some.inj hy
          exact hlt
        · obtain rfl := Option.some.inj hy
          exact hzero x rfl hlt
      · refine (maskedCovers_whole fun y hy => ?_).mpr covers_own
        obtain rfl := Option.some.inj hy
        exact heq.symm

theorem add_one_ne (x : BitVec 16) : x + 1 ≠ x := by
  intro h
  have hn := congrArg BitVec.toNat h
  have hone : (1 : BitVec 16).toNat = 1 := rfl
  have hlt := x.isLt
  rw [BitVec.toNat_add, hone] at hn
  omega

theorem exists_other (x y : BitVec 16) : ∃ d, d ≠ x ∧ d ≠ y := by
  by_cases h : x + 1 = y
  · refine ⟨y + 1, fun he => ?_, add_one_ne y⟩
    have hn := congrArg BitVec.toNat (h ▸ he : x + 1 + 1 = x)
    have hone : (1 : BitVec 16).toNat = 1 := rfl
    have hlt := x.isLt
    rw [BitVec.toNat_add, BitVec.toNat_add, hone] at hn
    omega
  · exact ⟨x + 1, add_one_ne x, h⟩

theorem Agrees.plain (h : Agrees k) (hfit : LengthsFit k) : Plain k := by
  have hlong_src : ∀ x ∈ k.nwSrc, 32 < x.length → x.address = 0 := by
    intro x hx hlt
    have hget := (h.get (.const .zero 0#32) _ rfl).mpr
      ((sampleOf_satisfied (ownAddress k.nwSrc) (ownAddress k.nwDst)).mpr ⟨covers_own, covers_own⟩)
    refine (maskedCovers_nothing hfit.1 fun y hy => ?_).mp ((sampleOf_get _ _ _).mp hget).1 x hx
    rwa [← Option.some.inj (hx.symm.trans hy)]
  have hlong_dst : ∀ x ∈ k.nwDst, 32 < x.length → x.address = 0 := by
    intro x hx hlt
    have hget := (h.get (.const .zero 0#32) _ rfl).mpr
      ((sampleOf_satisfied (ownAddress k.nwSrc) (ownAddress k.nwDst)).mpr ⟨covers_own, covers_own⟩)
    refine (maskedCovers_nothing hfit.2 fun y hy => ?_).mp ((sampleOf_get _ _ _).mp hget).2 x hx
    rwa [← Option.some.inj (hx.symm.trans hy)]
  have htd : k.tpDst = none := by
    by_contra hne
    obtain ⟨y, hy⟩ := Option.ne_none_iff_exists'.mp hne
    obtain ⟨d, hdx, hdy⟩ := exists_other (k.tpSrc.getD (y + 1)) y
    have hdel := (sampleOf_del (k := k) (ownAddress k.nwSrc) (ownAddress k.nwDst)
      (k.tpSrc.getD (y + 1)) d).mpr ⟨fun x hx => Or.inl (by rw [Option.mem_def.mp hx]; rfl),
        fixes_ownAddress _, fixes_ownAddress _⟩
    have hports := ((h.del _ rfl).mp hdel).ports
    rw [sampleOf, header_ofHeader] at hports
    simp only [FlowKey.Ports, FlowHeader.full, hy, FlowKey.fixes_some, Option.some.injEq] at hports
    rcases hports with ⟨-, he⟩ | ⟨-, he, hfix⟩
    · exact hdy he
    · cases hk : k.tpSrc with
      | none =>
          rw [hk] at he
          exact add_one_ne y he
      | some x =>
          rw [hk, FlowKey.fixes_some] at hfix
          rw [hk] at hdx
          exact hdx (Option.some.inj hfix)
  refine ⟨fun x hx => ?_, fun x hx => ?_, fun hsome => ?_, htd⟩
  · by_contra hne
    have hlt : 32 < x.length := Nat.lt_of_le_of_ne (h.whole_src x hx) (Ne.symm hne)
    have hget := (sampleOf_get (.const .zero 0#32) 1 (ownAddress k.nwDst)).mpr
      ⟨(maskedCovers_nothing hfit.1 fun y hy => by rwa [← Option.some.inj (hx.symm.trans hy)]).mpr
        fun y hy => by rw [← Option.some.inj (hx.symm.trans hy)]; exact hlong_src x hx hlt,
        maskedCovers_own hfit.2 h.whole_dst hlong_dst⟩
    have hsat := ((sampleOf_satisfied _ _).mp ((h.get _ _ rfl).mp hget)).1
    rw [Option.mem_def.mp hx, FlowKey.covers_some, hlong_src x hx hlt,
      samePrefix_iff_eq (Nat.le_of_lt hlt)] at hsat
    exact absurd hsat (by decide)
  · by_contra hne
    have hlt : 32 < x.length := Nat.lt_of_le_of_ne (h.whole_dst x hx) (Ne.symm hne)
    have hget := (sampleOf_get (.const .zero 0#32) (ownAddress k.nwSrc) 1).mpr
      ⟨maskedCovers_own hfit.1 h.whole_src hlong_src,
        (maskedCovers_nothing hfit.2 fun y hy => by rwa [← Option.some.inj (hx.symm.trans hy)]).mpr
        fun y hy => by rw [← Option.some.inj (hx.symm.trans hy)]; exact hlong_dst x hx hlt⟩
    have hsat := ((sampleOf_satisfied _ _).mp ((h.get _ _ rfl).mp hget)).2
    rw [Option.mem_def.mp hx, FlowKey.covers_some, hlong_dst x hx hlt,
      samePrefix_iff_eq (Nat.le_of_lt hlt)] at hsat
    exact absurd hsat (by decide)
  · obtain ⟨x, hx⟩ := Option.isSome_iff_exists.mp hsome
    by_contra hflip
    have hdel := (sampleOf_del (k := k) (ownAddress k.nwSrc) (ownAddress k.nwDst) (x + 1) x).mpr
      ⟨fun y hy => Or.inr (Option.some.inj (hx.symm.trans hy)), fixes_ownAddress _, fixes_ownAddress _⟩
    rcases ((h.del _ rfl).mp hdel).ports with ⟨hfix, -⟩ | ⟨hf, -⟩
    · rw [sampleOf, header_ofHeader, hx, FlowKey.fixes_some] at hfix
      exact add_one_ne x (Option.some.inj hfix)
    · exact hflip hf

/-! ## Tables -/

/-- A table of IPv4 connections. -/
def Tables.Ipv4 (t : Tables) : Prop := ∀ h, ∀ c ∈ t.bucket h, c.af = .inet

section Tables

variable [Serializer] [Macros]

/-- The connections that satisfy the key of a message. -/
def satisfying (field : Controller.PerflowKey) (t : Tables) : List Connection :=
  t.connections.filter fun c => decide ((flowKey field).Satisfied c.header)

/-- The get returns and sends the connections that satisfy the key, and the two deletions select
them. -/
def SelectsExactly (field : Controller.PerflowKey) : Prop :=
  ∀ (u : Undefined) (id : BitVec 32) (raiseEvents : Bool) (t : Tables), t.Ipv4 →
    (∃ t', localGetPerflow u (jsonParsePerflowKey field) id raiseEvents t =
      .ok (t', (satisfying field t).mapIdx (sentOf u id raiseEvents))) ∧
    (localDelPerflow (jsonParsePerflowKey field) t).2 = satisfying field t ∧
    (localDelMultiflow (jsonParsePerflowKey field) id t).2 = satisfying field t

/-- A table of one connection. -/
def single (c : Connection) : Tables := ⟨fun h => if h = 0 then [c] else [], 0, 0⟩

omit [Serializer] in
theorem bucketSize_pos : 0 < Macros.bucketSize := Nat.zero_lt_of_lt (Macros.cxtHash4_lt 0 0 0 0 0)

omit [Serializer] in
theorem connections_single (c : Connection) : (single c).connections = [c] := by
  obtain ⟨n, hn⟩ := Nat.exists_eq_succ_of_ne_zero (Nat.ne_of_gt bucketSize_pos)
  rw [Tables.connections, hn, List.range_succ_eq_map]
  simp [single]

omit [Serializer] in
theorem localDelPerflow_eq (key : PerflowKey) (t : Tables) :
    (localDelPerflow key t).2 = t.connections.filter (delSelects key) := by
  rw [Tables.connections, List.filter_flatMap]
  rfl

omit [Serializer] in
theorem localDelMultiflow_eq (key : PerflowKey) (id : BitVec 32) (t : Tables) :
    (localDelMultiflow key id t).2 = t.connections.filter (delSelects key) := by
  rw [Tables.connections, List.filter_flatMap]
  rfl

theorem SelectsExactly.agrees (hser : AlwaysSerializes) {field : Controller.PerflowKey}
    (h : SelectsExactly field) : Agrees (flowKey field) := by
  have hipv4 : ∀ {c : Connection}, c.af = .inet → (single c).Ipv4 := by
    intro c hc n c' hc'
    by_cases hn : n = 0
    · subst hn
      rw [List.mem_singleton.mp hc', hc]
    · simp [single, hn] at hc'
  constructor
  · intro u c hc
    obtain ⟨⟨t', hget⟩, -, -⟩ := h u 1 true (single c) (hipv4 hc)
    rw [localGetPerflow_eq hser, satisfying, connections_single] at hget
    have hlength := congrArg List.length (congrArg Prod.snd (Except.ok.inj hget))
    rw [← getSelects_iff]
    cases hg : getSelects u (jsonParsePerflowKey field) c <;>
      by_cases hs : (flowKey field).Satisfied c.header <;> simp_all
  · intro c hc
    obtain ⟨-, hdel, -⟩ := h ⟨.zero, fun _ => 0⟩ 1 true (single c) (hipv4 hc)
    rw [localDelPerflow_eq, satisfying, connections_single] at hdel
    have hlength := congrArg List.length hdel
    rw [← delSelects_iff]
    cases hg : delSelects (jsonParsePerflowKey field) c <;>
      by_cases hs : (flowKey field).Satisfied c.header <;> simp_all

/-- The three loops select the connections that satisfy a key, in every table of IPv4 connections, if
and only if the key is plain. -/
theorem selectsExactly_iff (hser : AlwaysSerializes) (field : Controller.PerflowKey) :
    SelectsExactly field ↔ Plain (flowKey field) := by
  constructor
  · exact fun h => (h.agrees hser).plain (flowKey_fit field)
  · intro h u id raiseEvents t _
    have hget : t.connections.filter (getSelects u (jsonParsePerflowKey field)) = satisfying field t := by
      refine List.filter_congr fun c _ => ?_
      rw [Bool.eq_iff_iff, decide_eq_true_iff, getSelects_iff]
      exact h.getSelects u
    have hdel : t.connections.filter (delSelects (jsonParsePerflowKey field)) = satisfying field t := by
      refine List.filter_congr fun c _ => ?_
      rw [Bool.eq_iff_iff, decide_eq_true_iff, delSelects_iff]
      exact h.delSelects
    refine ⟨⟨t.gotten u (jsonParsePerflowKey field) id raiseEvents (List.range Macros.bucketSize), ?_⟩, ?_, ?_⟩
    · rw [localGetPerflow_eq hser, hget]
    · rw [localDelPerflow_eq, hdel]
    · rw [localDelMultiflow_eq, hdel]

end Tables

/-! ## Samples -/

/-- The connections from `10.0.0.1` and its neighbours. -/
def prefixKey (mask : Option Int) : Controller.PerflowKey :=
  { Controller.PerflowKey.new with nwSrc := some sampleText, nwSrcMask := mask }

theorem selectsExactly_iff_sample : letI := plainMacros; letI := plainSerializer
    SelectsExactly (prefixKey none) ↔ Plain (flowKey (prefixKey none)) := by
  let _ := plainMacros
  let _ := plainSerializer
  exact selectsExactly_iff (fun c => rfl) (prefixKey none)

/-- With a mask of 24, the get does not find the connection from `10.0.0.1`. -/
theorem not_selectsExactly_prefix : letI := plainMacros; letI := plainSerializer
    ¬ SelectsExactly (prefixKey (some 24)) := by
  let _ := plainMacros
  let _ := plainSerializer
  intro h
  have hplain := (SelectsExactly.agrees (fun c => rfl) h).plain (flowKey_fit _)
  exact absurd (hplain.nwSrc ⟨0x0a000001, 24⟩ (by decide)) (by decide)

end OFM.Prads
