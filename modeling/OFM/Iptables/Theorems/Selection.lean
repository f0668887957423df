import OFM.Iptables.Perflow
import OFM.Shared.PerflowCalls
import OFM.Shared.Theorems.Filters

/-!
# The chunks of a get, and which connections a key selects

What a get of connections sends and returns, and what its ack says of it. The filters and the callbacks of gets
and deletions against the meaning of the key.
-/

namespace OFM.Iptables
open OFM.Lib
open OFM.Shared (PerflowKey Undefined)
open OFM.Lib OFM.Shared

variable (nfct : Nfct) (u : Undefined) (key : PerflowKey) (id : BitVec 32) (table : List Entry)

/-- The connections that pass the filter and the callback. -/
def matching : List Entry := (nfct.dumped u key table).filter (callbackMatches key)

/-- A get sends one chunk for each of these connections, with its id and counted from 0 on, and returns their
number. -/
def SendsMatching : Prop :=
  localGetPerflow nfct u key id table =
    ((matching nfct u key table).mapIdx (chunkOf u key id), ((matching nfct u key table).length : Int))

/-- Every call of the library works. -/
structure Nfct.Works : Prop where
  nfctOpen : nfct.nfctOpen = true
  filterCreate : nfct.filterCreate = true
  filterAttach : nfct.filterAttach = true
  query : nfct.query = none

variable {nfct} {key}

/-- What is made up comes behind, and the count is set anew for it. -/
theorem localGetPerflow_eq (hworks : nfct.Works) (hfamily : queryFamily key ≠ none) :
    localGetPerflow nfct u key id table =
      ((matching nfct u key table).mapIdx (chunkOf u key id) ++ (sendState u).1, 10) := by
  rw [localGetPerflow, hworks.nfctOpen, hworks.filterCreate, hworks.filterAttach, hworks.query,
    if_neg hfamily]
  simp only [Bool.not_true, Bool.false_eq_true, if_false, getCallbacks_eq, Nat.zero_add]
  rfl

/-- Where it does not come to that, -1 is returned. -/
theorem localGetPerflow_failed (h : ¬ (nfct.Works ∧ queryFamily key ≠ none)) :
    (localGetPerflow nfct u key id table).2 = -1 := by
  rw [localGetPerflow]
  split_ifs with hopen hcreate hfamily hattach
  · rfl
  · rfl
  · rfl
  · rfl
  · split
    · rfl
    · rename_i hquery
      refine absurd ⟨⟨?_, ?_, ?_, hquery⟩, hfamily⟩ h
      · simpa using hopen
      · simpa using hcreate
      · simpa using hattach

variable (nfct) (key)

/-- No get sends what matches and nothing else. -/
theorem not_sendsMatching : ¬ SendsMatching nfct u key id table := by
  intro h
  by_cases hgood : nfct.Works ∧ queryFamily key ≠ none
  · rw [SendsMatching, localGetPerflow_eq u id table hgood.1 hgood.2] at h
    have hlength := congrArg (fun out => out.1.length) h
    simp [sendState] at hlength
  · have hresult := localGetPerflow_failed u id table hgood
    rw [h] at hresult
    dsimp only at hresult
    omega

/-- A library whose calls work, with the kernel's families. -/
def workingNfct : Nfct := ⟨true, true, true, none, fun asked family => asked = family⟩

/-- A get for all IPv4 connections. -/
def ipv4Key : PerflowKey :=
  { PerflowKey.zero with dlType := ethertypeIp, wildcards := Shared.wildcardAll &&& ~~~Shared.wildcardDlType }

/-- Nine chunks come of a table without connections. -/
theorem not_sendsMatching_empty :
    ¬ ∀ nfct u key id table, SendsMatching nfct u key id table := by
  intro h
  have hsent := h workingNfct ⟨.zero, fun _ => 0⟩ ipv4Key 7 []
  have hlength := congrArg (fun out => out.1.length) hsent
  exact absurd hlength (by decide)

/-! ## The ack -/

/-- The messages with state that have the id of the get. -/
def ownChunks : Nat := ((localGetPerflow nfct u key id table).1.filter fun chunk => chunk.id = id).length

/-- A get is answered by the number of its messages only if there happen to be ten of them. -/
theorem ownChunks_eq_result_iff (hworks : nfct.Works) (hfamily : queryFamily key ≠ none) :
    (ownChunks nfct u key id table : Int) = (localGetPerflow nfct u key id table).2 ↔
      (matching nfct u key table).length = if id = 1 then 1 else 10 := by
  have hown : ((matching nfct u key table).mapIdx (chunkOf u key id)).filter (fun chunk => chunk.id = id) =
      (matching nfct u key table).mapIdx (chunkOf u key id) := by
    refine List.filter_eq_self.mpr fun chunk hchunk => ?_
    obtain ⟨i, hi, rfl⟩ := List.mem_mapIdx.mp hchunk
    exact decide_eq_true rfl
  have hids : ∀ chunk ∈ (sendState u).1, chunk.id = 1 := by
    intro chunk hchunk
    obtain ⟨i, -, rfl⟩ := List.mem_map.mp hchunk
    rfl
  have hmade : ((sendState u).1.filter fun chunk => chunk.id = id).length = if id = 1 then 9 else 0 := by
    by_cases hid : id = 1
    · rw [if_pos hid, List.filter_eq_self.mpr fun chunk h => decide_eq_true ((hids chunk h).trans hid.symm)]
      rfl
    · rw [if_neg hid, List.length_eq_zero_iff, List.filter_eq_nil_iff]
      exact fun chunk h => by simpa [hids chunk h] using Ne.symm hid
  rw [ownChunks, localGetPerflow_eq u id table hworks hfamily, List.filter_append, List.length_append, hown,
    hmade, List.length_mapIdx]
  split <;> omega

/-! ## Selection -/

/-- The fields of an IPv4 connection that keys are about. -/
def Entry.header (ct : Entry) : FlowHeader :=
  ⟨ethertypeIp, some ct.l4proto, some (swap32 ct.ipv4Src), some (swap32 ct.ipv4Dst),
    ct.portSrc.map swap16, ct.portDst.map swap16⟩

/-- The key with its ports in one orientation only. -/
def reference (field : Controller.PerflowKey) : FlowKey := { flowKey field with flip := false }

/-- The mask of the source, by which both addresses are compared. -/
def sourceLength (field : Controller.PerflowKey) : Nat :=
  (field.nwSrcMask.map fun n => (jsonObjectGetInt n).toNat).getD 32

/-! ## The checks -/

/-- A dump for the key lists IPv4 connections. -/
def ListsIpv4 (nfct : Nfct) (k : FlowKey) : Prop :=
  match k.dlType with
  | none => nfct.lists afNone afInet = true
  | some dlType => dlType = ethertypeIp

/-- An address under a mask against the address of a key under the same mask. -/
def MaskAgrees (u : Undefined) (length : Nat) (k : Option AddressPrefix) (address : BitVec 32) : Prop :=
  ∀ x ∈ k, address &&& lengthMask u length = x.address &&& lengthMask u length

/-- What filter and callback come to on IPv4 connections. -/
structure CodeSelects (nfct : Nfct) (u : Undefined) (k : FlowKey) (length : Nat) (ct : Entry) : Prop where
  family : ListsIpv4 nfct k
  nwProto : FlowKey.Fixes k.nwProto (some ct.l4proto)
  nwSrc : k.dlType = some ethertypeIp → MaskAgrees u length k.nwSrc (swap32 ct.ipv4Src)
  nwDst : k.dlType = some ethertypeIp → MaskAgrees u length k.nwDst (swap32 ct.ipv4Dst)
  tpSrc : FlowKey.Fixes k.tpSrc (ct.portSrc.map swap16)
  tpDst : FlowKey.Fixes k.tpDst (ct.portDst.map swap16)

/-- All calls of the library work, and a dump for IPv4 or for IPv6 lists the connections of that family. -/
structure Nfct.Documented (nfct : Nfct) : Prop extends nfct.Works where
  inet : ∀ family, nfct.lists afInet family = decide (family = afInet)
  inet6 : ∀ family, nfct.lists afInet6 family = decide (family = afInet6)

section Checks

variable {α : Type} {o : Option α} {compared : Prop} [Decidable compared]

theorem portMatches_iff {f : α → BitVec 16} {port : Option (BitVec 16)}
    (hc : compared ↔ o.isSome = true) :
    portMatches (decide compared) port ((o.map fun x => swap16 (f x)).getD 0) = true ↔
      FlowKey.Fixes (o.map f) (port.map swap16) := by
  cases o with
  | none => simp [portMatches, hc]
  | some x =>
      cases port with
      | none => simp [portMatches, hc]
      | some p => simp [portMatches, hc, eq_swap16_iff]

/-- A protocol that the filter has when the key has it. -/
theorem l4proto_iff {f : α → BitVec 8} {proto : BitVec 8} (hc : compared ↔ o.isSome = true) :
    Option.all (proto = ·) (if compared then some ((o.map f).getD 0) else none) = true ↔
      FlowKey.Fixes (o.map f) (some proto) := by
  cases o with
  | none => simp [hc]
  | some x => simp [hc]

/-- An address that the filter has when the key has it and the family is IPv4. -/
theorem filterIpv4_iff {u : Undefined} {length : Nat} {o : Option Controller.JavaString} {family : BitVec 8}
    {mask address : BitVec 32} (hmask : mask = lengthMask u length) (hc : compared ↔ o.isSome = true)
    (lengthOf : Nat) :
    Option.all (·.passes address)
        (if family = afInet ∧ compared then
          some (FilterIpv4.mk (swap32 ((o.map readAddress).getD 0)) mask) else none) = true ↔
      (family = afInet → MaskAgrees u length (o.map fun text => ⟨(inetAton text).getD 0, lengthOf⟩)
        (swap32 address)) := by
  cases o with
  | none => simp [MaskAgrees, hc]
  | some text =>
      by_cases hfamily : family = afInet
      · simp [MaskAgrees, hc, hfamily, hmask, FilterIpv4.passes, readAddress]
      · simp [hfamily]

end Checks

theorem buildFilter_passes_iff (u : Undefined) (field : Controller.PerflowKey) (family : BitVec 8)
    (ct : Entry) : (buildFilter u (jsonParsePerflowKey field) family).passes ct = true ↔
      FlowKey.Fixes (flowKey field).nwProto (some ct.l4proto) ∧
      (family = afInet → MaskAgrees u (sourceLength field) (flowKey field).nwSrc (swap32 ct.ipv4Src)) ∧
      (family = afInet → MaskAgrees u (sourceLength field) (flowKey field).nwDst (swap32 ct.ipv4Dst)) := by
  obtain ⟨-, hs, hsm, hd, -, hp, -, -⟩ := missing_and field
  have hmask := lengthMask_mask u field.nwSrcMask hsm
  simp only [buildFilter, Filter.passes, jsonParsePerflowKey_eq, Bool.and_eq_true, and_assoc]
  exact and_congr (l4proto_iff hp)
    (and_congr (filterIpv4_iff hmask hs _) (filterIpv4_iff hmask hd _))

theorem callbackMatches_iff (field : Controller.PerflowKey) (ct : Entry) :
    callbackMatches (jsonParsePerflowKey field) ct = true ↔
      FlowKey.Fixes (flowKey field).tpSrc (ct.portSrc.map swap16) ∧
      FlowKey.Fixes (flowKey field).tpDst (ct.portDst.map swap16) := by
  obtain ⟨-, -, -, -, -, -, hts, htd⟩ := missing_and field
  simp only [callbackMatches, jsonParsePerflowKey_eq, Bool.and_eq_true]
  exact and_congr (portMatches_iff hts) (portMatches_iff htd)

/-- The family that is queried. -/
theorem queryFamily_eq (field : Controller.PerflowKey) : queryFamily (jsonParsePerflowKey field) =
    match (flowKey field).dlType with
    | none => some afNone
    | some dlType =>
        if dlType = ethertypeIp then some afInet else if dlType = ethertypeIpv6 then some afInet6 else none := by
  obtain ⟨hdl, -⟩ := missing_and field
  rw [queryFamily, jsonParsePerflowKey_eq]
  cases hk : field.dlType with
  | none =>
      rw [if_neg (by rw [hdl, hk]; exact Bool.false_ne_true), flowKey, hk]
      rfl
  | some n =>
      rw [if_pos (by rw [hdl, hk]; rfl), flowKey, hk]
      rfl

/-- What a connection has to pass. -/
def selects (nfct : Nfct) (u : Undefined) (key : PerflowKey) (ct : Entry) : Bool :=
  (queryFamily key).any fun family => nfct.lists family ct.l3proto && (buildFilter u key family).passes ct &&
    callbackMatches key ct

theorem matching_eq (nfct : Nfct) (u : Undefined) (key : PerflowKey) (table : List Entry) :
    matching nfct u key table = table.filter (selects nfct u key) := by
  rw [matching, Nfct.dumped]
  cases hfamily : queryFamily key with
  | none => simp [selects, hfamily]
  | some family =>
      rw [List.filter_filter]
      refine List.filter_congr fun ct _ => ?_
      rw [selects, hfamily, Option.any_some, Bool.and_comm]

theorem selects_iff {nfct : Nfct} (hnfct : nfct.Documented) (u : Undefined) (field : Controller.PerflowKey)
    {ct : Entry} (hipv4 : ct.l3proto = afInet) :
    selects nfct u (jsonParsePerflowKey field) ct = true ↔
      CodeSelects nfct u (flowKey field) (sourceLength field) ct := by
  have hcode : CodeSelects nfct u (flowKey field) (sourceLength field) ct ↔
      ListsIpv4 nfct (flowKey field) ∧ FlowKey.Fixes (flowKey field).nwProto (some ct.l4proto) ∧
      ((flowKey field).dlType = some ethertypeIp →
        MaskAgrees u (sourceLength field) (flowKey field).nwSrc (swap32 ct.ipv4Src)) ∧
      ((flowKey field).dlType = some ethertypeIp →
        MaskAgrees u (sourceLength field) (flowKey field).nwDst (swap32 ct.ipv4Dst)) ∧
      FlowKey.Fixes (flowKey field).tpSrc (ct.portSrc.map swap16) ∧
      FlowKey.Fixes (flowKey field).tpDst (ct.portDst.map swap16) :=
    ⟨fun ⟨h₁, h₂, h₃, h₄, h₅, h₆⟩ => ⟨h₁, h₂, h₃, h₄, h₅, h₆⟩,
      fun ⟨h₁, h₂, h₃, h₄, h₅, h₆⟩ => ⟨h₁, h₂, h₃, h₄, h₅, h₆⟩⟩
  rw [hcode, selects, queryFamily_eq, hipv4, ListsIpv4]
  cases hdl : (flowKey field).dlType with
  | none =>
      have hne : afNone ≠ afInet := by decide
      simp [buildFilter_passes_iff, callbackMatches_iff, hne, and_assoc]
  | some dlType =>
      by_cases hip : dlType = ethertypeIp
      · simp [hip, hnfct.inet, buildFilter_passes_iff, callbackMatches_iff, and_assoc]
      · have hne : afInet ≠ afInet6 := by decide
        by_cases hip6 : dlType = ethertypeIpv6
        · simp [hip6, hnfct.inet6, hne, ethertypeIp, ethertypeIpv6]
        · simp [hip, hip6]

/-! ## Masks -/

/-- The mask that is used is the one that is meant, and it can be shifted by. -/
def MaskFits (length : Nat) (k : Option AddressPrefix) : Prop :=
  ∀ x ∈ k, 1 ≤ length ∧ length ≤ 32 ∧ (length = x.length ∨ length = 32 ∧ 32 ≤ x.length)

theorem maskAgrees_own (u : Undefined) (length : Nat) (k : Option AddressPrefix) :
    MaskAgrees u length k ((k.map AddressPrefix.address).getD 0) := by
  cases k <;> simp [MaskAgrees]

theorem covers_address (k : Option AddressPrefix) :
    FlowKey.Covers k (some ((k.map AddressPrefix.address).getD 0)) := by
  cases k <;> simp [SamePrefix.refl]

theorem MaskFits.masked_agrees_iff {length : Nat} {k : Option AddressPrefix} (h : MaskFits length k) (u : Undefined)
    (a : BitVec 32) : MaskAgrees u length k a ↔ FlowKey.Covers k (some a) := by
  cases k with
  | none => simp [MaskAgrees]
  | some x =>
      obtain ⟨h₁, h₂, hlength⟩ := h x rfl
      simp only [MaskAgrees, Option.mem_def, Option.some.injEq, forall_eq', FlowKey.covers_some,
        lengthMask_eq h₁ h₂]
      rw [eq_comm, ← samePrefix_iff_and h₂]
      rcases hlength with rfl | ⟨rfl, hlong⟩
      · rfl
      · rw [samePrefix_iff_eq (Nat.le_refl _), samePrefix_iff_eq hlong]

/-- Whatever a shift by too much comes to, some address tells the masks apart. -/
theorem maskFits_of_agrees {length : Nat} {k : Option AddressPrefix} (hlt : length < 2 ^ 32)
    (h : ∀ (u : Undefined) a, MaskAgrees u length k a ↔ FlowKey.Covers k (some a)) : MaskFits length k := by
  intro x hx
  obtain rfl := Option.mem_def.mp hx
  simp only [MaskAgrees, Option.mem_def, Option.some.injEq, forall_eq', FlowKey.covers_some] at h
  by_cases hshift : 1 ≤ length ∧ length ≤ 32
  · obtain ⟨h₁, h₂⟩ := hshift
    have hsame : ∀ a, SamePrefix length x.address a ↔ SamePrefix x.length x.address a := by
      intro a
      rw [← h ⟨.zero, fun _ => 0⟩ a, lengthMask_eq h₁ h₂, eq_comm, ← samePrefix_iff_and h₂]
    refine ⟨h₁, h₂, ?_⟩
    by_cases hlong : x.length ≤ 32
    · exact Or.inl (eq_of_samePrefix_iff x.address h₂ hlong hsame)
    · refine Or.inr ⟨eq_of_samePrefix_iff x.address h₂ (Nat.le_refl 32) fun a => ?_, by omega⟩
      rw [hsame a, samePrefix_iff_eq (by omega), samePrefix_iff_eq (Nat.le_refl _)]
  · -- The mask may be that of all addresses, and it may be that of one.
    have hout : length = 0 ∨ 32 < length := by omega
    have hall := (h (.const .zero 0#32) (~~~x.address)).mp
      (by rw [lengthMask_undefined hout hlt]; exact BitVec.and_zero.trans BitVec.and_zero.symm)
    have hone := (h (.const .zero (BitVec.allOnes 32)) (~~~x.address)).mpr hall
    rw [lengthMask_undefined hout hlt, Undefined.const, BitVec.and_allOnes, BitVec.and_allOnes] at hone
    exact absurd hone (not_eq_self (by decide) _)

/-! ## Exact keys -/

/-- A key without `dl_type` is let through whole and has no address that counts; the addresses of one for IPv4
are compared under the masks that are meant. -/
structure Exact (nfct : Nfct) (field : Controller.PerflowKey) : Prop where
  untyped : (flowKey field).dlType = none → nfct.lists afNone afInet = true ∧
    (∀ x ∈ (flowKey field).nwSrc, x.length = 0) ∧ ∀ x ∈ (flowKey field).nwDst, x.length = 0
  ipv4 : (flowKey field).dlType = some ethertypeIp → MaskFits (sourceLength field) (flowKey field).nwSrc ∧
    MaskFits (sourceLength field) (flowKey field).nwDst

section Exact

variable {nfct : Nfct} {field : Controller.PerflowKey} {ct : Entry}

theorem satisfied_iff : (reference field).Satisfied ct.header ↔
    FlowKey.Fixes (flowKey field).dlType (some ethertypeIp) ∧
    FlowKey.Fixes (flowKey field).nwProto (some ct.l4proto) ∧
    FlowKey.Covers (flowKey field).nwSrc (some (swap32 ct.ipv4Src)) ∧
    FlowKey.Covers (flowKey field).nwDst (some (swap32 ct.ipv4Dst)) ∧
    FlowKey.Fixes (flowKey field).tpSrc (ct.portSrc.map swap16) ∧
    FlowKey.Fixes (flowKey field).tpDst (ct.portDst.map swap16) := by
  constructor
  · rintro ⟨h₁, h₂, h₃, h₄, ⟨h₅, h₆⟩ | ⟨hflip, -⟩⟩
    · exact ⟨h₁, h₂, h₃, h₄, h₅, h₆⟩
    · cases hflip
  · rintro ⟨h₁, h₂, h₃, h₄, h₅, h₆⟩
    exact ⟨h₁, h₂, h₃, h₄, Or.inl ⟨h₅, h₆⟩⟩

theorem covers_zero {k : Option AddressPrefix} (h : ∀ x ∈ k, x.length = 0) (a : BitVec 32) :
    FlowKey.Covers k (some a) := by
  cases k with
  | none => simp
  | some x => simp [h x rfl]

theorem Exact.selects_iff (h : Exact nfct field) (u : Undefined) :
    CodeSelects nfct u (flowKey field) (sourceLength field) ct ↔ (reference field).Satisfied ct.header := by
  rw [satisfied_iff]
  cases hdl : (flowKey field).dlType with
  | none =>
      obtain ⟨hlists, hsrc, hdst⟩ := h.untyped hdl
      constructor
      · rintro ⟨-, h₂, -, -, h₅, h₆⟩
        exact ⟨FlowKey.fixes_none, h₂, covers_zero hsrc _, covers_zero hdst _, h₅, h₆⟩
      · rintro ⟨-, h₂, -, -, h₅, h₆⟩
        refine ⟨?_, h₂, fun h => ?_, fun h => ?_, h₅, h₆⟩
        · rw [ListsIpv4, hdl]
          exact hlists
        · rw [hdl] at h
          cases h
        · rw [hdl] at h
          cases h
  | some dlType =>
      by_cases hip : dlType = ethertypeIp
      · subst hip
        obtain ⟨hsrc, hdst⟩ := h.ipv4 hdl
        constructor
        · rintro ⟨-, h₂, h₃, h₄, h₅, h₆⟩
          exact ⟨FlowKey.fixes_some.mpr rfl, h₂, (hsrc.masked_agrees_iff u _).mp (h₃ hdl),
            (hdst.masked_agrees_iff u _).mp (h₄ hdl), h₅, h₆⟩
        · rintro ⟨-, h₂, h₃, h₄, h₅, h₆⟩
          refine ⟨?_, h₂, fun _ => (hsrc.masked_agrees_iff u _).mpr h₃,
            fun _ => (hdst.masked_agrees_iff u _).mpr h₄, h₅, h₆⟩
          rw [ListsIpv4, hdl]
      · constructor
        · rintro ⟨hlists, -⟩
          rw [ListsIpv4, hdl] at hlists
          exact absurd hlists hip
        · rintro ⟨hfixes, -⟩
          rw [FlowKey.fixes_some] at hfixes
          exact absurd (Option.some.inj hfixes).symm hip

/-! ## Connections that tell a key apart -/

/-- An IPv4 connection with the protocol and the ports of a key. -/
def sampleOf (k : FlowKey) (nwSrc nwDst : BitVec 32) : Entry where
  l3proto := afInet
  l4proto := k.nwProto.getD 0
  portSrc := some (swap16 (k.tpSrc.getD 0))
  portDst := some (swap16 (k.tpDst.getD 0))
  ipv4Src := swap32 nwSrc
  ipv4Dst := swap32 nwDst
  id := 0
  netmsg := [0]
  netmsg_length := by decide

theorem fixes_own {n : Nat} (o : Option (BitVec n)) : FlowKey.Fixes o (some (o.getD 0)) := by
  cases o <;> simp

theorem sampleOf_satisfied (nwSrc nwDst : BitVec 32) :
    (reference field).Satisfied (sampleOf (flowKey field) nwSrc nwDst).header ↔
      FlowKey.Fixes (flowKey field).dlType (some ethertypeIp) ∧
      FlowKey.Covers (flowKey field).nwSrc (some nwSrc) ∧ FlowKey.Covers (flowKey field).nwDst (some nwDst) := by
  rw [satisfied_iff]
  simp only [sampleOf, swap32_swap32, swap16_swap16, Option.map_some, fixes_own, true_and, and_true]

theorem sampleOf_selects (u : Undefined) (nwSrc nwDst : BitVec 32) :
    CodeSelects nfct u (flowKey field) (sourceLength field) (sampleOf (flowKey field) nwSrc nwDst) ↔
      ListsIpv4 nfct (flowKey field) ∧
      ((flowKey field).dlType = some ethertypeIp →
        MaskAgrees u (sourceLength field) (flowKey field).nwSrc nwSrc) ∧
      ((flowKey field).dlType = some ethertypeIp →
        MaskAgrees u (sourceLength field) (flowKey field).nwDst nwDst) := by
  constructor
  · rintro ⟨h₁, -, h₃, h₄, -, -⟩
    simp only [sampleOf, swap32_swap32] at h₃ h₄
    exact ⟨h₁, h₃, h₄⟩
  · rintro ⟨h₁, h₃, h₄⟩
    refine ⟨h₁, fixes_own _, ?_, ?_, ?_, ?_⟩ <;>
      simp only [sampleOf, swap32_swap32, swap16_swap16, Option.map_some, fixes_own]
    · exact h₃
    · exact h₄

/-- An address that may be any has no prefix that counts. -/
theorem length_eq_zero {k : Option AddressPrefix} (h : ∀ a, FlowKey.Covers k (some a)) :
    ∀ x ∈ k, x.length = 0 := by
  intro x hx
  obtain rfl := Option.mem_def.mp hx
  by_contra hne
  obtain ⟨b, -, hdiff⟩ := exists_differs_at x.address (by decide : 0 < 32)
  have hcovers := h b
  rw [FlowKey.covers_some] at hcovers
  exact hdiff (hcovers.of_le (Nat.one_le_iff_ne_zero.mpr hne))

theorem exact_of_selects (h : ∀ (u : Undefined) (ct : Entry), ct.l3proto = afInet →
    (CodeSelects nfct u (flowKey field) (sourceLength field) ct ↔ (reference field).Satisfied ct.header)) :
    Exact nfct field := by
  have hsample := fun u a b => (sampleOf_selects u a b).symm.trans
    ((h u (sampleOf (flowKey field) a b) rfl).trans (sampleOf_satisfied a b))
  have hsrc := covers_address (flowKey field).nwSrc
  have hdst := covers_address (flowKey field).nwDst
  constructor
  · intro hdl
    have hlists := ((hsample ⟨.zero, fun _ => 0⟩ _ _).mpr ⟨by simp [hdl], hsrc, hdst⟩).1
    have hall := fun a b => (hsample ⟨.zero, fun _ => 0⟩ a b).mp ⟨hlists, by simp [hdl], by simp [hdl]⟩
    rw [ListsIpv4, hdl] at hlists
    exact ⟨hlists, length_eq_zero fun a => (hall a 0).2.1, length_eq_zero fun b => (hall 0 b).2.2⟩
  · intro hdl
    have hlists : ListsIpv4 nfct (flowKey field) := by rw [ListsIpv4, hdl]
    have hfixes : FlowKey.Fixes (some ethertypeIp) (some ethertypeIp) := FlowKey.fixes_some.mpr rfl
    have hlt : sourceLength field < 2 ^ 32 := by
      rw [sourceLength]
      cases field.nwSrcMask with
      | none => decide
      | some n => exact (jsonObjectGetInt n).isLt
    constructor
    · refine maskFits_of_agrees hlt fun u a => ?_
      have hboth := hsample u a (((flowKey field).nwDst.map AddressPrefix.address).getD 0)
      simpa only [hlists, hdl, hfixes, hdst, maskAgrees_own, forall_const, true_and, and_true] using hboth
    · refine maskFits_of_agrees hlt fun u b => ?_
      have hboth := hsample u (((flowKey field).nwSrc.map AddressPrefix.address).getD 0) b
      simpa only [hlists, hdl, hfixes, hsrc, maskAgrees_own, forall_const, true_and, and_true] using hboth

/-! ## Tables -/

/-- The connections that satisfy the key of a message. -/
def satisfying (field : Controller.PerflowKey) (table : List Entry) : List Entry :=
  table.filter fun ct => decide ((reference field).Satisfied ct.header)

/-- A get sends the chunks of the connections that satisfy the key, what `send_state` makes up apart, and a
deletion destroys these connections. -/
def SelectsExactly (nfct : Nfct) (field : Controller.PerflowKey) : Prop :=
  ∀ (u : Undefined) (id : BitVec 32) (table : List Entry), (∀ ct ∈ table, ct.l3proto = afInet) →
    (localGetPerflow nfct u (jsonParsePerflowKey field) id table).1 =
      (satisfying field table).mapIdx (chunkOf u (jsonParsePerflowKey field) id) ++
        (if queryFamily (jsonParsePerflowKey field) = none then [] else (sendState u).1) ∧
    (localDelPerflow nfct u (jsonParsePerflowKey field) table).1 = satisfying field table

theorem localGetPerflow_chunks (hworks : nfct.Works) (u : Undefined) (key : PerflowKey) (id : BitVec 32)
    (table : List Entry) : (localGetPerflow nfct u key id table).1 =
      (matching nfct u key table).mapIdx (chunkOf u key id) ++
        (if queryFamily key = none then [] else (sendState u).1) := by
  by_cases hfamily : queryFamily key = none
  · rw [localGetPerflow, hworks.nfctOpen, hworks.filterCreate, if_pos hfamily, matching, Nfct.dumped, hfamily]
    rfl
  · rw [localGetPerflow_eq u id table hworks hfamily, if_neg hfamily]

theorem localDelPerflow_destroyed (hworks : nfct.Works) (u : Undefined) (key : PerflowKey)
    (table : List Entry) : (localDelPerflow nfct u key table).1 = matching nfct u key table := by
  rw [localDelPerflow, hworks.nfctOpen, hworks.filterCreate, hworks.filterAttach, hworks.query]
  by_cases hfamily : queryFamily key = none
  · rw [if_pos hfamily, matching, Nfct.dumped, hfamily]
    rfl
  · rw [if_neg hfamily]
    rfl

theorem SelectsExactly.exact (hnfct : nfct.Documented) (h : SelectsExactly nfct field) : Exact nfct field := by
  refine exact_of_selects fun u ct hct => ?_
  have htable : ∀ ct' ∈ [ct], ct'.l3proto = afInet := fun ct' h' => List.mem_singleton.mp h' ▸ hct
  have hdel := (h u 0 [ct] htable).2
  rw [localDelPerflow_destroyed hnfct.toWorks, matching_eq, satisfying] at hdel
  have hmem := Iff.of_eq (congrArg (ct ∈ ·) hdel)
  rw [List.mem_filter, List.mem_filter, decide_eq_true_iff, OFM.Iptables.selects_iff hnfct u field hct] at hmem
  simpa using hmem

/-- In every table of IPv4 connections a get and a deletion select the connections that satisfy the key, if
and only if the key is exact. -/
theorem getPerflow_selectsExactly_iff (hnfct : nfct.Documented) (field : Controller.PerflowKey) :
    SelectsExactly nfct field ↔ Exact nfct field := by
  constructor
  · exact fun h => h.exact hnfct
  · intro h u id table htable
    have hsame : matching nfct u (jsonParsePerflowKey field) table = satisfying field table := by
      rw [matching_eq]
      refine List.filter_congr fun ct hct => ?_
      rw [Bool.eq_iff_iff, OFM.Iptables.selects_iff hnfct u field (htable ct hct), decide_eq_true_iff]
      exact h.selects_iff u
    rw [localGetPerflow_chunks hnfct.toWorks, localDelPerflow_destroyed hnfct.toWorks, hsame]
    exact ⟨rfl, rfl⟩

end Exact

/-! ## Samples -/

theorem workingNfct_documented : workingNfct.Documented where
  nfctOpen := rfl
  filterCreate := rfl
  filterAttach := rfl
  query := rfl
  inet _ := by simp [workingNfct, eq_comm]
  inet6 _ := by simp [workingNfct, eq_comm]

/-- All IPv4 connections. -/
def ipv4Field : Controller.PerflowKey := { Controller.PerflowKey.new with dlType := some 0x0800 }

/-- The connections between `10.0.0.1` and its neighbours. -/
def neighboursField : Controller.PerflowKey :=
  { ipv4Field with nwSrc := some sampleText, nwSrcMask := some 24, nwDst := some sampleText, nwDstMask := some 24 }

theorem getPerflow_selectsExactly_iff_neighbours : SelectsExactly workingNfct neighboursField := by
  refine (getPerflow_selectsExactly_iff workingNfct_documented neighboursField).mpr ⟨fun h => ?_, fun _ => ?_⟩
  · exact absurd h (by decide)
  · have hsrc : (flowKey neighboursField).nwSrc = some ⟨0x0a000001, 24⟩ := by decide
    have hdst : (flowKey neighboursField).nwDst = some ⟨0x0a000001, 24⟩ := by decide
    have hfits : MaskFits (sourceLength neighboursField) (some ⟨0x0a000001, 24⟩) := by
      rintro x ⟨⟩
      decide
    exact ⟨hsrc ▸ hfits, hdst ▸ hfits⟩

/-- The connections to the neighbours of `10.0.0.1`: the destination is compared whole. -/
def destinationField : Controller.PerflowKey :=
  { ipv4Field with nwDst := some sampleText, nwDstMask := some 24 }

theorem not_selectsExactly_destination :
    ¬ ∀ nfct field, nfct.Documented → SelectsExactly nfct field := by
  intro h
  have hexact := (h workingNfct destinationField workingNfct_documented).exact workingNfct_documented
  obtain ⟨-, -, hlength⟩ := (hexact.ipv4 (by decide)).2 ⟨0x0a000001, 24⟩ (by decide)
  exact absurd hlength (by decide)

end OFM.Iptables
