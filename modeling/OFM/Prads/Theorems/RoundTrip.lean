import Mathlib.Data.List.Perm.Subperm
import Mathlib.Logic.Relation
import OFM.Prads.Translators

/-!
# Chunks that are parsed again

What `ser_parse` makes of a chunk that `ser_ialize` has written is a copy of what the connection led to, save
for two kinds of declarations: `prev` and `next` of an `os_asset` are declared as `serv_asset`, and `cxid` and
the totals, which count in a `uint64_t`, as `uint32_t`.
-/

namespace OFM.Prads
open OFM.Lib

/-! ## What is in memory -/

/-- A value of a type: a pointer leads to a structure of its type. A number may be one that has more bits than
its translator says. -/
def HasType (mem : Objects) : CType → Value → Prop
  | .bits _, .bits _ => True
  | .str, .str _ => True
  | .ptr s, .ptr a => ∀ b ∈ a, mem[b]?.map Obj.struct = some s
  | _, _ => False

instance (mem : Objects) : (t : CType) → (v : Value) → Decidable (HasType mem t v)
  | .ptr s, .ptr a => inferInstanceAs (Decidable (∀ b ∈ a, mem[b]?.map Obj.struct = some s))
  | .bits _, .bits _ | .str, .str _ => isTrue trivial
  | .bits _, .str _ | .bits _, .ptr _ | .str, .bits _ | .str, .ptr _ | .ptr _, .bits _ | .ptr _, .str _ =>
      isFalse id

/-- Every member has its type. -/
def Typed (mem : Objects) : Prop :=
  ∀ o ∈ mem, ∀ f ∈ translator o.struct, HasType mem (memberType o.struct f) (o.member f.offset)

instance (mem : Objects) : Decidable (Typed mem) :=
  inferInstanceAs (Decidable (∀ o ∈ mem, ∀ f ∈ translator o.struct,
    HasType mem (memberType o.struct f) (o.member f.offset)))

def Points (mem : Objects) (a b : Nat) : Prop :=
  ∃ o, mem[a]? = some o ∧ ∃ f ∈ translator o.struct, o.member f.offset = .ptr (some b)

/-- A structure is reached from another. -/
def Reach (mem : Objects) : Nat → Nat → Prop := Relation.ReflTransGen (Points mem)

def Value.rename (φ : Nat → Nat) : Value → Value
  | .ptr a => .ptr (a.map φ)
  | v => v

/-- What is reached from one address is copied to what is reached from another: structures with the same
values, where `φ` says which is which. -/
structure Copied (mem : Objects) (conn : Nat) (mem' : Objects) (conn' : Nat) (φ : Nat → Nat) : Prop where
  start : φ conn = conn'
  injective : ∀ a b, Reach mem conn a → Reach mem conn b → φ a = φ b → a = b
  obj : ∀ a o, Reach mem conn a → mem[a]? = some o → ∃ o', mem'[φ a]? = some o' ∧ o'.struct = o.struct ∧
    ∀ f ∈ translator o.struct, o'.member f.offset = (o.member f.offset).rename φ

/-- A connection that comes out as it went in. -/
def RoundTrips [Layout] (mem : Objects) (conn : Nat) : Prop :=
  ∃ fuel chunk, serIalize fuel mem conn = some chunk ∧ ∃ φ, Copied mem conn (serParse chunk) 0 φ

/-- Every number has as many bits as its translator says, and no list of operating systems has a second one. -/
structure Declared (mem : Objects) (conn : Nat) : Prop where
  numbers : ∀ a o, Reach mem conn a → mem[a]? = some o → ∀ f ∈ translator o.struct, ∀ w v,
    f.type.cType = .bits w → o.member f.offset = .bits v → v < 2 ^ w
  os : ∀ a o, Reach mem conn a → mem[a]? = some o → o.struct = .osAsset →
    o.member .prev = .ptr none ∧ o.member .next = .ptr none

/-! ## Translators -/

theorem find_tag (s : Struct) : ∀ f ∈ translator s, (translator s).find? (·.tag = f.tag) = some f := by
  cases s <;> decide

theorem nodup_offsets (s : Struct) : ((translator s).map SerField.offset).Nodup := by
  cases s <;> decide

theorem type_os_links : ∀ f ∈ translator .osAsset, f.offset = .prev ∨ f.offset = .next →
    f.type = .ref .servAsset := by decide

theorem memberType_cases (s : Struct) (f : SerField) :
    (s = .osAsset ∧ (f.offset = .prev ∨ f.offset = .next) ∧ memberType s f = .ptr .osAsset) ∨
    memberType s f = f.type.cType := by
  obtain ⟨type, tag, offset⟩ := f
  cases s <;> cases offset <;> simp [memberType]

theorem storeField_of_mem {s : Struct} {f : SerField} (hf : f ∈ translator s) (member : Member → Value)
    (v : Value) : storeField s member (f.tag, v) = Function.update member f.offset v := by
  simp only [storeField, find_tag s f hf]

theorem foldl_storeField {s : Struct} {fs : List SerField} (hfs : ∀ f ∈ fs, f ∈ translator s)
    (hnd : (fs.map SerField.offset).Nodup) (w : SerField → Value) (member : Member → Value) :
    (∀ f ∈ fs, (fs.map fun f => (f.tag, w f)).foldl (storeField s) member f.offset = w f) ∧
      ∀ m, m ∉ fs.map SerField.offset →
        (fs.map fun f => (f.tag, w f)).foldl (storeField s) member m = member m := by
  induction fs generalizing member with
  | nil => simp
  | cons f fs ih =>
      rw [List.forall_mem_cons] at hfs
      obtain ⟨hnot, hnd⟩ := List.nodup_cons.mp hnd
      obtain ⟨hmem, hother⟩ := ih hfs.2 hnd (Function.update member f.offset (w f))
      rw [List.map_cons, List.foldl_cons, storeField_of_mem hfs.1]
      refine ⟨List.forall_mem_cons.mpr ⟨?_, hmem⟩, fun m hm => ?_⟩
      · rw [hother _ hnot, Function.update_self]
      · rw [List.map_cons, List.mem_cons, not_or] at hm
        rw [hother _ hm.2, Function.update_of_ne hm.1]

/-- Every field is read as it has been written. -/
theorem inflate_of_mem {s : Struct} {f : SerField} (hf : f ∈ translator s) (w : SerField → Value) :
    inflate s ((translator s).map fun f => (f.tag, w f)) f.offset = w f :=
  (foldl_storeField (fun _ h => h) (nodup_offsets s) w _).1 f hf

/-! ## Reading -/

/-- Each result is where its element is. -/
theorem getElem_mapM {α β : Type*} {g : α → Option β} {l : List α} {l' : List β} (h : l.mapM g = some l')
    (i : Nat) : l'[i]? = l[i]?.bind g := by
  induction l generalizing l' i with
  | nil =>
      cases h
      simp
  | cons a l ih =>
      rw [List.mapM_cons] at h
      obtain ⟨b, hb, h⟩ := Option.bind_eq_some_iff.mp h
      obtain ⟨bs, hbs, h⟩ := Option.bind_eq_some_iff.mp h
      cases h
      cases i with
      | zero => simp [hb]
      | succ i => simpa using ih hbs i

theorem isSome_mapM {α β : Type*} {g : α → Option β} {l : List α} :
    (l.mapM g).isSome ↔ ∀ a ∈ l, (g a).isSome := by
  induction l with
  | nil => simp
  | cons a l ih =>
      rw [List.mapM_cons, List.forall_mem_cons, ← ih]
      cases g a <;> cases l.mapM g <;> simp

/-- Elements with their results. -/
theorem mapM_pair {α β : Type*} {g : α → Option β} {l : List α} (b : β) {l' : List (α × β)} :
    l.mapM (fun a => (g a).map (a, ·)) = some l' ↔
      (∀ a ∈ l, (g a).isSome) ∧ l' = l.map fun a => (a, (g a).getD b) := by
  induction l generalizing l' with
  | nil =>
      constructor
      · intro h
        cases h
        simp
      · rintro ⟨-, rfl⟩
        rfl
  | cons a l ih =>
      rw [List.mapM_cons]
      cases hg : g a with
      | none => simp [hg]
      | some c =>
          simp only [Option.map_some, Option.bind_eq_bind, Option.bind_some, Option.pure_def,
            Option.bind_eq_some_iff, ih, Option.some.injEq, List.forall_mem_cons, hg, List.map_cons,
            Option.getD_some]
          constructor
          · rintro ⟨bs, ⟨hall, rfl⟩, rfl⟩
            exact ⟨⟨rfl, hall⟩, rfl⟩
          · rintro ⟨⟨-, hall⟩, rfl⟩
            exact ⟨_, ⟨hall, rfl⟩, rfl⟩

variable {mem : Objects} {a conn : Nat} {o : Obj} {f : SerField}

theorem cut_of_hasType {t : CType} {v : Value} (h : HasType mem t v) :
    t.cut v = some v ∨ ∃ w n, t = .bits w ∧ v = .bits n ∧ t.cut v = some (.bits (n % 2 ^ w)) := by
  cases t <;> cases v <;> simp_all [HasType, CType.cut]

section Read

variable [Layout] {s : Struct} {holders : List Holder} {chunk : List Dump}

/-- What is read of a field is its value, but for the bits that a number has beyond those of its translator. -/
theorem read_typed (hmem : Typed mem) (ha : mem[a]? = some o) (hf : f ∈ translator o.struct) :
    o.read o.struct f = some (o.member f.offset) ∨
      ∃ w v, f.type.cType = .bits w ∧ o.member f.offset = .bits v ∧
        o.read o.struct f = some (.bits (v % 2 ^ w)) := by
  have htype := hmem o (List.mem_of_getElem? ha) f hf
  rw [Obj.read, if_pos rfl]
  rcases memberType_cases o.struct f with ⟨hs, hoff, hty⟩ | hty
  · refine Or.inl ?_
    rw [hty] at htype
    rw [type_os_links f (hs ▸ hf) hoff]
    cases hv : o.member f.offset with
    | ptr b => rfl
    | str | bits =>
        rw [hv] at htype
        cases htype
  · exact cut_of_hasType (hty ▸ htype)

omit [Layout] in
/-- A pointer that is read leads to a structure of the declared type, but for the links of an `os_asset`. -/
theorem target_typed (hmem : Typed mem) (ha : mem[a]? = some o) (hf : f ∈ translator o.struct) {b : Nat}
    (hb : o.member f.offset = .ptr (some b)) :
    ∃ s o', f.type = .ref s ∧ mem[b]? = some o' ∧
      (o'.struct = s ∨
        o.struct = .osAsset ∧ (f.offset = .prev ∨ f.offset = .next) ∧ s = .servAsset ∧
          o'.struct = .osAsset) := by
  have htype := hmem o (List.mem_of_getElem? ha) f hf
  rw [hb] at htype
  rcases memberType_cases o.struct f with ⟨hs, hoff, hty⟩ | hty
  · rw [hty] at htype
    obtain ⟨o', ho', hs'⟩ := Option.map_eq_some_iff.mp (htype b rfl)
    exact ⟨.servAsset, o', type_os_links f (hs ▸ hf) hoff, ho', Or.inr ⟨hs, hoff, rfl, hs'⟩⟩
  · rw [hty] at htype
    cases ht : f.type with
    | val type =>
        rw [ht] at htype
        cases type <;> cases htype
    | ref s =>
        rw [ht] at htype
        obtain ⟨o', ho', hs'⟩ := Option.map_eq_some_iff.mp (htype b rfl)
        exact ⟨s, o', rfl, ho', Or.inl hs'⟩

def Obj.value (o : Obj) (s : Struct) (f : SerField) : Value := (o.read s f).getD (.bits 0)

theorem fields_eq_some {l : List (SerField × Value)} : Holder.fields mem (a, s) = some l ↔
    ∃ o, mem[a]? = some o ∧ (∀ f ∈ translator s, (o.read s f).isSome) ∧
      l = (translator s).map fun f => (f, o.value s f) := by
  rw [Holder.fields, Option.bind_eq_some_iff]
  exact exists_congr fun o => and_congr_right fun _ => mapM_pair (Value.bits 0)

/-- What is parsed for a holder. -/
theorem parsed (hdump : holders.mapM (serDump mem holders) = some chunk) (hh : (a, s) ∈ holders) :
    ∃ o o', mem[a]? = some o ∧ (serParse chunk)[holders.idxOf (a, s)]? = some o' ∧ o'.struct = s ∧
      ∀ f ∈ translator s, o'.member f.offset = written holders f.type (o.value s f) := by
  have hget : holders[holders.idxOf (a, s)]? = some (a, s) := List.getElem?_idxOf hh
  have hchunk := getElem_mapM hdump (holders.idxOf (a, s))
  have hsome := isSome_mapM.mp (Option.isSome_of_eq_some hdump) (a, s) hh
  rw [serDump, Option.isSome_map] at hsome
  obtain ⟨l, hl⟩ := Option.isSome_iff_exists.mp hsome
  obtain ⟨o, ha, -, rfl⟩ := fields_eq_some.mp hl
  rw [hget, Option.bind_some, serDump, hl, Option.map_some, List.map_map] at hchunk
  refine ⟨o, ⟨s, inflate s ((translator s).map fun f =>
    (f.tag, written holders f.type (o.value s f)))⟩, ha, ?_, rfl, fun f hf => ?_⟩
  · rw [serParse, List.getElem?_map, hchunk]
    rfl
  · exact inflate_of_mem hf fun f => written holders f.type (o.value s f)

theorem value_of_ptr (hmem : Typed mem) (ha : mem[a]? = some o) (hf : f ∈ translator o.struct)
    {b : Option Nat} (hb : o.member f.offset = .ptr b) : o.value o.struct f = .ptr b := by
  rcases read_typed hmem ha hf with hread | ⟨w, v, -, hv, -⟩
  · rw [Obj.value, hread, hb]
    rfl
  · rw [hv] at hb
    cases hb

theorem mem_followPtrs {l : List Holder} {h : Holder} (hl : followPtrs mem (a, s) = some l)
    (ha : mem[a]? = some o) : h ∈ l ↔ ∃ f ∈ translator s, Holder.target f.type (o.value s f) = some h := by
  obtain ⟨fields, hfields, rfl⟩ := Option.map_eq_some_iff.mp hl
  obtain ⟨o', ho', -, rfl⟩ := fields_eq_some.mp hfields
  cases ha.symm.trans ho'
  simp [List.mem_filterMap]

/-! ## The holders of a chunk -/

theorem serIalize_eq_some {fuel : Nat} (h : serIalize fuel mem conn = some chunk) :
    ∃ holders, holders[0]? = some (conn, .connection) ∧ holders.Nodup ∧
      (∀ x ∈ holders, ∃ l, followPtrs mem x = some l ∧ l ⊆ holders) ∧
      holders.mapM (serDump mem holders) = some chunk := by
  obtain ⟨holders, hvisit, hdump⟩ := Option.bind_eq_some_iff.mp h
  refine ⟨holders, ?_, ?_, ?_, hdump⟩
  · obtain ⟨rest, rfl⟩ := Worklist.prefix_visit hvisit
    rfl
  · exact Worklist.nodup_visit (List.nodup_singleton _) hvisit
  · exact Worklist.closed_visit (by simp) hvisit

section Copied

variable {φ : Nat → Nat} (hmem : Typed mem) (hclosed : ∀ x ∈ holders, ∃ l, followPtrs mem x = some l ∧ l ⊆ holders)
  (hdump : holders.mapM (serDump mem holders) = some chunk)
  (hcopied : Copied mem conn (serParse chunk) 0 φ)

include hmem hclosed hdump hcopied

/-- What a copied object points to is copied as a structure of the declared type: it is one. -/
theorem target_of_copied (hreach : Reach mem conn a) (ha : mem[a]? = some o) (hh : (a, o.struct) ∈ holders)
    (hφ : φ a = holders.idxOf (a, o.struct)) (hf : f ∈ translator o.struct) {b : Nat}
    (hb : o.member f.offset = .ptr (some b)) :
    ∃ ob, mem[b]? = some ob ∧ f.type = .ref ob.struct ∧ (b, ob.struct) ∈ holders ∧
      φ b = holders.idxOf (b, ob.struct) := by
  obtain ⟨t, ob, hty, hob, -⟩ := target_typed hmem ha hf hb
  have htarget : Holder.target f.type (o.value o.struct f) = some (b, t) := by
    rw [value_of_ptr hmem ha hf hb, hty]
    rfl
  -- The pointer has been written as the number of a holder of the declared type.
  have hbt : (b, t) ∈ holders := by
    obtain ⟨l, hl, hsub⟩ := hclosed _ hh
    exact hsub ((mem_followPtrs hl ha).mpr ⟨f, hf, htarget⟩)
  have hφb : φ b = holders.idxOf (b, t) := by
    obtain ⟨oa, hoa, -, hfields⟩ := hcopied.obj a o hreach ha
    obtain ⟨_, oa', h₁, hoa', -, hfields'⟩ := parsed hdump hh
    cases ha.symm.trans h₁
    rw [hφ, hoa'] at hoa
    cases hoa
    have hwritten := (hfields' f hf).symm.trans (hfields f hf)
    rw [written, htarget, hb] at hwritten
    simpa [Value.rename, eq_comm] using hwritten
  -- What is parsed for it has that type, and is a copy.
  obtain ⟨ob', hob', hstruct, -⟩ := hcopied.obj b ob (hreach.tail ⟨o, ha, f, hf, hb⟩) hob
  obtain ⟨_, ob'', -, hob'', hstruct'', -⟩ := parsed hdump hbt
  rw [hφb, hob''] at hob'
  cases hob'
  have ht : ob.struct = t := hstruct.symm.trans hstruct''
  exact ⟨ob, hob, ht ▸ hty, ht ▸ hbt, ht ▸ hφb⟩

theorem holder_of_reach (hconn : ∃ o, mem[conn]? = some o ∧ o.struct = .connection)
    (hstart : holders[0]? = some (conn, .connection)) (ha : Reach mem conn a) :
    ∃ o, mem[a]? = some o ∧ (a, o.struct) ∈ holders ∧ φ a = holders.idxOf (a, o.struct) := by
  induction ha with
  | refl =>
      obtain ⟨o, ho, hs⟩ := hconn
      refine ⟨o, ho, hs ▸ List.mem_of_getElem? hstart, ?_⟩
      rw [hcopied.start, hs]
      cases holders with
      | nil => cases hstart
      | cons h rest =>
          cases hstart
          exact (List.idxOf_cons_self ..).symm
  | @tail a b hreach hpoints ih =>
      obtain ⟨o, ho, hh, hφ⟩ := ih
      obtain ⟨o', ho', f, hf, hb⟩ := hpoints
      cases ho.symm.trans ho'
      obtain ⟨ob, hob, -, hh', hφ'⟩ := target_of_copied hmem hclosed hdump hcopied hreach ho hh hφ hf hb
      exact ⟨ob, hob, hh', hφ'⟩

/-- A link of an `os_asset` leads nowhere: it would lead to an `os_asset`. -/
theorem os_link_null (hreach : Reach mem conn a) (ha : mem[a]? = some o) (hh : (a, o.struct) ∈ holders)
    (hφ : φ a = holders.idxOf (a, o.struct)) (hs : o.struct = .osAsset) (hf : f ∈ translator o.struct)
    (hoff : f.offset = .prev ∨ f.offset = .next) : o.member f.offset = .ptr none := by
  have htype := hmem o (List.mem_of_getElem? ha) f hf
  have hty : memberType o.struct f = .ptr .osAsset := by
    rw [hs]
    rcases hoff with hoff | hoff <;> simp [memberType, hoff]
  rw [hty] at htype
  cases hv : o.member f.offset with
  | bits | str =>
      rw [hv] at htype
      cases htype
  | ptr b =>
      cases b with
      | none => rfl
      | some b =>
          obtain ⟨ob, hob, hdecl, -⟩ := target_of_copied hmem hclosed hdump hcopied hreach ha hh hφ hf hv
          rw [type_os_links f (hs ▸ hf) hoff] at hdecl
          rw [hv] at htype
          obtain ⟨ob', hob', hos⟩ := Option.map_eq_some_iff.mp (htype b rfl)
          cases hob.symm.trans hob'
          rw [hos] at hdecl
          cases hdecl

end Copied

theorem declared_of_roundTrips (hmem : Typed mem)
    (hconn : ∃ o, mem[conn]? = some o ∧ o.struct = .connection) (h : RoundTrips mem conn) :
    Declared mem conn := by
  obtain ⟨fuel, chunk, hchunk, φ, hcopied⟩ := h
  obtain ⟨holders, hstart, -, hclosed, hdump⟩ := serIalize_eq_some hchunk
  constructor
  · intro a o hreach ha f hf w v hw hv
    obtain ⟨_, h₁, hh, hφ⟩ := holder_of_reach hmem hclosed hdump hcopied hconn hstart hreach
    cases ha.symm.trans h₁
    obtain ⟨o', ho', -, hfields⟩ := hcopied.obj a o hreach ha
    obtain ⟨_, o'', h₂, ho'', -, hfields'⟩ := parsed hdump hh
    cases ha.symm.trans h₂
    rw [hφ, ho''] at ho'
    cases ho'
    have hvalue : o.value o.struct f = .bits (v % 2 ^ w) := by
      simp [Obj.value, Obj.read, hv, hw, CType.cut]
    have hwritten := (hfields' f hf).symm.trans (hfields f hf)
    rw [hvalue, hv] at hwritten
    have hnoRef : written holders f.type (.bits (v % 2 ^ w)) = .bits (v % 2 ^ w) := by
      cases hty : f.type <;> rfl
    have heq : v % 2 ^ w = v := Value.bits.inj (hnoRef.symm.trans hwritten)
    exact heq ▸ Nat.mod_lt v (Nat.two_pow_pos w)
  · intro a o hreach ha hs
    obtain ⟨_, h₁, hh, hφ⟩ := holder_of_reach hmem hclosed hdump hcopied hconn hstart hreach
    cases ha.symm.trans h₁
    have hprev : (⟨.ref .servAsset, "prev", .prev⟩ : SerField) ∈ translator o.struct := by rw [hs]; decide
    have hnext : (⟨.ref .servAsset, "next", .next⟩ : SerField) ∈ translator o.struct := by rw [hs]; decide
    exact ⟨os_link_null hmem hclosed hdump hcopied hreach ha hh hφ hs hprev (Or.inl rfl),
      os_link_null hmem hclosed hdump hcopied hreach ha hh hφ hs hnext (Or.inr rfl)⟩

/-! ## Declared connections -/

section Declared

variable (hmem : Typed mem) (hdecl : Declared mem conn)

include hmem hdecl

theorem read_declared (hreach : Reach mem conn a) (ha : mem[a]? = some o) (hf : f ∈ translator o.struct) :
    o.read o.struct f = some (o.member f.offset) := by
  rcases read_typed hmem ha hf with hread | ⟨w, v, hw, hv, hread⟩
  · exact hread
  · rw [hread, hv, Nat.mod_eq_of_lt (hdecl.numbers a o hreach ha f hf w v hw hv)]

omit [Layout] in
theorem target_declared (hreach : Reach mem conn a) (ha : mem[a]? = some o) (hf : f ∈ translator o.struct)
    {b : Nat} (hb : o.member f.offset = .ptr (some b)) :
    ∃ ob, f.type = .ref ob.struct ∧ mem[b]? = some ob := by
  obtain ⟨t, ob, hty, hob, rfl | ⟨hs, hoff, -, -⟩⟩ := target_typed hmem ha hf hb
  · exact ⟨ob, hty, hob⟩
  · obtain ⟨hprev, hnext⟩ := hdecl.os a o hreach ha hs
    rcases hoff with hoff | hoff
    · rw [hoff, hprev] at hb
      cases hb
    · rw [hoff, hnext] at hb
      cases hb

/-- An object that is reached, as the structure that it is. -/
def IsReached (mem : Objects) (conn : Nat) (h : Holder) : Prop :=
  Reach mem conn h.1 ∧ ∃ o, mem[h.1]? = some o ∧ o.struct = h.2

theorem fields_declared (hreach : Reach mem conn a) (ha : mem[a]? = some o) :
    Holder.fields mem (a, o.struct) =
      some ((translator o.struct).map fun f => (f, o.value o.struct f)) := by
  refine fields_eq_some.mpr ⟨o, ha, fun f hf => ?_, rfl⟩
  rw [read_declared hmem hdecl hreach ha hf]
  rfl

theorem followPtrs_declared {h : Holder} (hh : IsReached mem conn h) :
    ∃ l, followPtrs mem h = some l ∧ ∀ h' ∈ l, IsReached mem conn h' := by
  obtain ⟨a, s⟩ := h
  obtain ⟨hreach, o, ha, rfl⟩ := hh
  obtain ⟨l, hl⟩ : ∃ l, followPtrs mem (a, o.struct) = some l :=
    ⟨_, by rw [followPtrs, fields_declared hmem hdecl hreach ha]; rfl⟩
  refine ⟨l, hl, fun h' hh' => ?_⟩
  obtain ⟨f, hf, htarget⟩ := (mem_followPtrs hl ha).mp hh'
  rw [Obj.value, read_declared hmem hdecl hreach ha hf, Option.getD_some] at htarget
  cases hv : o.member f.offset with
  | bits | str =>
      rw [hv] at htarget
      cases hty : f.type <;> simp [Holder.target, hty] at htarget
  | ptr b =>
      cases b with
      | none =>
          rw [hv] at htarget
          cases hty : f.type <;> simp [Holder.target, hty] at htarget
      | some b =>
          obtain ⟨ob, hty, hob⟩ := target_declared hmem hdecl hreach ha hf hv
          rw [hv, hty] at htarget
          cases htarget
          exact ⟨hreach.tail ⟨o, ha, f, hf, hv⟩, ob, hob, rfl⟩

omit [Layout] hmem hdecl in
theorem length_isReached {l : List Holder} (hnd : l.Nodup) (hl : ∀ h ∈ l, IsReached mem conn h) :
    l.length ≤ mem.length := by
  have hfst : (l.map Prod.fst).Nodup := by
    refine List.Nodup.map_on (fun x hx y hy hxy => ?_) hnd
    obtain ⟨-, o, ho, hs⟩ := hl x hx
    obtain ⟨-, o', ho', hs'⟩ := hl y hy
    rw [hxy] at ho
    cases ho.symm.trans ho'
    exact Prod.ext hxy (hs.symm.trans hs')
  have hsub : l.map Prod.fst ⊆ List.range mem.length := by
    intro a ha
    obtain ⟨h, hh, rfl⟩ := List.mem_map.mp ha
    obtain ⟨-, o, ho, -⟩ := hl h hh
    exact List.mem_range.mpr (List.getElem?_eq_some_iff.mp ho).1
  simpa using (List.subperm_of_subset hfst hsub).length_le

/-- The chunk of a declared connection: one holder for each object that is reached. -/
theorem serIalize_declared (hconn : ∃ o, mem[conn]? = some o ∧ o.struct = .connection) :
    ∃ fuel, ∃ holders : List Holder, ∃ chunk, serIalize fuel mem conn = some chunk ∧
      holders.mapM (serDump mem holders) = some chunk ∧ holders[0]? = some (conn, .connection) ∧
      ∀ a o, Reach mem conn a → mem[a]? = some o → (a, o.struct) ∈ holders := by
  have hroot : ∀ h ∈ [((conn, .connection) : Holder)], IsReached mem conn h := by
    intro h hh
    cases List.mem_singleton.mp hh
    exact ⟨.refl, hconn⟩
  obtain ⟨holders, hvisit⟩ := Option.isSome_iff_exists.mp <|
    Worklist.visit_isSome (fun h hh => followPtrs_declared hmem hdecl hh)
      (fun l hnd hl => length_isReached hnd hl) hroot (List.nodup_singleton _) (Nat.zero_le _)
      (Nat.lt_succ_self mem.length)
  have hreached := Worklist.forall_visit (P := IsReached mem conn) (fun h l hh hl => by
    obtain ⟨l', hl', hall⟩ := followPtrs_declared hmem hdecl hh
    cases hl.symm.trans hl'
    exact hall) hroot hvisit
  have hclosed := Worklist.closed_visit (by simp) hvisit
  obtain ⟨chunk, hdump⟩ : ∃ chunk, holders.mapM (serDump mem holders) = some chunk := by
    apply Option.isSome_iff_exists.mp
    apply isSome_mapM.mpr
    intro h hh
    obtain ⟨a, s⟩ := h
    obtain ⟨hreach, o, ha, rfl⟩ := hreached _ hh
    rw [serDump, fields_declared hmem hdecl hreach ha]
    rfl
  have hstart : holders[0]? = some (conn, .connection) := by
    obtain ⟨rest, rfl⟩ := Worklist.prefix_visit hvisit
    rfl
  refine ⟨_, holders, chunk, by rw [serIalize, hvisit]; exact hdump, hdump, hstart, ?_⟩
  intro a o hreach
  induction hreach generalizing o with
  | refl =>
      intro ho
      obtain ⟨o', ho', hs⟩ := hconn
      cases ho.symm.trans ho'
      exact hs ▸ List.mem_of_getElem? hstart
  | @tail a b hreach hpoints ih =>
      intro hob
      obtain ⟨oa, ha, f, hf, hb⟩ := hpoints
      obtain ⟨ob', hty, hob'⟩ := target_declared hmem hdecl hreach ha hf hb
      cases hob.symm.trans hob'
      obtain ⟨l, hl, hsub⟩ := hclosed _ (ih oa ha)
      refine hsub ((mem_followPtrs hl ha).mpr ⟨f, hf, ?_⟩)
      rw [Obj.value, read_declared hmem hdecl hreach ha hf, hb, hty]
      rfl

theorem roundTrips_of_declared (hconn : ∃ o, mem[conn]? = some o ∧ o.struct = .connection) :
    RoundTrips mem conn := by
  obtain ⟨fuel, holders, chunk, hchunk, hdump, hstart, hmemb⟩ := serIalize_declared hmem hdecl hconn
  have hallocated : ∀ a, Reach mem conn a → ∃ o, mem[a]? = some o := by
    intro a hreach
    induction hreach with
    | refl => exact ⟨_, hconn.choose_spec.1⟩
    | tail hreach hpoints _ =>
        obtain ⟨oa, ha, f, hf, hb⟩ := hpoints
        obtain ⟨ob, -, hob⟩ := target_declared hmem hdecl hreach ha hf hb
        exact ⟨ob, hob⟩
  let φ : Nat → Nat := fun a => holders.idxOf (a, ((mem[a]?).map Obj.struct).getD .connection)
  have hφ : ∀ a o, mem[a]? = some o → φ a = holders.idxOf (a, o.struct) := by
    intro a o ha
    simp [φ, ha]
  refine ⟨fuel, chunk, hchunk, φ, ?_, ?_, ?_⟩
  · obtain ⟨o, ho, hs⟩ := hconn
    rw [hφ conn o ho, hs]
    cases holders with
    | nil => cases hstart
    | cons h rest =>
        cases hstart
        exact List.idxOf_cons_self ..
  · intro a b hra hrb hab
    obtain ⟨o, ho⟩ := hallocated a hra
    obtain ⟨o', ho'⟩ := hallocated b hrb
    rw [hφ a o ho, hφ b o' ho', List.idxOf_inj (hmemb a o hra ho)] at hab
    exact congrArg Prod.fst hab
  · intro a o hreach ha
    obtain ⟨_, o', h₁, ho', hs, hfields⟩ := parsed hdump (hmemb a o hreach ha)
    cases ha.symm.trans h₁
    refine ⟨o', hφ a o ha ▸ ho', hs, fun f hf => ?_⟩
    rw [hfields f hf, Obj.value, read_declared hmem hdecl hreach ha hf, Option.getD_some]
    cases hv : o.member f.offset with
    | bits | str => cases hty : f.type <;> simp [written, Holder.target, Value.rename]
    | ptr b =>
        cases b with
        | none => cases hty : f.type <;> simp [written, Holder.target, Value.rename]
        | some b =>
            obtain ⟨ob, hty, hob⟩ := target_declared hmem hdecl hreach ha hf hv
            simp [written, Holder.target, Value.rename, hty, hφ b ob hob]

end Declared

/-- In a memory where every member has its type a connection comes out as it went in exactly if no number that
it leads to has more bits than are declared, and no list of operating systems a second element. -/
theorem roundTrips_iff (hmem : Typed mem) (hconn : ∃ o, mem[conn]? = some o ∧ o.struct = .connection) :
    RoundTrips mem conn ↔ Declared mem conn :=
  ⟨declared_of_roundTrips hmem hconn, fun hdecl => roundTrips_of_declared hmem hdecl hconn⟩

end Read

/-! ## Samples -/

def CType.zero : CType → Value
  | .bits _ => .bits 0
  | .str => .str none
  | .ptr _ => .ptr none

/-- Nothing but zeros, save for these members. -/
def sampleObj (s : Struct) (members : List (Member × Value)) : Obj where
  struct := s
  member m := (members.lookup m).getD
    ((((translator s).find? (·.offset = m)).map fun f => (memberType s f).zero).getD (.bits 0))

/-- An `os_asset` that is taken for a `serv_asset`: both start alike, and then come two strings. -/
@[reducible] def osLayout : Layout where
  overlap o _ m :=
    match m with
    | .prev | .next | .firstSeen | .lastSeen | .iAttempts => o.member m
    | .service => o.member .vendor
    | .application => o.member .os
    | .role => o.member .detection
    | _ => .bits 0

/-- A connection, the asset of its client, one operating system, and its vendor. -/
def oneOs : Objects :=
  [sampleObj .connection [(.cxid, .bits 7), (.sTotalBytes, .bits 1500), (.cAsset, .ptr (some 1))],
    sampleObj .asset [(.os, .ptr (some 2))], sampleObj .osAsset [(.port, .bits 80), (.vendor, .ptr (some 3))],
    sampleObj .tagstr [(.slen, .bits 5), (.data, .str (some [76, 105, 110, 117, 120]))]]

theorem roundTrips_iff_sample : letI := osLayout
    Typed oneOs ∧ (∃ o, oneOs[0]? = some o ∧ o.struct = .connection) ∧
      (RoundTrips oneOs 0 ↔ Declared oneOs 0) := by
  let _ := osLayout
  have hmem : Typed oneOs := by decide
  have hconn : ∃ o, oneOs[0]? = some o ∧ o.struct = .connection := ⟨_, rfl, rfl⟩
  exact ⟨hmem, hconn, roundTrips_iff hmem hconn⟩

/-- A client with two operating systems. -/
def twoOs : Objects :=
  [sampleObj .connection [(.cAsset, .ptr (some 1))], sampleObj .asset [(.os, .ptr (some 2))],
    sampleObj .osAsset [(.next, .ptr (some 3))], sampleObj .osAsset [(.prev, .ptr (some 2))]]

/-- Five structures are written, the second operating system as a service, and so is the first one once more. -/
theorem not_roundTrips_twoOs : letI := osLayout
    (serIalize 9 twoOs 0).map (·.map Dump.type) =
        some [.connection, .asset, .osAsset, .servAsset, .servAsset] ∧
      ¬ RoundTrips twoOs 0 := by
  let _ := osLayout
  refine ⟨by decide, fun h => ?_⟩
  have hdecl := declared_of_roundTrips (by decide) ⟨_, rfl, rfl⟩ h
  have hasset : Points twoOs 0 1 := ⟨_, rfl, ⟨.ref .asset, "c_asset", .cAsset⟩, by decide, rfl⟩
  have hos : Points twoOs 1 2 := ⟨_, rfl, ⟨.ref .osAsset, "os", .os⟩, by decide, rfl⟩
  obtain ⟨-, hnext⟩ := hdecl.os 2 _ ((Relation.ReflTransGen.single hasset).tail hos) rfl rfl
  cases hnext

end OFM.Prads
