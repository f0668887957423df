import OFM.Bro.Messages
import OFM.Bro.Theorems.Buffers

/-!
# Messages that are loaded again

What has been restored of a message when one of its entities asks for its buffer, and what comes of the
objects in the end.
-/

namespace OFM.Bro.Messages
open OFM.Lib OFM.Lib.Reload OFM.Bro.Buffers

/-! ## Members -/

section Members

variable {O : Ref → Type} {p q : Ref} {members members' : List (Member (O p))} {o o' : O p}
  {Q : (p : Ref) → ((q : Ref) → Option (O q)) → Prop}

theorem serialize_append : serialize (members ++ members') = serialize members ++ serialize members' :=
  List.flatMap_append

theorem follow_mem_serialize : .follow q ∈ serialize members ↔ q ∈ members.flatMap Member.links := by
  simp [serialize, Member.ops]

theorem set_mem_serialize {f : O p → O p} : .set f ∈ serialize members ↔ ∃ m ∈ members, m.put = f := by
  simp [serialize, Member.ops, eq_comm]

theorem resolve_notMem_serialize {f : ((q : Ref) → Option (O q)) → O p → O p} :
    .resolve f ∉ serialize members := by
  simp [serialize, Member.ops]

/-- Loading members is putting them one after the other. -/
theorem runs_serialize : Runs Q p (serialize members) o o' ↔ o' = members.foldl (fun o m => m.put o) o := by
  induction members generalizing o with
  | nil => rfl
  | cons m members ih =>
      have hm : ∀ links : List Ref, ∀ ops, Runs Q p (links.map .follow ++ ops) o o' ↔ Runs Q p ops o o' := by
        intro links ops
        induction links with
        | nil => rfl
        | cons q links ihlinks => exact ihlinks
      rw [serialize, List.flatMap_cons, Member.ops, List.append_assoc, hm, List.foldl_cons]
      exact ih

end Members

/-- Everything but `is_orig`. -/
theorem HTTPMessage.foldl_members (m o : HTTPMessage) :
    m.members.foldl (fun o m => m.put o) o = { m with isOrig := o.isOrig } := by
  cases o
  simp only [members, bufferMembers, ownMembers, MIMEMessage.members, Member.plain, Member.pointer, Member.vector,
    Member.base, List.map_cons, List.map_nil, List.cons_append, List.nil_append, List.foldl_cons, List.foldl_nil]

theorem HTTPAnalyzer.foldl_members {X : Type} (a o : HTTPAnalyzer X) :
    a.members.foldl (fun o m => m.put o) o = a := by
  cases o
  simp only [members, Member.plain, Member.pointer, Member.vector, List.foldl_cons, List.foldl_nil]

theorem Entity.foldl_mimeMembers (e o : Entity) : e.mimeMembers.foldl (fun o m => m.put o) o =
    { o with mime := { e.mime with dataBufData := o.mime.dataBufData } } := by
  obtain ⟨mime, http⟩ := o
  cases mime
  simp only [mimeMembers, MIMEEntity.members, Member.plain, Member.pointer, Member.vector, Member.base,
    List.map_cons, List.map_nil, List.foldl_cons, List.foldl_nil]

theorem Entity.foldl_httpMembers {e o : Entity} (h : o.http.isSome = e.http.isSome) :
    e.httpMembers.foldl (fun o m => m.put o) o = { o with http := e.http } := by
  obtain ⟨mime, http⟩ := e
  obtain ⟨mime', http'⟩ := o
  cases http with
  | none =>
      cases http' with
      | none => rfl
      | some p => cases h
  | some p =>
      cases http' with
      | none => cases h
      | some p' =>
          cases p'
          simp only [httpMembers, HTTPEntity.members, Member.plain, Member.pointer, Member.base, List.map_cons,
            List.map_nil, List.foldl_cons, List.foldl_nil, Option.map_some]

/-! ## Pointers to entities -/

@[simp] theorem AnalyzerRef.ref_ne (a : AnalyzerRef) (e : Nat) : a.ref ≠ .entity e := by
  cases a <;> exact Ref.noConfusion

@[simp] theorem BufferPointer.ref?_ne (b : BufferPointer) (e : Nat) : b.ref? ≠ some (.entity e) := by
  cases b <;> simp [ref?]

theorem HTTPMessage.entity_mem_links {m : HTTPMessage} {e : Nat} :
    .entity e ∈ m.members.flatMap Member.links ↔ m.base.topLevel = some e ∨ m.currentEntity = some e := by
  simp [members, bufferMembers, ownMembers, MIMEMessage.members, Member.plain, Member.pointer, Member.vector,
    Member.base]

theorem MIMEMail.entity_mem_baseLinks {m : MIMEMail} {e : Nat} :
    .entity e ∈ m.baseMembers.flatMap Member.links ↔ m.base.topLevel = some e := by
  simp [baseMembers, MIMEMessage.members, Member.plain, Member.pointer, Member.base]

theorem MIMEMail.entity_notMem_ownLinks {m : MIMEMail} {e : Nat} :
    .entity e ∉ m.ownMembers.flatMap Member.links := by
  simp [ownMembers, Member.plain, Member.pointer, Member.vector]

theorem Entity.entity_mem_mimeLinks {o : Entity} {e : Nat} :
    .entity e ∈ o.mimeMembers.flatMap Member.links ↔
      o.mime.parent = some e ∨ o.mime.currentChildEntity = some e := by
  simp [mimeMembers, MIMEEntity.members, Member.plain, Member.pointer, Member.vector, Member.base]

theorem Entity.entity_notMem_httpLinks {o : Entity} {e : Nat} :
    .entity e ∉ o.httpMembers.flatMap Member.links := by
  rw [httpMembers]
  cases o.http with
  | none => exact List.not_mem_nil
  | some p => simp [HTTPEntity.members, Member.plain, Member.pointer, Member.base]

theorem HTTPAnalyzer.entity_notMem_links {X : Type} {a : HTTPAnalyzer X} {e : Nat} :
    .entity e ∉ a.members.flatMap Member.links := by
  simp [members, Member.plain, Member.pointer, Member.vector, a.base.links_ne]

/-! ## Strings -/

theorem same_loadedString {s : BroString} (hv : s.Valid) (hn : 0 < s.n.toInt) : s.Same (loadedString s) := by
  have hrestored : s.Restored := by
    intro hzero
    rw [hzero] at hn
    exact absurd hn (by decide)
  obtain ⟨items, hsave, hload⟩ := (BroString.restores_iff hv).mpr hrestored
  obtain ⟨s', hrun, hsame⟩ := hload []
  rw [List.append_nil] at hrun
  rwa [loadedString, hsave, Option.bind_some, hrun]

/-- A string with bytes has a buffer again. -/
theorem ne_none_of_same {s s' : BroString} (hv : s.Valid) (hn : 0 < s.n.toInt) (hsame : s.Same s') :
    s'.b ≠ none := by
  intro hnone
  have hread := hsame.1
  have hpos : 0 < bytes s.size := by
    rw [bytes, BroString.toInt_size hv]
    omega
  obtain ⟨b, hb⟩ := Option.isSome_iff_exists.mp hv.2.2
  rw [hnone, hb, CharPointer.read] at hread
  split at hread
  next hle =>
    rw [Option.getD_none, List.length_nil] at hle
    omega
  · cases hread

section Heaps

variable {X : Type} {h : Heap X} {memory : Memory X} {s : State (Obj X)} {p : Ref} {m : MessageRef} {e : Nat}

/-- Entities are pointed to by their message and by each other. -/
theorem Heap.follow_entity (hf : .follow (.entity e) ∈ h.ops p) :
    (∃ e', p = .entity e' ∧ (h.entities e).mime.message = (h.entities e').mime.message) ∨
      ∃ m, p = .message m ∧ (h.entities e).mime.message = some m := by
  cases p with
  | string i => simp [Objects.ops, Objects.members, follow_mem_serialize, Member.plain] at hf
  | entity e' =>
      rw [Objects.ops, List.mem_append, List.mem_cons, follow_mem_serialize, follow_mem_serialize] at hf
      rcases hf with hf | hf | hf
      · exact Or.inl ⟨e', rfl, h.entity_entity e' e (Entity.entity_mem_mimeLinks.mp hf)⟩
      · cases hf
      · exact absurd hf Entity.entity_notMem_httpLinks
  | message m =>
      right
      refine ⟨m, rfl, ?_⟩
      cases m with
      | http i => exact h.httpMessage_entity i e (HTTPMessage.entity_mem_links.mp (follow_mem_serialize.mp hf))
      | mail i =>
          rw [Objects.ops, follow_mem_serialize, Objects.members, MIMEMail.members, List.flatMap_append,
            List.mem_append] at hf
          · exact h.mimeMail_entity i e (MIMEMail.entity_mem_baseLinks.mp
              (hf.resolve_right MIMEMail.entity_notMem_ownLinks))
          · exact fun _ => Ref.noConfusion
  | analyzer i => exact absurd (follow_mem_serialize.mp hf) HTTPAnalyzer.entity_notMem_links
  | other i =>
      have hlinks := follow_mem_serialize.mp hf
      simp [Objects.members, Member.vector, (h.others i).links_ne] at hlinks

/-! ## An entity that asks for its buffer -/

theorem Heap.ops_entity (h : Heap X) (e : Nat) : h.ops (.entity e) = serialize (h.entities e).mimeMembers ++
    .resolve (Entity.setDataBufData (h.diff (h.entities e).mime)) :: serialize (h.entities e).httpMembers := rfl

theorem Heap.During.mem_dom (hs : h.During memory s) (hp : (s.objects p).isSome) : p ∈ h.dom :=
  (h.mem_dom p).mpr (hs.leads p hp)

/-- All members in front of `data_buf_data` have been loaded then. -/
theorem Heap.During.entity_asks {below : List Ref} {f : ((q : Ref) → Option (Obj X q)) → Entity → Entity}
    {ops : List (Op (Obj X) (.entity e))} (hs : h.During memory s) (hstack : s.stack = .entity e :: below)
    (hleft : s.left (.entity e) = .resolve f :: ops) :
    (∃ o, s.objects (.entity e) = some o ∧ o.mime.message = (h.entities e).mime.message) ∧
      ∀ m, (h.entities e).mime.message = some m → (s.objects (.message m)).isSome := by
  have hsound := hs.sound_true
  obtain ⟨o, ho⟩ := Option.isSome_iff_exists.mp (hsound.isSome_of_mem (.entity e) (hstack ▸ List.mem_cons_self))
  obtain ⟨done, hdone⟩ := hsound.known (.entity e) o ho
  have hops : serialize (h.entities e).mimeMembers = done := by
    have heq := hdone.ops_eq
    rw [hleft] at heq
    exact ((List.append_cons_inj_of_notMem resolve_notMem_serialize resolve_notMem_serialize).mp
      ((h.ops_entity e).symm.trans heq)).1
  subst hops
  constructor
  · refine ⟨o, ho, ?_⟩
    rw [runs_serialize.mp hdone.runs, Entity.foldl_mimeMembers]
  · intro m hm
    apply hdone.followed
    rw [follow_mem_serialize]
    simp [Entity.mimeMembers, MIMEEntity.members, Member.plain, Member.pointer, Member.vector, Member.base, hm]

/-! ## Buffers that have been loaded -/

variable {Q : (p : Ref) → ((q : Ref) → Option (Obj X q)) → Prop} {below : List Ref} {b i : Nat}

theorem Heap.leaf_string (h : Heap X) (memory : Memory X) (b : Nat) : Leaf (h.graph memory) (.string b) := by
  intro q hq
  simpa [Objects.members, Member.plain] using follow_mem_serialize.mp (hq : .follow q ∈ h.ops (.string b))

theorem Heap.objects_string (hs : Sound Q (h.graph memory) h.root s) (hb : (s.objects (.string b)).isSome)
    (hstack : .string b ∉ s.stack) : s.objects (.string b) = some (loadedString (h.strings b)) := by
  have hleft := hs.complete (.string b) hb hstack
  obtain ⟨o, ho⟩ := Option.isSome_iff_exists.mp hb
  obtain ⟨done, hdone⟩ := hs.known (.string b) o ho
  have hops := hdone.ops_eq
  rw [hleft, List.append_nil] at hops
  rw [ho, runs_serialize.mp (hops ▸ hdone.runs : Runs Q _ (serialize (h.members (.string b))) _ o)]
  rfl

theorem HTTPMessage.mem_bufferLinks {m : HTTPMessage} {q : Ref} : q ∈ m.bufferMembers.flatMap Member.links ↔
    ∃ b, (b ∈ m.buffers ∨ m.dataBuffer = .string b) ∧ q = .string b := by
  have hpointer : ∀ d : BufferPointer, d.ref? = some q ↔ ∃ b, d = .string b ∧ q = .string b := by
    intro d
    cases d <;> simp [BufferPointer.ref?, eq_comm]
  simp only [bufferMembers, Member.vector, Member.pointer, List.flatMap_cons, List.flatMap_nil, List.append_nil,
    List.mem_append, List.mem_map, Option.mem_toList, hpointer, or_and_right, exists_or]
  simp only [eq_comm]

/-- What has been put into the buffers stays there. -/
theorem HTTPMessage.keeps_buffers (m : HTTPMessage) : ∀ x ∈ m.members, ∀ o : HTTPMessage,
    o.buffers = m.buffers ∧ o.dataBuffer = m.dataBuffer →
      (x.put o).buffers = m.buffers ∧ (x.put o).dataBuffer = m.dataBuffer := by
  simp +contextual [members, bufferMembers, ownMembers, MIMEMessage.members, Member.plain, Member.pointer,
    Member.vector, Member.base]

/-- The buffers of an HTTP message are there before anything else of it is loaded. -/
theorem Heap.buffersRestored (hs : Sound Q (h.graph memory) h.root s) (hstack : s.stack = .entity e :: below)
    (hi : (s.objects (.message (.http i))).isSome) : h.BuffersRestored s.objects (.http i) := by
  let m := h.httpMessages i
  obtain ⟨o, ho⟩ := Option.isSome_iff_exists.mp hi
  have hops : (h.graph memory).ops (.message (.http i)) = serialize m.bufferMembers ++
      serialize (m.base.members.map (.base fun f o => { o with base := f o.base }) ++ m.ownMembers) := by
    rw [← serialize_append, ← List.append_assoc]
    rfl
  have hbefore : ∀ r, .follow r ∈ serialize (O := Obj X) (p := .message (.http i)) m.bufferMembers →
      Leaf (h.graph memory) r ∧ r ≠ .entity e := by
    intro r hr
    obtain ⟨b, -, rfl⟩ := HTTPMessage.mem_bufferLinks.mp (follow_mem_serialize.mp hr)
    exact ⟨h.leaf_string memory b, Ref.noConfusion⟩
  obtain ⟨done, hdone⟩ := hs.exists_done hstack Ref.noConfusion ho hops hbefore
  obtain ⟨o₁, hbuffers, hrest⟩ := runs_append.mp hdone.runs
  have hmem : ∀ op ∈ done, op ∈ serialize (O := Obj X) (p := .message (.http i)) m.members := by
    intro op hop
    show op ∈ (h.graph memory).ops (.message (.http i))
    rw [hdone.ops_eq]
    simp [hop]
  have hkeeps : o.buffers = m.buffers ∧ o.dataBuffer = m.dataBuffer := by
    apply hrest.invariant (I := fun o : HTTPMessage => o.buffers = m.buffers ∧ o.dataBuffer = m.dataBuffer)
    · rw [runs_serialize.mp hbuffers]
      exact ⟨rfl, rfl⟩
    · intro f hf o ho
      obtain ⟨x, hx, rfl⟩ := set_mem_serialize.mp (hmem _ hf)
      exact m.keeps_buffers x hx o ho
    · intro f hf
      exact absurd (hmem _ hf) resolve_notMem_serialize
  refine ⟨o, ho, hkeeps.1, hkeeps.2, fun b hb => ?_⟩
  have hknown : (s.objects (.string b)).isSome := by
    apply hdone.followed
    rw [List.mem_append, follow_mem_serialize]
    exact Or.inl (HTTPMessage.mem_bufferLinks.mpr ⟨b, hb, rfl⟩)
  obtain ⟨hv, hn⟩ := h.filled b ⟨i, hb⟩
  exact ⟨_, h.objects_string hs hknown (hs.leaf_notMem_stack hstack (h.leaf_string memory b) Ref.noConfusion),
    same_loadedString hv hn⟩

/-! ## Pointers into buffers -/

theorem toInt_of_le {n : BitVec 32} {offset : Nat} (hn : offset ≤ bytes n) : toInt offset = offset := by
  have hlt : bytes n < 2 ^ 31 := by
    have := n.toInt_lt
    rw [bytes]
    omega
  rw [toInt, BitVec.toInt_ofInt, Int.bmod_eq_of_le] <;> omega

variable {loaded : (q : Ref) → Option (Obj X q)}

theorem Heap.bytesPlus_eq (hb : (h.strings b).Valid ∧ 0 < (h.strings b).n.toInt) (hr : h.StringRestored loaded b)
    (d : Int) : bytesPlus loaded b d = .inside b d.toNat := by
  obtain ⟨s, hs, hsame⟩ := hr
  have hne := ne_none_of_same hb.1 hb.2 hsame
  obtain ⟨c, n, finalNUL, useFree⟩ := s
  cases c with
  | none => exact absurd rfl hne
  | some c => rw [bytesPlus, hs]

theorem Heap.getBuffer_eq (hr : h.BuffersRestored loaded (.http i))
    (hb : h.currentBuffer (.http i) = some b) (d : Int) : getBuffer loaded d (.http i) = .inside b d.toNat := by
  obtain ⟨m, hm, hbuffers, hdata, hstrings⟩ := hr
  have hmem : b ∈ (h.httpMessages i).buffers ∨ (h.httpMessages i).dataBuffer = .string b := by
    rw [Objects.currentBuffer] at hb
    split at hb
    next b' hb' =>
      cases hb
      exact Or.inr hb'
    · exact Or.inl (List.mem_of_getLast? hb)
  rw [getBuffer, hm]
  simp only [hdata, hbuffers]
  rw [Objects.currentBuffer] at hb
  cases hd : (h.httpMessages i).dataBuffer with
  | unset => exact absurd hd (h.httpMessage_ne i)
  | null =>
      simp only [hd] at hb
      simp only [hb]
      exact h.bytesPlus_eq (h.filled b ⟨i, hmem⟩) (hstrings b hmem) d
  | string b' =>
      simp only [hd, Option.some.injEq] at hb
      subst hb
      exact h.bytesPlus_eq (h.filled b' ⟨i, hmem⟩) (hstrings b' hmem) d

/-- How far into the current buffer a pointer into it is. -/
theorem Heap.diff_current (hm : (h.entities e).mime.message = some m) (hb : h.currentBuffer m = some b) {offset : Nat}
    (hd : (h.entities e).mime.dataBufData = .inside b offset) : h.diff (h.entities e).mime = offset := by
  have hsub : h.bytesAt b + offset - h.bytesAt b = offset := by omega
  simp only [Objects.diff, hd, hm, Objects.getBufferDiff, hb]
  rw [hsub, toInt_of_le (h.within e b offset hd)]

theorem Heap.diff_null (hd : (h.entities e).mime.dataBufData = .null) : h.diff (h.entities e).mime = -1 := by
  simp only [Objects.diff, hd]

/-- The pointer of an entity comes back if it pointed into the current buffer. -/
theorem Heap.dataBufData_eq_iff (hm : (h.entities e).mime.message = some (.http i))
    (hr : h.BuffersRestored loaded (.http i)) :
    dataBufData (h.diff (h.entities e).mime) loaded (some (.http i)) = (h.entities e).mime.dataBufData ↔
      h.Current e := by
  cases hd : (h.entities e).mime.dataBufData with
  | undefined => exact absurd hd (h.entity_ne e)
  | null =>
      refine iff_of_true ?_ (Or.inl hd)
      rw [h.diff_null hd]
      rfl
  | inside b offset =>
      have hcurrent : h.Current e ↔ h.currentBuffer (.http i) = some b := by
        constructor
        · rintro (hnull | ⟨m, b', offset', hm', hb', hd'⟩)
          · rw [hd] at hnull
            cases hnull
          · rw [hm] at hm'
            rw [hd] at hd'
            cases hm'
            cases hd'
            exact hb'
        · exact fun hb => Or.inr ⟨.http i, b, offset, hm, hb, hd⟩
      rw [hcurrent]
      constructor
      · intro heq
        cases hc : h.currentBuffer (.http i) with
        | none => simp [dataBufData, Objects.diff, hd, hm, Objects.getBufferDiff, hc] at heq
        | some c =>
            rw [dataBufData] at heq
            split at heq
            · cases heq
            · simp only [h.getBuffer_eq hr hc, Address.inside.injEq] at heq
              rw [heq.1]
      · intro hb
        rw [dataBufData, h.diff_current hm hb hd, if_neg (by omega)]
        exact h.getBuffer_eq hr hb offset

/-! ## Entities that have been loaded -/

/-- Whenever an entity of an HTTP message asks for its buffer. -/
def Heap.BuffersThere (h : Heap X) : (p : Ref) → ((q : Ref) → Option (Obj X q)) → Prop
  | .entity e, loaded => ∀ i, (h.entities e).mime.message = some (.http i) → h.BuffersRestored loaded (.http i)
  | _, _ => True

theorem Heap.During.sound (hs : h.During memory s) : Sound h.BuffersThere (h.graph memory) h.root s := by
  refine Loading.sound hs fun t p below f ops ht hstack hleft => ?_
  cases p with
  | entity e =>
      intro i hi
      exact h.buffersRestored ht.sound_true hstack ((Heap.During.entity_asks ht hstack hleft).2 (.http i) hi)
  | string i => trivial
  | message m => trivial
  | analyzer i => trivial
  | other i => trivial

theorem Heap.Loads.isSome_iff (hl : h.Loads memory s) : (s.objects p).isSome ↔ p ∈ h.dom :=
  (Loaded.isSome_iff hl).trans (h.mem_dom p).symm

/-- An entity with another pointer. -/
def Entity.withDataBufData (e : Entity) (address : Address) : Entity :=
  { e with mime := { e.mime with dataBufData := address } }

theorem Entity.withDataBufData_eq_iff {e : Entity} {address : Address} :
    e.withDataBufData address = e ↔ address = e.mime.dataBufData := by
  constructor
  · intro heq
    rw [← heq]
    rfl
  · rintro rfl
    rfl

/-- An entity in the end, with the objects as they were when it asked for its buffer. -/
theorem Heap.Loads.objects_entity (hl : h.Loads memory s) (he : .entity e ∈ h.dom) : ∃ loaded,
    h.BuffersThere (.entity e) loaded ∧ s.objects (.entity e) = some ((h.entities e).withDataBufData
      (dataBufData (h.diff (h.entities e).mime) loaded (h.entities e).mime.message)) := by
  obtain ⟨o, ho⟩ := Option.isSome_iff_exists.mp (hl.isSome_iff.mpr he)
  obtain ⟨-, -, hruns⟩ := (Heap.During.sound hl.1).all_done hl.2 ho
  obtain ⟨o₁, hmime, loaded, hloaded, hhttp⟩ := runs_append.mp hruns
  refine ⟨loaded, hloaded, ?_⟩
  replace hmime := (runs_serialize.mp hmime).trans (Entity.foldl_mimeMembers (h.entities e) _)
  have hsome : (Entity.setDataBufData (h.diff (h.entities e).mime) loaded o₁).http.isSome =
      (h.entities e).http.isSome := by
    rw [hmime]
    exact Option.isSome_map
  rw [ho, (runs_serialize.mp hhttp).trans (Entity.foldl_httpMembers hsome), hmime]
  rfl

/-! ## Other objects that have been loaded -/

theorem Heap.exists_loads (h : Heap X) (memory : Memory X) : ∃ s, h.Loads memory s :=
  exists_loaded _ _ h.dom fun p hp => (h.mem_dom p).mpr hp

theorem Heap.mem_dom_of_follow {q : Ref} (hp : p ∈ h.dom) (hq : .follow q ∈ h.ops p) : q ∈ h.dom :=
  (h.mem_dom q).mpr (((h.mem_dom p).mp hp).tail hq)

theorem Heap.Loads.objects_eq (hl : h.Loads memory s) (hp : p ∈ h.dom) (hops : h.ops p = serialize (h.members p)) :
    s.objects p = some ((h.members p).foldl (fun o m => m.put o) (h.fresh memory p)) := by
  obtain ⟨o, ho⟩ := Option.isSome_iff_exists.mp (hl.isSome_iff.mpr hp)
  have hruns : Runs h.BuffersThere p (h.ops p) (h.fresh memory p) o :=
    ((Heap.During.sound hl.1).all_done hl.2 ho).runs
  rw [hops, runs_serialize] at hruns
  rw [ho, hruns]

/-- An HTTP message is now one of a responder. -/
theorem Heap.Loads.objects_http (hl : h.Loads memory s) (hi : .message (.http i) ∈ h.dom) :
    s.objects (.message (.http i)) = some { h.httpMessages i with isOrig := false } := by
  rw [hl.objects_eq hi rfl]
  exact congrArg some (HTTPMessage.foldl_members (h.httpMessages i) _)

theorem Heap.Loads.objects_analyzer {a : Nat} (hl : h.Loads memory s) (ha : .analyzer a ∈ h.dom) :
    s.objects (.analyzer a) = some (h.httpAnalyzers a) := by
  rw [hl.objects_eq ha rfl]
  exact congrArg some (HTTPAnalyzer.foldl_members (h.httpAnalyzers a) _)

theorem Heap.Loads.objects_other {j : Nat} (hl : h.Loads memory s) (hj : .other j ∈ h.dom) :
    s.objects (.other j) = some (h.others j) :=
  hl.objects_eq hj rfl

theorem Heap.Loads.buffersRestored (hl : h.Loads memory s) (hi : .message (.http i) ∈ h.dom) :
    h.BuffersRestored s.objects (.http i) := by
  refine ⟨_, hl.objects_http hi, rfl, rfl, fun b hb => ?_⟩
  have hfollow : .follow (.string b) ∈ h.ops (.message (.http i)) := by
    apply follow_mem_serialize.mpr
    rw [Objects.members, HTTPMessage.members, List.append_assoc, List.flatMap_append, List.mem_append]
    exact Or.inl (HTTPMessage.mem_bufferLinks.mpr ⟨b, hb, rfl⟩)
  obtain ⟨hv, hn⟩ := h.filled b ⟨i, hb⟩
  exact ⟨_, hl.objects_eq (h.mem_dom_of_follow hi hfollow) rfl, same_loadedString hv hn⟩

theorem Heap.Archived.message_mem (he : h.Archived m e) : .message m ∈ h.dom := by
  refine h.mem_dom_of_follow he.1 ?_
  rw [h.ops_entity, List.mem_append, follow_mem_serialize]
  left
  simp [Entity.mimeMembers, MIMEEntity.members, Member.plain, Member.pointer, Member.vector, Member.base, he.2]

theorem Heap.header_mem {j : Nat} (he : .entity e ∈ h.dom) (hj : j ∈ (h.entities e).mime.headers) :
    .other j ∈ h.dom := by
  refine h.mem_dom_of_follow he ?_
  rw [h.ops_entity, List.mem_append, follow_mem_serialize]
  left
  simp [Entity.mimeMembers, MIMEEntity.members, Member.plain, Member.pointer, Member.vector, Member.base, hj]

theorem Heap.MessageOf.message_mem {a : Nat} (ha : .analyzer a ∈ h.dom) (hi : h.MessageOf a i) :
    .message (.http i) ∈ h.dom := by
  refine h.mem_dom_of_follow ha ?_
  rw [Objects.ops, follow_mem_serialize, Objects.members]
  · simp only [HTTPAnalyzer.members, Member.plain, Member.pointer, Member.vector, List.flatMap_cons,
      List.flatMap_nil, List.append_nil, List.nil_append, List.mem_append, Option.mem_toList, Option.map_eq_some_iff]
    rcases hi with hi | hi <;> simp [hi]
  · exact fun _ => Ref.noConfusion

/-- An entity of an HTTP message comes back as it was if its pointer was into the current buffer. -/
theorem Heap.Loads.entity_eq_iff (hl : h.Loads memory s) (he : h.Archived (.http i) e) :
    s.objects (.entity e) = some (h.entities e) ↔ h.Current e := by
  obtain ⟨loaded, hloaded, heq⟩ := hl.objects_entity he.1
  rw [heq, Option.some.injEq, Entity.withDataBufData_eq_iff, he.2]
  exact h.dataBufData_eq_iff he.2 (hloaded i he.2)

/-! ## Mails -/

/-- A mail has no buffer while its entities are loaded. -/
theorem Heap.During.mail_unset (hs : h.During memory s) (hstack : s.stack = .entity e :: below)
    (hm : (h.entities e).mime.message = some (.mail i)) :
    ∃ o, s.objects (.message (.mail i)) = some o ∧ o.dataBuffer = .unset := by
  have hsound := hs.sound_true
  let m := h.mimeMails i
  obtain ⟨q, r, ⟨e', rfl, he'⟩, hr, hmem, hinside⟩ := hsound.exists_entry
    (I := fun p => ∃ e, p = .entity e ∧ (h.entities e).mime.message = some (.mail i))
    (fun ⟨e, he, _⟩ => h.root_ne e he) hstack ⟨e, rfl, hm⟩
  have hfollow : .follow (.entity e') ∈ h.ops r := by
    obtain ⟨done, hdone⟩ := hinside
    show .follow (.entity e') ∈ (h.graph memory).ops r
    rw [hdone]
    simp
  -- What it is loaded inside is the mail.
  obtain rfl : r = .message (.mail i) := by
    rcases h.follow_entity hfollow with ⟨e'', rfl, heq⟩ | ⟨m, rfl, hm'⟩
    · exact absurd ⟨e'', rfl, heq.symm.trans he'⟩ hr
    · rw [he', Option.some.injEq] at hm'
      rw [hm']
  obtain ⟨o, ho⟩ := Option.isSome_iff_exists.mp (hsound.isSome_of_mem _ hmem)
  obtain ⟨done, hdone⟩ := hsound.known _ o ho
  have hpre : done <+: serialize (O := Obj X) (p := .message (.mail i)) m.baseMembers :=
    hdone.prefix_of_inside hinside serialize_append
      (fun hmem => MIMEMail.entity_notMem_ownLinks (follow_mem_serialize.mp hmem))
  refine ⟨o, ho, ?_⟩
  apply hdone.runs.invariant (I := fun o : MIMEMail => o.dataBuffer = .unset)
  · rfl
  · intro f hf o ho
    obtain ⟨x, hx, rfl⟩ := set_mem_serialize.mp (hpre.subset hf)
    obtain ⟨y, -, rfl⟩ := List.mem_map.mp hx
    exact ho
  · intro f hf
    exact absurd (hpre.subset hf) resolve_notMem_serialize

/-! ## Calls of GetBuffer -/

/-- The entity that calls `GetBuffer` is one of the message, and its pointer was not null. -/
theorem Heap.Calls.archived (hs : h.During memory s) (hcalls : h.Calls s m) : ∃ e below, h.Archived m e ∧
    s.stack = .entity e :: below ∧ (s.objects (.message m)).isSome ∧ 0 ≤ h.diff (h.entities e).mime := by
  obtain ⟨e, below, f, ops, hstack, hleft, hdiff, o, ho, hm⟩ := hcalls
  obtain ⟨⟨o', ho', hm'⟩, hknown⟩ := Heap.During.entity_asks hs hstack hleft
  obtain rfl := Option.some.inj (ho.symm.trans ho')
  rw [hm] at hm'
  exact ⟨e, below, ⟨hs.mem_dom (by rw [ho]; rfl), hm'.symm⟩, hstack, hknown m hm'.symm, hdiff⟩

theorem Heap.pointersSurvive_http (hcurrent : ∀ e, h.Archived (.http i) e → h.Current e) :
    h.PointersSurvive memory (.http i) := by
  constructor
  · intro s hs hcalls
    obtain ⟨e, below, -, hstack, hknown, -⟩ := hcalls.archived hs
    exact h.buffersRestored hs.sound_true hstack hknown
  · obtain ⟨s, hl⟩ := h.exists_loads memory
    exact ⟨s, hl, fun e he => ⟨_, (hl.entity_eq_iff he).mpr (hcurrent e he), rfl⟩⟩

theorem Heap.pointersSurvive_of_null (hnull : ∀ e, h.Archived m e → (h.entities e).mime.dataBufData = .null) :
    h.PointersSurvive memory m := by
  constructor
  · intro s hs hcalls
    obtain ⟨e, below, he, -, -, hdiff⟩ := hcalls.archived hs
    rw [h.diff_null (hnull e he)] at hdiff
    omega
  · obtain ⟨s, hl⟩ := h.exists_loads memory
    refine ⟨s, hl, fun e he => ?_⟩
    obtain ⟨loaded, -, heq⟩ := hl.objects_entity he.1
    refine ⟨_, heq, ?_⟩
    rw [hnull e he, h.diff_null (hnull e he)]
    rfl

/-- In a mail `GetBuffer` is called before there is a buffer. -/
theorem Heap.null_of_mail (hsurvive : h.PointersSurvive memory (.mail i)) (he : h.Archived (.mail i) e)
    (hcurrent : h.Current e) : (h.entities e).mime.dataBufData = .null := by
  rcases hcurrent with hnull | ⟨m, b, offset, hm, hb, hd⟩
  · exact hnull
  · obtain ⟨s, hl⟩ := h.exists_loads memory
    obtain ⟨t, below, ht, hstack, hleft⟩ := Loaded.exists_taken hl (hl.isSome_iff.mpr he.1) (h.ops_entity e)
    obtain ⟨⟨o, ho, hmessage⟩, -⟩ := Heap.During.entity_asks ht hstack hleft
    have hcalls : h.Calls t (.mail i) := by
      refine ⟨e, below, _, _, hstack, hleft, ?_, o, ho, hmessage.trans he.2⟩
      rw [h.diff_current hm hb hd]
      omega
    obtain ⟨o, ho, hdata, -⟩ := hsurvive.1 t ht hcalls
    obtain ⟨o', ho', hunset⟩ := Heap.During.mail_unset ht hstack he.2
    obtain rfl := Option.some.inj (ho.symm.trans ho')
    exact absurd (hdata.symm.trans hunset) (h.mimeMail_ne i)

end Heaps

end OFM.Bro.Messages
