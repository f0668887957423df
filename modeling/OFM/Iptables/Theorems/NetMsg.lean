import OFM.Iptables.NetMsg

/-!
# What a message holds

The attributes that `build_payload` writes, into whatever block of memory, and what `parse_payload` accepts.
-/

namespace OFM.Iptables
open OFM.Lib

/-! ## Tables -/

/-- The index of an attribute leads to it. -/
theorem ntaAttrs_code (nta : NtaAttr) : ntaAttrs[nta.code.toNat]? = some nta := by
  cases nta <;> rfl

theorem code_of_ntaAttrs {nta : NtaAttr} {tag : BitVec 16} (h : ntaAttrs[tag.toNat]? = some nta) :
    tag = nta.code := by
  have hnodup : ntaAttrs.Nodup := by decide
  obtain ⟨hlt, hget⟩ := List.getElem?_eq_some_iff.mp h
  have hidx : ntaAttrs.idxOf nta = tag.toNat := by
    rw [← hget]
    exact hnodup.idxOf_getElem tag.toNat hlt
  rw [NtaAttr.code, hidx, BitVec.ofNat_toNat, BitVec.setWidth_eq]

theorem ntaAttrs_eq_none_iff (i : Nat) : ntaAttrs[i]? = none ↔ ntaMax ≤ i := List.getElem?_eq_none_iff

/-- The function at an index reads what the size at the index leaves room for. -/
@[simp] theorem parserOf_width (nta : NtaAttr) : (parserOf nta).parse.width = (parserOf nta).dataSize := by
  cases nta <;> rfl

theorem parserOf_dataSize (nta : NtaAttr) : 1 ≤ (parserOf nta).dataSize ∧ (parserOf nta).dataSize ≤ 32 := by
  cases nta <;> decide

/-! ## Fields -/

/-- An attribute of a message with its data. -/
def field (attr : NtaAttr) (data : List (BitVec 8)) : Field := ⟨attr.code, data⟩

/-- A field that `parse_payload` knows, of the size that it expects. -/
def Known (f : Field) : Prop := ∃ nta, f.tag = nta.code ∧ f.value.length = (parserOf nta).dataSize

/-- What a field does to the connection. -/
def receive (ct : NfConntrack) (f : Field) : NfConntrack :=
  match ntaAttrs[f.tag.toNat]? with
  | none => ct
  | some nta => (parserOf nta).parse.run f.value ct

@[simp] theorem receive_field (ct : NfConntrack) (nta : NtaAttr) (data : List (BitVec 8)) :
    receive ct (field nta data) = (parserOf nta).parse.run data ct := by
  rw [receive, field, ntaAttrs_code]

theorem known_field {nta : NtaAttr} {data : List (BitVec 8)} (h : data.length = (parserOf nta).dataSize) :
    Known (field nta data) := ⟨nta, rfl, h⟩

theorem Known.length_le {f : Field} (h : Known f) : 5 ≤ f.length ∧ f.length ≤ 36 := by
  obtain ⟨nta, -, hlength⟩ := h
  have := parserOf_dataSize nta
  rw [Field.length, hlength]
  omega

/-! ## Writing -/

namespace Net

/-- A message with fields behind what it has already. -/
def appended (n : Net) (fs : List Field) : Net where
  hdr := { n.hdr with len := n.hdr.len + BitVec.ofNat 16 (encode fs).length }
  block := n.block.take n.hdr.len.toNat ++
    (encode fs ++ n.block.drop (n.hdr.len.toNat + (encode fs).length))

/-- There is room for the fields in the block, and every place in it has a word for its number. -/
def Room (n : Net) (fs : List Field) : Prop :=
  n.hdr.len.toNat + (encode fs).length ≤ n.block.length ∧ n.block.length < 2 ^ 16

variable {n : Net} {fs gs : List Field}

theorem Room.append_left (h : n.Room (fs ++ gs)) : n.Room fs := by
  obtain ⟨hroom, hword⟩ := h
  rw [encode_append, List.length_append] at hroom
  exact ⟨by omega, hword⟩

theorem appended_len (h : n.Room fs) :
    (n.appended fs).hdr.len.toNat = n.hdr.len.toNat + (encode fs).length := by
  obtain ⟨hroom, hword⟩ := h
  rw [appended, BitVec.toNat_add, BitVec.toNat_ofNat, Nat.mod_eq_of_lt (a := (encode fs).length) (by omega),
    Nat.mod_eq_of_lt (by omega)]

theorem appended_block_length (h : n.Room fs) : (n.appended fs).block.length = n.block.length := by
  have hroom := h.1
  rw [appended, List.length_append, List.length_append, List.length_take, List.length_drop]
  omega

theorem Room.append_right (h : n.Room (fs ++ gs)) : (n.appended fs).Room gs := by
  have hfs := h.append_left
  obtain ⟨hroom, hword⟩ := h
  rw [encode_append, List.length_append] at hroom
  refine ⟨?_, ?_⟩
  · rw [appended_len hfs, appended_block_length hfs]
    omega
  · rwa [appended_block_length hfs]

@[simp] theorem appended_nil (n : Net) : n.appended [] = n := by
  simp [appended]

/-- Fields go behind one another. -/
theorem appended_appended (h : n.Room (fs ++ gs)) :
    (n.appended fs).appended gs = n.appended (fs ++ gs) := by
  have hfs := h.append_left
  have hlen := appended_len hfs
  have hroom := h.1
  rw [encode_append, List.length_append] at hroom
  have hpre : (n.block.take n.hdr.len.toNat ++ encode fs).length =
      n.hdr.len.toNat + (encode fs).length := by
    rw [List.length_append, List.length_take_of_le (by omega)]
  have hblock : (n.appended fs).block = (n.block.take n.hdr.len.toNat ++ encode fs) ++
      n.block.drop (n.hdr.len.toNat + (encode fs).length) := by
    rw [appended, List.append_assoc]
  rw [appended, hlen, hblock, List.take_left' hpre, ← List.drop_drop, List.drop_left' hpre, List.drop_drop]
  simp only [appended, encode_append, List.length_append, List.append_assoc, BitVec.ofNat_add,
    BitVec.add_assoc, Nat.add_assoc]

end Net

/-- What a function of `build.c` does to every message: it puts fields behind it if a condition holds, and does
not come to an end otherwise. -/
structure Writes (build : Net → Except Halt Net) (complete : Prop) (fs : List Field) : Prop where
  writes : complete → ∀ n : Net, n.Room fs → build n = .ok (n.appended fs)
  crashes : ¬ complete → ∀ n : Net, build n = .error .crashed

namespace Writes

variable {build build' : Net → Except Halt Net} {p q : Prop} {fs gs : List Field} {c : Prop} [Decidable c]

theorem skip : Writes pure True [] :=
  ⟨fun _ n _ => by rw [n.appended_nil]; rfl, fun h => absurd trivial h⟩

theorem bind (hf : Writes build p fs) (hg : Writes build' q gs) :
    Writes (fun n => build n >>= build') (p ∧ q) (fs ++ gs) := by
  constructor
  · rintro ⟨hp, hq⟩ n hroom
    rw [hf.writes hp n hroom.append_left, ← Net.appended_appended hroom]
    exact hg.writes hq _ hroom.append_right
  · intro hpq n
    by_cases hp : p
    · cases hbuild : build n with
      | error halt => cases halt; rfl
      | ok n' => exact hg.crashes (fun hq => hpq ⟨hp, hq⟩) n'
    · rw [hf.crashes hp n]
      rfl

theorem ite (hf : c → Writes build p fs) (hg : ¬ c → Writes build' q gs) :
    Writes (fun n => if c then build n else build' n) (if c then p else q) (if c then fs else gs) := by
  by_cases hc : c
  · simpa only [if_pos hc] using hf hc
  · simpa only [if_neg hc] using hg hc

/-- What is only done under a condition. -/
theorem optional (hf : c → Writes build True fs) :
    Writes (fun n => if c then build n else pure n) True (if c then fs else []) := by
  simpa only [ite_self] using ite hf fun _ => skip

theorem of_iff (h : Writes build p fs) (hpq : p ↔ q) : Writes build q fs := propext hpq ▸ h

end Writes

/-- Room in a block is split into the parts that are stored one by one. -/
theorem exists_split {α : Type} {block : List α} {offset a b c : Nat} (h : offset + (a + (b + c)) ≤ block.length) :
    ∃ before x y z after, block = before ++ (x ++ (y ++ (z ++ after))) ∧ before.length = offset ∧
      x.length = a ∧ y.length = b ∧ z.length = c := by
  refine ⟨block.take offset, (block.drop offset).take a, (block.drop (offset + a)).take b,
    (block.drop (offset + a + b)).take c, block.drop (offset + a + b + c), ?_, ?_, ?_, ?_, ?_⟩
  · simp only [← List.drop_drop, List.take_append_drop]
  all_goals simp only [List.length_take, List.length_drop]; omega

/-- The header of an attribute with zeros where its data does not reach, then the data. -/
theorem putHeader_memcpy {n : Net} {attr : NtaAttr} {data : List (BitVec 8)} (h : n.Room [field attr data]) :
    (do let (n, ptr) ← putHeader n attr data.length; n.memcpy ptr data) =
      .ok (n.appended [field attr data]) := by
  set f := field attr data with hf
  have hsize : (encode [f]).length = f.size := by simp
  have hroom := h.1
  rw [hsize, ← Field.length_add_padding, Field.length, Nat.add_assoc] at hroom
  obtain ⟨before, x, y, z, after, hblock, hbefore, hx, hy, hz⟩ := exists_split hroom
  have hheader : bytes16 (BitVec.ofNat 16 (4 + data.length)) ++ bytes16 attr.code = f.header := rfl
  have hpadding : align4 (4 + data.length) - (4 + data.length) = f.padding := rfl
  have hvalue : f.value = data := rfl
  rw [hvalue] at hy
  have hstored : poke n.block before.length f.header = some (before ++ (f.header ++ (y ++ (z ++ after)))) := by
    rw [hblock]
    exact poke_append hx
  have hzeroed : poke (before ++ (f.header ++ (y ++ (z ++ after)))) (before.length + (4 + data.length))
      (List.replicate f.padding 0) =
      some (before ++ (f.header ++ (y ++ (List.replicate f.padding 0 ++ after)))) := by
    have hpre : (before ++ (f.header ++ y)).length = before.length + (4 + data.length) := by
      rw [List.length_append, List.length_append, hy, Field.header_length]
    have hpoke : poke ((before ++ (f.header ++ y)) ++ (z ++ after)) (before ++ (f.header ++ y)).length
        (List.replicate f.padding 0) = some ((before ++ (f.header ++ y)) ++ (List.replicate f.padding 0 ++ after)) :=
      poke_append (by rw [hz, List.length_replicate])
    rw [hpre] at hpoke
    simpa only [List.append_assoc] using hpoke
  have hcopied : poke (before ++ (f.header ++ (y ++ (List.replicate f.padding 0 ++ after))))
      (before.length + 4) data =
      some (before ++ (f.header ++ (data ++ (List.replicate f.padding 0 ++ after)))) := by
    have hpoke : poke ((before ++ f.header) ++ (y ++ (List.replicate f.padding 0 ++ after)))
        (before ++ f.header).length data =
        some ((before ++ f.header) ++ (data ++ (List.replicate f.padding 0 ++ after))) := poke_append hy
    rw [List.length_append, Field.header_length] at hpoke
    simpa only [List.append_assoc] using hpoke
  have htake : n.block.take n.hdr.len.toNat = before := by rw [hblock, List.take_left' hbefore]
  have hdrop : n.block.drop (n.hdr.len.toNat + f.size) = after := by
    have hpre : (before ++ (x ++ (y ++ z))).length = n.hdr.len.toNat + f.size := by
      simp only [List.length_append, hx, hy, hz, hbefore, ← Field.length_add_padding, Field.length, hvalue,
        Nat.add_assoc]
    rw [hblock, ← List.append_assoc y, ← List.append_assoc x, ← List.append_assoc before,
      List.drop_left' hpre]
  have hfields : n.appended [f] =
      { hdr := { n.hdr with len := n.hdr.len + BitVec.ofNat 16 f.size }
        block := before ++ (f.header ++ (data ++ (List.replicate f.padding 0 ++ after))) } := by
    rw [Net.appended, hsize, htake, hdrop, encode_cons, encode_nil, List.append_nil, Field.bytes, hvalue]
    simp only [List.append_assoc]
  rw [hfields]
  simp only [putHeader, Net.memcpy, hheader, hpadding, ← hbefore, hstored, orCrash, hzeroed, hcopied, bind,
    Except.bind, pure, Except.pure]
  rfl

theorem addattr_writes (attr : NtaAttr) (data : List (BitVec 8)) :
    Writes (fun n => addattr n attr data) True [field attr data] :=
  ⟨fun _ _ hroom => putHeader_memcpy hroom, fun h => absurd trivial h⟩

/-! ## What is written -/

section Fields

variable (ct : NfConntrack)

/-- The memory of a group that is set. -/
def NfConntrack.getGrp (grp : AttrGrp) : List (BitVec 8) := (ct.grp grp).elim [] (·.1)

theorem buildU8_writes (a : Attr8) (b : NtaAttr) :
    Writes (fun n => buildU8 ct a n b) (ct.u8 a).isSome [field b [ct.getU8 a]] := by
  constructor
  · intro hset n hroom
    obtain ⟨value, hvalue⟩ := Option.isSome_iff_exists.mp hset
    rw [NfConntrack.getU8, hvalue] at hroom ⊢
    have hcopied := putHeader_memcpy hroom
    rw [← hcopied]
    simp only [buildU8, hvalue, orCrash, bind, Except.bind]
    rfl
  · intro hset n
    rw [Option.not_isSome_iff_eq_none] at hset
    simp only [buildU8, hset, orCrash, bind, Except.bind]
    cases putHeader n b 1 with
    | error halt => cases halt; rfl
    | ok _ => rfl

theorem buildGroup_writes (a : AttrGrp) (b : NtaAttr) (h : (ct.grp a).isSome) :
    Writes (fun n => buildGroup ct a n b) True [field b (ct.getGrp a)] := by
  refine ⟨fun _ n hroom => ?_, fun hn => absurd trivial hn⟩
  obtain ⟨data, hdata⟩ := Option.isSome_iff_exists.mp h
  rw [NfConntrack.getGrp, hdata] at hroom ⊢
  have hcopied := putHeader_memcpy hroom
  rw [← hcopied]
  simp only [buildGroup, hdata, Option.elim_some, data.2]

/-- What is written for a protocol. -/
def NfConntrack.l4protoFields (l4proto : BitVec 8) : List Field :=
  if l4proto = ipprotoTcp then
    if (ct.u8 .tcpState).isNone then [] else [field .tcpState [ct.getU8 .tcpState]]
  else if l4proto = ipprotoSctp then
    if (ct.u8 .sctpState).isNone then []
    else
      [field .sctpState [ct.getU8 .sctpState]] ++
        ([field .sctpVtagOrig (bytes32 (ct.getU32 .sctpVtagOrig))] ++
          [field .sctpVtagRepl (bytes32 (ct.getU32 .sctpVtagRepl))])
  else if l4proto = ipprotoDccp then
    if (ct.u8 .dccpState).isNone then []
    else [field .dccpState [ct.getU8 .dccpState]] ++ [field .dccpRole [ct.getU8 .dccpRole]]
  else if l4proto = ipprotoIcmp then
    [field .icmpType [ct.getU8 .icmpType]] ++
      ([field .icmpCode [ct.getU8 .icmpCode]] ++ [field .icmpId (bytes16 (ct.getU16 .icmpId))])
  else []

/-- What is written behind the address of a master. -/
def NfConntrack.masterFields : List Field :=
  [field .masterL4proto [ct.getU8 .masterL4proto]] ++
    if (ct.grp .masterPort).isSome then [field .masterPort (ct.getGrp .masterPort)] else []

/-- What is written of a connection. -/
def NfConntrack.fields (getobjopt : NfConntrack → Objopt → Bool) : List Field :=
  (if (ct.grp .origIpv4).isSome then [field .ipv4 (ct.getGrp .origIpv4)]
    else if (ct.grp .origIpv6).isSome then [field .ipv6 (ct.getGrp .origIpv6)] else []) ++
  ([field .l4proto [ct.getU8 .l4proto]] ++
  ((if (ct.grp .origPort).isSome then [field .port (ct.getGrp .origPort)] else []) ++
  ([field .status (bytes32 (ct.getU32 .status))] ++
  (ct.l4protoFields (ct.getU8 .l4proto) ++
  ((if (ct.u32 .timeout).isSome then [field .timeout (bytes32 (ct.getU32 .timeout))] else []) ++
  ((if (ct.u32 .mark).isSome then [field .mark (bytes32 (ct.getU32 .mark))] else []) ++
  ((if (ct.grp .masterIpv4).isSome then [field .masterIpv4 (ct.getGrp .masterIpv4)] ++ ct.masterFields
    else if (ct.grp .masterIpv6).isSome then [field .masterIpv6 (ct.getGrp .masterIpv6)] ++ ct.masterFields
    else []) ++
  ((if getobjopt ct .isSnat then [field .snatIpv4 (bytes32 (ct.getU32 .replIpv4Dst))] else []) ++
  ((if getobjopt ct .isDnat then [field .dnatIpv4 (bytes32 (ct.getU32 .replIpv4Src))] else []) ++
  ((if getobjopt ct .isSpat then [field .spatPort (bytes16 (ct.getU16 .replPortDst))] else []) ++
  ((if getobjopt ct .isDpat then [field .dpatPort (bytes16 (ct.getU16 .replPortSrc))] else []) ++
  (if natType.all fun attr => (ct.u32 attr).isSome
    then [field .natSeqAdj (natType.flatMap fun attr => bytes32 (ct.getU32 attr))] else []))))))))))))

/-- The attributes are there without which `build_payload` does not come to an end. -/
structure NfConntrack.Complete : Prop where
  l4proto : (ct.u8 .l4proto).isSome
  dccpRole : ct.getU8 .l4proto = ipprotoDccp → (ct.u8 .dccpState).isSome → (ct.u8 .dccpRole).isSome
  icmp : ct.getU8 .l4proto = ipprotoIcmp → (ct.u8 .icmpType).isSome ∧ (ct.u8 .icmpCode).isSome
  masterL4proto : (ct.grp .masterIpv4).isSome ∨ (ct.grp .masterIpv6).isSome → (ct.u8 .masterL4proto).isSome

theorem l4protoFcn_writes (l4proto : BitVec 8) :
    Writes (l4protoFcn ct l4proto)
      ((l4proto = ipprotoDccp → (ct.u8 .dccpState).isSome → (ct.u8 .dccpRole).isSome) ∧
        (l4proto = ipprotoIcmp → (ct.u8 .icmpType).isSome ∧ (ct.u8 .icmpCode).isSome))
      (ct.l4protoFields l4proto) := by
  refine Writes.of_iff (.ite (fun _ => .ite (fun _ => .skip) fun _ => buildU8_writes ct .tcpState .tcpState)
    fun _ => .ite (fun _ => .ite (fun _ => .skip) fun _ => (buildU8_writes ct .sctpState .sctpState).bind
        ((addattr_writes .sctpVtagOrig _).bind (addattr_writes .sctpVtagRepl _)))
    fun _ => .ite (fun _ => .ite (fun _ => .skip) fun _ => (buildU8_writes ct .dccpState .dccpState).bind
        (buildU8_writes ct .dccpRole .dccpRole))
    fun _ => .ite (fun _ => (buildU8_writes ct .icmpType .icmpType).bind
        ((buildU8_writes ct .icmpCode .icmpCode).bind (addattr_writes .icmpId _))) fun _ => .skip) ?_
  have hprotos : ipprotoDccp ≠ ipprotoTcp ∧ ipprotoDccp ≠ ipprotoSctp ∧ ipprotoIcmp ≠ ipprotoTcp ∧
      ipprotoIcmp ≠ ipprotoSctp ∧ ipprotoIcmp ≠ ipprotoDccp := by decide
  cases ct.u8 .tcpState <;> cases ct.u8 .sctpState <;> cases ct.u8 .dccpState <;> grind

theorem buildMaster_writes : Writes (buildMaster ct) (ct.u8 .masterL4proto).isSome ct.masterFields :=
  Writes.of_iff ((buildU8_writes ct .masterL4proto .masterL4proto).bind
    (.optional fun h => buildGroup_writes ct .masterPort .masterPort h)) (iff_of_eq (and_true _))

/-- `build_payload` puts the attributes of the connection behind a message if it is complete, and does not come
to an end otherwise. -/
theorem buildPayload_writes (getobjopt : NfConntrack → Objopt → Bool) :
    Writes (buildPayload ct getobjopt) ct.Complete (ct.fields getobjopt) := by
  have haddress := Writes.ite (fun h => buildGroup_writes ct .origIpv4 .ipv4 h)
    fun _ => .optional fun h => buildGroup_writes ct .origIpv6 .ipv6 h
  have hmaster := Writes.ite
    (fun h => (buildGroup_writes ct .masterIpv4 .masterIpv4 h).bind (buildMaster_writes ct))
    fun _ => .ite (fun h => (buildGroup_writes ct .masterIpv6 .masterIpv6 h).bind (buildMaster_writes ct))
      fun _ => .skip
  have hword : ∀ (c : Bool) a b, Writes (fun n => if c then buildU32 ct a n b else pure n) True
      (if c then [field b (bytes32 (ct.getU32 a))] else []) :=
    fun c a b => .optional fun _ => addattr_writes b _
  have hport : ∀ (c : Bool) a b, Writes (fun n => if c then buildU16 ct a n b else pure n) True
      (if c then [field b (bytes16 (ct.getU16 a))] else []) :=
    fun c a b => .optional fun _ => addattr_writes b _
  have hwrites := haddress.bind <| (buildU8_writes ct .l4proto .l4proto).bind <|
    (Writes.optional fun h => buildGroup_writes ct .origPort .port h).bind <|
    (addattr_writes .status (bytes32 (ct.getU32 .status))).bind <|
    (l4protoFcn_writes ct (ct.getU8 .l4proto)).bind <|
    (hword (ct.u32 .timeout).isSome .timeout .timeout).bind <|
    (hword (ct.u32 .mark).isSome .mark .mark).bind <| hmaster.bind <|
    (hword (getobjopt ct .isSnat) .replIpv4Dst .snatIpv4).bind <|
    (hword (getobjopt ct .isDnat) .replIpv4Src .dnatIpv4).bind <|
    (hport (getobjopt ct .isSpat) .replPortDst .spatPort).bind <|
    (hport (getobjopt ct .isDpat) .replPortSrc .dpatPort).bind <|
    Writes.optional fun (_ : natType.all fun attr => (ct.u32 attr).isSome) =>
      addattr_writes .natSeqAdj (natType.flatMap fun attr => bytes32 (ct.getU32 attr))
  refine Writes.of_iff hwrites ?_
  simp only [ite_self, true_and, and_true]
  constructor
  · rintro ⟨h, ⟨hdccp, hicmp⟩, hmaster⟩
    refine ⟨h, hdccp, hicmp, fun hset => ?_⟩
    by_cases hv4 : (ct.grp .masterIpv4).isSome
    · rwa [if_pos hv4] at hmaster
    · rwa [if_neg hv4, if_pos (hset.resolve_left hv4)] at hmaster
  · rintro ⟨h, hdccp, hicmp, hmaster⟩
    refine ⟨h, ⟨hdccp, hicmp⟩, ?_⟩
    split_ifs with hv4 hv6
    · exact hmaster (.inl hv4)
    · exact hmaster (.inr hv6)

/-! ## Sizes -/

theorem encode_field_length (nta : NtaAttr) (data : List (BitVec 8)) :
    (encode [field nta data]).length = align4 (4 + data.length) := by
  rw [encode_cons, encode_nil, List.append_nil, Field.bytes_length]
  rfl

theorem NfConntrack.getGrp_length {a : AttrGrp} (h : (ct.grp a).isSome) : (ct.getGrp a).length = a.size := by
  obtain ⟨data, hdata⟩ := Option.isSome_iff_exists.mp h
  rw [getGrp, hdata]
  exact data.2

theorem l4protoFields_length_le (l4proto : BitVec 8) : (encode (ct.l4protoFields l4proto)).length ≤ 24 := by
  rw [NfConntrack.l4protoFields]
  split_ifs <;> simp [Field.size, Field.length, field, align4]

theorem masterFields_length_le : (encode ct.masterFields).length ≤ 16 := by
  rw [NfConntrack.masterFields]
  split_ifs with h
  · rw [encode_append, List.length_append, encode_field_length, encode_field_length, ct.getGrp_length h,
      List.length_singleton]
    decide
  · rw [List.append_nil, encode_field_length, List.length_singleton]
    decide

theorem fields_length_le (getobjopt : NfConntrack → Objopt → Bool) :
    (encode (ct.fields getobjopt)).length ≤ 212 := by
  have hoptional : ∀ (c : Bool) nta data, (encode (if c then [field nta data] else [])).length ≤
      align4 (4 + data.length) := by
    intro c nta data
    split_ifs
    · rw [encode_field_length]
    · exact Nat.zero_le _
  have haddress : (encode (if (ct.grp .origIpv4).isSome then [field .ipv4 (ct.getGrp .origIpv4)]
      else if (ct.grp .origIpv6).isSome then [field .ipv6 (ct.getGrp .origIpv6)] else [])).length ≤ 36 := by
    split_ifs with hv4 hv6
    · rw [encode_field_length, ct.getGrp_length hv4]
      decide
    · rw [encode_field_length, ct.getGrp_length hv6]
      decide
    · exact Nat.zero_le _
  have hport : (encode (if (ct.grp .origPort).isSome then [field .port (ct.getGrp .origPort)] else [])).length ≤
      8 := by
    split_ifs with h
    · rw [encode_field_length, ct.getGrp_length h]
      decide
    · exact Nat.zero_le _
  have hmasterFields := masterFields_length_le ct
  have hmaster : (encode (if (ct.grp .masterIpv4).isSome
      then [field .masterIpv4 (ct.getGrp .masterIpv4)] ++ ct.masterFields
      else if (ct.grp .masterIpv6).isSome then [field .masterIpv6 (ct.getGrp .masterIpv6)] ++ ct.masterFields
      else [])).length ≤ 52 := by
    split_ifs with hv4 hv6
    · rw [encode_append, List.length_append, encode_field_length, ct.getGrp_length hv4]
      have : align4 (4 + AttrGrp.masterIpv4.size) = 12 := rfl
      omega
    · rw [encode_append, List.length_append, encode_field_length, ct.getGrp_length hv6]
      have : align4 (4 + AttrGrp.masterIpv6.size) = 36 := rfl
      omega
    · exact Nat.zero_le _
  have hl4proto := l4protoFields_length_le ct (ct.getU8 .l4proto)
  have htimeout := hoptional (ct.u32 .timeout).isSome .timeout (bytes32 (ct.getU32 .timeout))
  have hmark := hoptional (ct.u32 .mark).isSome .mark (bytes32 (ct.getU32 .mark))
  have hsnat := hoptional (getobjopt ct .isSnat) .snatIpv4 (bytes32 (ct.getU32 .replIpv4Dst))
  have hdnat := hoptional (getobjopt ct .isDnat) .dnatIpv4 (bytes32 (ct.getU32 .replIpv4Src))
  have hspat := hoptional (getobjopt ct .isSpat) .spatPort (bytes16 (ct.getU16 .replPortDst))
  have hdpat := hoptional (getobjopt ct .isDpat) .dpatPort (bytes16 (ct.getU16 .replPortSrc))
  have hseq := hoptional (natType.all fun attr => (ct.u32 attr).isSome) .natSeqAdj
    (natType.flatMap fun attr => bytes32 (ct.getU32 attr))
  have hseqLength : (natType.flatMap fun attr => bytes32 (ct.getU32 attr)).length = 24 := rfl
  rw [bytes32_length] at htimeout hmark hsnat hdnat
  rw [bytes16_length] at hspat hdpat
  rw [hseqLength] at hseq
  have hword : align4 (4 + 4) = 8 ∧ align4 (4 + 2) = 8 ∧ align4 (4 + 1) = 8 ∧ align4 (4 + 24) = 28 := by decide
  simp only [NfConntrack.fields, encode_append, List.length_append, encode_field_length, bytes32_length,
    List.length_singleton]
  omega

end Fields

/-! ## Messages -/

@[simp] theorem Nethdr.bytes_length (hdr : Nethdr) : hdr.bytes.length = nethdrSiz := rfl

theorem Nethdr.ofBytes_bytes (hdr : Nethdr) (rest : List (BitVec 8)) :
    Nethdr.ofBytes (hdr.bytes ++ rest) = hdr := by
  have hversion : (hdr.version ++ hdr.type : BitVec 8).extractLsb' 4 4 = hdr.version := by
    refine BitVec.eq_of_getLsbD_eq fun i hi => ?_
    simp only [BitVec.getLsbD_extractLsb', BitVec.getLsbD_append]
    grind
  have htype : (hdr.version ++ hdr.type : BitVec 8).extractLsb' 0 4 = hdr.type := by
    refine BitVec.eq_of_getLsbD_eq fun i hi => ?_
    simp only [BitVec.getLsbD_extractLsb', BitVec.getLsbD_append]
    grind
  have hlen := ofBytes16_bytes16 hdr.len
  have hseq := ofBytes32_bytes32 hdr.seq
  cases hdr
  simp only [Nethdr.ofBytes, Nethdr.mk.injEq]
  exact ⟨hversion, htype, rfl, hlen, hseq⟩

section Messages

variable (getobjopt : NfConntrack → Objopt → Bool) (time : BitVec 32)

/-- The message of a connection with a number. -/
def messageOf (query : BitVec 4) (seq : BitVec 32) (ct : NfConntrack) : List (BitVec 8) :=
  Nethdr.bytes ⟨0, query, 0, BitVec.ofNat 16 (nethdrSiz + (encode (ct.fields getobjopt)).length), seq⟩ ++
    encode (ct.fields getobjopt)

/-- The messages that `conntrack_get_callback` takes of the block, one connection after the other. -/
def buildNetmsgs (query : BitVec 4) :
    List NfConntrack → NetState → Except Halt (List (List (BitVec 8)) × NetState)
  | [], state => .ok ([], state)
  | ct :: cts, state => do
      let state ← buildNetmsg getobjopt time ct query state
      let (messages, last) ← buildNetmsgs query cts state
      pure (state.message :: messages, last)

variable {getobjopt time} {query : BitVec 4} {ct : NfConntrack} {state : NetState}

/-- What is in the block behind the message stays. -/
theorem buildNetmsg_eq (hcomplete : ct.Complete) (hroom : 220 ≤ state.net.length)
    (hword : state.net.length < 2 ^ 16) :
    buildNetmsg getobjopt time ct query state =
      .ok ⟨messageOf getobjopt query (state.curSeq.getD time) ct ++
          state.net.drop (nethdrSiz + (encode (ct.fields getobjopt)).length),
        some (state.curSeq.getD time + 1)⟩ := by
  have hlength := fields_length_le ct getobjopt
  have hsiz : (BitVec.ofNat 16 nethdrSiz).toNat = nethdrSiz := rfl
  have hn : Net.Room ⟨⟨0, query, 0, BitVec.ofNat 16 nethdrSiz, state.curSeq.getD time⟩, state.net⟩
      (ct.fields getobjopt) := by
    refine ⟨?_, hword⟩
    change nethdrSiz + _ ≤ state.net.length
    rw [nethdrSiz]
    omega
  have hbuilt := (buildPayload_writes ct getobjopt).writes hcomplete _ hn
  have htake : (state.net.take nethdrSiz).length = nethdrSiz := List.length_take_of_le (by rw [nethdrSiz]; omega)
  simp only [buildNetmsg, nethdrSet, hbuilt, bind, Except.bind, pure, Except.pure]
  rw [if_neg (by simp [Net.appended, Nethdr.isControl])]
  simp only [Net.appended, hsiz, List.drop_left' htake, messageOf, List.append_assoc, BitVec.ofNat_add]

theorem message_messageOf (seq : BitVec 32) (rest : List (BitVec 8)) (curSeq : Option (BitVec 32)) :
    NetState.message ⟨messageOf getobjopt query seq ct ++ rest, curSeq⟩ = messageOf getobjopt query seq ct := by
  have hlength := fields_length_le ct getobjopt
  have hlen : (BitVec.ofNat 16 (nethdrSiz + (encode (ct.fields getobjopt)).length)).toNat =
      (messageOf getobjopt query seq ct).length := by
    rw [messageOf, List.length_append, Nethdr.bytes_length, BitVec.toNat_ofNat, Nat.mod_eq_of_lt]
    rw [nethdrSiz]
    omega
  rw [NetState.message]
  conv_lhs => rw [messageOf, List.append_assoc, Nethdr.ofBytes_bytes, hlen, ← List.append_assoc, ← messageOf]
  exact List.take_left

/-- One message after the other, if the connections are complete; the process ends otherwise. -/
theorem buildNetmsgs_eq (cts : List NfConntrack) (state : NetState) (hroom : 220 ≤ state.net.length)
    (hword : state.net.length < 2 ^ 16) :
    ((∀ ct ∈ cts, ct.Complete) → ∃ last, buildNetmsgs getobjopt time query cts state =
      .ok (cts.mapIdx fun i ct =>
        messageOf getobjopt query (state.curSeq.getD time + BitVec.ofNat 32 i) ct, last)) ∧
    ((¬ ∀ ct ∈ cts, ct.Complete) → buildNetmsgs getobjopt time query cts state = .error .crashed) := by
  induction cts generalizing state with
  | nil => exact ⟨fun _ => ⟨state, rfl⟩, fun h => absurd (fun _ hct => absurd hct List.not_mem_nil) h⟩
  | cons ct cts ih =>
      rw [List.forall_mem_cons]
      by_cases hct : ct.Complete
      · have hlength := fields_length_le ct getobjopt
        set seq := state.curSeq.getD time with hseq
        set state' : NetState := ⟨messageOf getobjopt query seq ct ++
          state.net.drop (nethdrSiz + (encode (ct.fields getobjopt)).length), some (seq + 1)⟩ with hstate
        have hbuilt : buildNetmsg getobjopt time ct query state = .ok state' :=
          buildNetmsg_eq hct hroom hword
        have hnet : state'.net.length = state.net.length := by
          rw [hstate, List.length_append, messageOf, List.length_append, Nethdr.bytes_length, List.length_drop,
            nethdrSiz]
          omega
        have hmessage : state'.message = messageOf getobjopt query seq ct := message_messageOf seq _ _
        obtain ⟨hcomplete, hincomplete⟩ := ih state' (by omega) (by omega)
        refine ⟨fun h => ?_, fun h => ?_⟩
        · obtain ⟨last, hlast⟩ := hcomplete h.2
          refine ⟨last, ?_⟩
          have hseqs : ∀ i, state'.curSeq.getD time + BitVec.ofNat 32 i = seq + BitVec.ofNat 32 (i + 1) := by
            intro i
            rw [BitVec.ofNat_add, BitVec.add_comm (BitVec.ofNat 32 i), ← BitVec.add_assoc]
            rfl
          simp only [buildNetmsgs, hbuilt, bind, Except.bind, hlast, pure, Except.pure, hmessage, hseqs,
            List.mapIdx_cons, BitVec.add_zero]
        · simp only [buildNetmsgs, hbuilt, bind, Except.bind, hincomplete fun hall => h ⟨hct, hall⟩]
      · refine ⟨fun h => absurd h.1 hct, fun _ => ?_⟩
        have hcrashed := (buildPayload_writes ct getobjopt).crashes hct
        simp only [buildNetmsgs, buildNetmsg, nethdrSet, hcrashed, bind, Except.bind]

theorem buildNetmsgs_ok {cts : List NfConntrack} {last : NetState} {messages : List (List (BitVec 8))}
    (hroom : 220 ≤ state.net.length) (hword : state.net.length < 2 ^ 16)
    (hbuilt : buildNetmsgs getobjopt time query cts state = .ok (messages, last)) :
    (∀ ct ∈ cts, ct.Complete) ∧ messages = cts.mapIdx fun i ct =>
      messageOf getobjopt query (state.curSeq.getD time + BitVec.ofNat 32 i) ct := by
  obtain ⟨hmessages, hcrashes⟩ : _ ∧ (_ → buildNetmsgs getobjopt time query cts state = _) :=
    buildNetmsgs_eq cts state hroom hword
  have hcomplete : ∀ ct ∈ cts, ct.Complete := by
    by_contra hincomplete
    rw [hcrashes hincomplete] at hbuilt
    cases hbuilt
  obtain ⟨last', hbuilt'⟩ := hmessages hcomplete
  rw [hbuilt, Except.ok.injEq, Prod.mk.injEq] at hbuilt'
  exact ⟨hcomplete, hbuilt'.1⟩

theorem messageOf_length_le (seq : BitVec 32) (ct : NfConntrack) :
    (messageOf getobjopt query seq ct).length ≤ 220 := by
  have hlength := fields_length_le ct getobjopt
  rw [messageOf, List.length_append, Nethdr.bytes_length, nethdrSiz]
  omega

/-- The messages of connections one after the other do not depend on what is in the block before: nothing of one
connection gets into the message of another, every message stays far inside the block, and there is a message for
each connection exactly if all of them are complete. -/
theorem buildNetmsgs_messages (cts : List NfConntrack) {state state' : NetState}
    (hblock : state.net.length = 4096) (hblock' : state'.net.length = 4096)
    (hseq : state.curSeq = state'.curSeq) :
    (buildNetmsgs getobjopt time query cts state).map Prod.fst =
        (buildNetmsgs getobjopt time query cts state').map Prod.fst ∧
      (∀ messages last, buildNetmsgs getobjopt time query cts state = .ok (messages, last) →
        messages = (cts.mapIdx fun i ct =>
          messageOf getobjopt query (state.curSeq.getD time + BitVec.ofNat 32 i) ct) ∧
        ∀ message ∈ messages, message.length ≤ 220) ∧
      ((∃ result, buildNetmsgs getobjopt time query cts state = .ok result) ↔ ∀ ct ∈ cts, ct.Complete) := by
  obtain ⟨hmessages, hcrashes⟩ : (_ → ∃ last, buildNetmsgs getobjopt time query cts state = _) ∧ _ :=
    buildNetmsgs_eq cts state (by omega) (by omega)
  obtain ⟨hmessages', hcrashes'⟩ : (_ → ∃ last, buildNetmsgs getobjopt time query cts state' = _) ∧ _ :=
    buildNetmsgs_eq cts state' (by omega) (by omega)
  refine ⟨?_, fun messages last hbuilt => ?_, ?_, fun hcomplete => ?_⟩
  · by_cases hcomplete : ∀ ct ∈ cts, ct.Complete
    · obtain ⟨last, hbuilt⟩ := hmessages hcomplete
      obtain ⟨last', hbuilt'⟩ := hmessages' hcomplete
      rw [hbuilt, hbuilt', hseq]
      rfl
    · rw [hcrashes hcomplete, hcrashes' hcomplete]
  · have hbuilt := (buildNetmsgs_ok (by omega) (by omega) hbuilt).2
    refine ⟨hbuilt, ?_⟩
    rw [hbuilt]
    intro message hmessage
    obtain ⟨i, hi, rfl⟩ := List.mem_mapIdx.mp hmessage
    exact messageOf_length_le _ _
  · rintro ⟨⟨messages, last⟩, hbuilt⟩
    exact (buildNetmsgs_ok (by omega) (by omega) hbuilt).1
  · obtain ⟨last, hbuilt⟩ := hmessages hcomplete
    exact ⟨_, hbuilt⟩

/-- A block of memory of the size that the source has for it. -/
def emptyNet : NetState := ⟨List.replicate 4096 0, none⟩

/-- A TCP connection, with a port that is translated. -/
def tcpConntrack : NfConntrack where
  u8 attr := if attr = .l4proto then some ipprotoTcp else if attr = .tcpState then some 3 else none
  u16 attr := if attr = .replPortDst then some 4711 else none
  u32 attr := if attr = .status then some 8 else if attr = .origNatSeqOffsetAfter then some 5 else none
  grp grp := if grp = .origIpv4 ∨ grp = .origPort then some ⟨List.replicate grp.size 7, List.length_replicate⟩ else none

theorem tcpConntrack_complete : tcpConntrack.Complete :=
  ⟨rfl, fun h => absurd h (by decide), fun h => absurd h (by decide), fun h => absurd h (by decide)⟩

theorem emptyNet_room : 220 ≤ emptyNet.net.length ∧ emptyNet.net.length < 2 ^ 16 := by
  have hlength : emptyNet.net.length = 4096 := List.length_replicate
  omega

/-- One connection, in two blocks. -/
theorem buildNetmsgs_emptyNet :
    (buildNetmsgs (fun _ _ => false) 9 netTStateNew [tcpConntrack] emptyNet).map Prod.fst =
        (buildNetmsgs (fun _ _ => false) 9 netTStateNew [tcpConntrack] ⟨List.replicate 4096 1, none⟩).map Prod.fst ∧
      ∃ result, buildNetmsgs (fun _ _ => false) 9 netTStateNew [tcpConntrack] emptyNet = .ok result := by
  obtain ⟨hsame, -, hexists⟩ := @buildNetmsgs_messages (fun _ _ => false) 9 netTStateNew [tcpConntrack] emptyNet
    ⟨List.replicate 4096 1, none⟩ List.length_replicate List.length_replicate rfl
  exact ⟨hsame, hexists.mpr (List.forall_mem_singleton.mpr tcpConntrack_complete)⟩

end Messages

end OFM.Iptables
