import OFM.Iptables.Perflow
import OFM.Iptables.Theorems.NetMsg
import Mathlib.Data.List.Perm.Basic

/-!
# What is made of a message

`parse_payload` takes the attributes off a message one after the other. What it accepts, when it reads memory that
is not there, and what of a connection arrives.
-/

namespace OFM.Iptables
open OFM.Lib

/-! ## The loop -/

section Loop

variable {block : List (BitVec 8)} {attr : Nat} {len : Int} {ct : NfConntrack} {f : Field} {fs : List Field}
  {tail rest : List (BitVec 8)}

/-- What the loop has before it. -/
def ahead (block : List (BitVec 8)) (attr : Nat) (len : Int) : List (BitVec 8) :=
  (block.drop attr).take len.toNat

/-- What the loop has before it is in the block. What fills up the last attribute need not be. -/
def Inside (block : List (BitVec 8)) (attr : Nat) (len : Int) : Prop := 0 < len → attr + len.toNat ≤ block.length

theorem ahead_length (hin : Inside block attr len) : (ahead block attr len).length = len.toNat := by
  rw [ahead, List.length_take, List.length_drop]
  by_cases hpos : 0 < len
  · have := hin hpos
    omega
  · omega

/-- What stands before the loop can be read. -/
theorem slice_ahead {i k : Nat} (hin : Inside block attr len) (hpos : 0 < len) (h : i + k ≤ len.toNat) :
    slice block (attr + i) k = some (((ahead block attr len).drop i).take k) :=
  slice_part (hin hpos) h

/-- A field that is known is received, and the loop goes on behind it. -/
theorem parseLoop_step (ct : NfConntrack) (hin : Inside block attr len) (hknown : Known f)
    (hahead : ahead block attr len = f.header ++ (f.value ++ tail)) :
    parseLoop block attr len ct = parseLoop block (attr + f.size) (len - f.size) (receive ct f) ∧
      Inside block (attr + f.size) (len - f.size) ∧
      ahead block (attr + f.size) (len - f.size) = tail.drop f.padding := by
  have hlengths := hknown.length_le
  have hlen : len.toNat = f.length + tail.length := by
    rw [← ahead_length hin, hahead, List.length_append, List.length_append, Field.header_length, Field.length,
      Nat.add_assoc]
  have hpos : 0 < len := by omega
  have hinside := hin hpos
  have hlenBytes : slice block attr 2 = some (bytes16 (BitVec.ofNat 16 f.length)) := by
    have hslice := slice_ahead (i := 0) (k := 2) hin hpos (by omega)
    rw [hahead] at hslice
    exact hslice
  have hattrBytes : slice block (attr + 2) 2 = some (bytes16 f.tag) := by
    have hslice := slice_ahead (i := 2) (k := 2) hin hpos (by omega)
    rw [hahead] at hslice
    exact hslice
  have hdata : slice block (attr + 4) f.value.length = some f.value := by
    rw [slice_ahead hin hpos (by rw [Field.length] at hlen; omega), hahead, List.drop_left' Field.header_length,
      List.take_left]
  obtain ⟨nta, htag, hvalue⟩ := hknown
  have hsize : f.length = (parserOf nta).size := by rw [Field.length, hvalue, Parser.size]
  have hcode : f.tag.toNat ≤ ntaMax := by
    rw [htag]
    cases nta <;> decide
  have hntaAttr : ntaAttrs[f.tag.toNat]? = some nta := by rw [htag, ntaAttrs_code]
  have hword : (BitVec.ofNat 16 f.length).toNat = f.length := by
    rw [BitVec.toNat_ofNat, Nat.mod_eq_of_lt (by omega)]
  refine ⟨?_, fun _ => by omega, ?_⟩
  · rw [parseLoop, if_neg (by omega), hlenBytes, hattrBytes]
    simp only [ofBytes16_bytes16, hword, hntaAttr, if_neg (Nat.not_lt.mpr hcode)]
    rw [if_neg (by omega), if_neg (by simp [hsize]), parserOf_width, ← hvalue, hdata]
    simp only [receive, hntaAttr, Field.size, hsize]
  · have htoNat : (len - f.size).toNat = len.toNat - f.size := by omega
    rw [ahead, htoNat, ← List.drop_drop, ← List.drop_take, ← ahead, hahead, ← Field.length_add_padding,
      Field.length, ← List.append_assoc, ← List.drop_drop]
    rw [List.drop_left' (by rw [List.length_append, Field.header_length])]

/-- Fields that are known are received one after the other. -/
theorem parseLoop_takes (ct : NfConntrack) {bytes : List (BitVec 8)} (htakes : Takes Known bytes fs rest)
    (hin : Inside block attr len) (hahead : ahead block attr len = bytes) :
    ∃ attr' len', parseLoop block attr len ct = parseLoop block attr' len' (fs.foldl receive ct) ∧
      Inside block attr' len' ∧ ahead block attr' len' = rest := by
  induction htakes generalizing attr len ct with
  | nil => exact ⟨attr, len, rfl, hin, hahead⟩
  | cons hknown _ ih =>
      obtain ⟨hstep, hin, hbehind⟩ := parseLoop_step ct hin hknown hahead
      obtain ⟨attr', len', hloop, hin', hahead'⟩ := ih _ hin hbehind
      exact ⟨attr', len', hstep.trans hloop, hin', hahead'⟩

/-- The words at the front of what is left. -/
def ntaLen (rest : List (BitVec 8)) : Nat := (ofBytes16 rest).toNat

def ntaTag (rest : List (BitVec 8)) : Nat := (ofBytes16 (rest.drop 2)).toNat

/-- What becomes of what is left when no attribute that is known stands in front: it is not looked at, it is
refused, or the table is read behind its end. -/
def verdict (rest : List (BitVec 8)) (ct : NfConntrack) : Payload :=
  if rest.length ≤ 4 then .ret 0 ct
  else if rest.length < ntaLen rest then .ret (-2) ct
  else if ntaMax < ntaTag rest then .ret (-3) ct
  else if ntaTag rest = ntaMax then .crashed
  else .ret (-4) ct

/-- An attribute of the size that the table has for it is known. -/
theorem exists_known {nta : NtaAttr} (hfour : 4 < rest.length) (hroom : ntaLen rest ≤ rest.length)
    (hnta : ntaAttrs[ntaTag rest]? = some nta) (hsize : ntaLen rest = (parserOf nta).size) :
    ∃ f tail, Known f ∧ rest = f.header ++ (f.value ++ tail) := by
  have hdata := parserOf_dataSize nta
  rw [hsize, Parser.size] at hroom
  have hvalue : ((rest.drop 4).take (parserOf nta).dataSize).length = (parserOf nta).dataSize := by
    rw [List.length_take, List.length_drop]
    omega
  refine ⟨field nta ((rest.drop 4).take (parserOf nta).dataSize), (rest.drop 4).drop (parserOf nta).dataSize,
    known_field hvalue, ?_⟩
  have hlength : (field nta ((rest.drop 4).take (parserOf nta).dataSize)).length = ntaLen rest := by
    rw [hsize, Parser.size, Field.length, field, hvalue]
  have hlenBytes : bytes16 (BitVec.ofNat 16 (ntaLen rest)) = rest.take 2 := by
    rw [ntaLen, BitVec.ofNat_toNat, BitVec.setWidth_eq, ← ofBytes16_take rest (Nat.le_refl 2),
      bytes16_ofBytes16 (List.length_take_of_le (by omega))]
  have hattrBytes : bytes16 nta.code = (rest.drop 2).take 2 := by
    rw [← code_of_ntaAttrs hnta, ← ofBytes16_take (rest.drop 2) (Nat.le_refl 2),
      bytes16_ofBytes16 (List.length_take_of_le (by rw [List.length_drop]; omega))]
  have htag : (field nta ((rest.drop 4).take (parserOf nta).dataSize)).tag = nta.code := rfl
  have hfour : rest.drop 4 = (rest.drop 2).drop 2 := by rw [List.drop_drop]
  rw [Field.header, hlength, hlenBytes, htag, hattrBytes]
  simp only [field]
  rw [List.take_append_drop, hfour, List.append_assoc, List.take_append_drop, List.take_append_drop]

theorem parseLoop_stuck (ct : NfConntrack) (hin : Inside block attr len)
    (hstuck : ∀ f tail, Known f → ahead block attr len ≠ f.header ++ (f.value ++ tail)) :
    parseLoop block attr len ct = verdict (ahead block attr len) ct := by
  have hlength := ahead_length hin
  rw [parseLoop, verdict, hlength]
  by_cases hshort : len ≤ 4
  · rw [if_pos hshort, if_pos (by omega)]
  · have hlenBytes := slice_ahead (i := 0) (k := 2) hin (by omega) (by omega)
    have hattrBytes := slice_ahead (i := 2) (k := 2) hin (by omega) (by omega)
    rw [Nat.add_zero, List.drop_zero] at hlenBytes
    rw [if_neg hshort, if_neg (by omega), hlenBytes, hattrBytes]
    simp only [ofBytes16_take _ (Nat.le_refl 2)]
    have hfolded : (ofBytes16 (ahead block attr len)).toNat = ntaLen (ahead block attr len) := rfl
    have hfolded' : (ofBytes16 ((ahead block attr len).drop 2)).toNat = ntaTag (ahead block attr len) := rfl
    rw [hfolded, hfolded']
    by_cases hroom : len < ntaLen (ahead block attr len)
    · rw [if_pos hroom, if_pos (by omega)]
    · rw [if_neg hroom, if_neg (c := len.toNat < _) (by omega)]
      by_cases hmax : ntaMax < ntaTag (ahead block attr len)
      · rw [if_pos hmax, if_pos hmax]
      · rw [if_neg hmax, if_neg hmax]
        cases hnta : ntaAttrs[ntaTag (ahead block attr len)]? with
        | none =>
            have := (ntaAttrs_eq_none_iff _).mp hnta
            rw [if_pos (by omega)]
        | some nta =>
            have hlt : ntaTag (ahead block attr len) < ntaMax := by
              by_contra hle
              rw [(ntaAttrs_eq_none_iff _).mpr (Nat.not_lt.mp hle)] at hnta
              cases hnta
            rw [if_neg (c := ntaTag _ = _) (by omega)]
            by_cases hsize : ntaLen (ahead block attr len) = (parserOf nta).size
            · obtain ⟨f, tail, hknown, hfront⟩ := exists_known (by omega) (by omega) hnta hsize
              exact absurd hfront (hstuck f tail hknown)
            · exact if_pos hsize

end Loop

/-! ## What is accepted -/

section Accepted

variable {block : List (BitVec 8)} {fs gs : List Field} {rest rest' : List (BitVec 8)}

theorem Nethdr.ofBytes_take {k : Nat} (bytes : List (BitVec 8)) (h : nethdrSiz ≤ k) :
    Nethdr.ofBytes (bytes.take k) = Nethdr.ofBytes bytes := by
  have hget : ∀ i, i < nethdrSiz → (bytes.take k)[i]? = bytes[i]? := by
    intro i hi
    rw [List.getElem?_take, if_pos (by omega)]
  rw [nethdrSiz] at hget
  simp [Nethdr.ofBytes, ofBytes16, ofBytes32, List.getD_eq_getElem?_getD, hget]

/-- A block with a header that is not one of a control message, and with all that the header speaks of. -/
structure Whole (block : List (BitVec 8)) : Prop where
  header : nethdrSiz ≤ block.length
  data : (Nethdr.ofBytes block).isControl = false
  len : (Nethdr.ofBytes block).len.toNat ≤ block.length

/-- What is behind the header. -/
def payload (block : List (BitVec 8)) : List (BitVec 8) :=
  (block.drop nethdrSiz).take ((Nethdr.ofBytes block).len.toNat - nethdrSiz)

/-- No attribute that is known stands in front. -/
def Stuck (rest : List (BitVec 8)) : Prop := ∀ f tail, Known f → rest ≠ f.header ++ (f.value ++ tail)

theorem stuck_of_short (h : rest.length ≤ 4) : Stuck rest := by
  rintro f tail hknown rfl
  have := hknown.length_le
  rw [List.length_append, List.length_append, Field.header_length] at h
  rw [Field.length] at this
  omega

theorem stuck_of_ntaMax (h : ntaTag rest = ntaMax) : Stuck rest := by
  rintro f tail ⟨nta, htag, -⟩ rfl
  have hcode : ntaTag (f.header ++ (f.value ++ tail)) = nta.code.toNat := by
    have htail : (f.header ++ (f.value ++ tail)).drop 2 = bytes16 f.tag ++ (f.value ++ tail) := by
      rw [Field.header, List.append_assoc, List.drop_left' (bytes16_length _)]
    rw [ntaTag, htail, ← ofBytes16_take _ (Nat.le_refl 2), List.take_left' (bytes16_length _),
      ofBytes16_bytes16, htag]
  rw [hcode] at h
  have hnone := (ntaAttrs_eq_none_iff nta.code.toNat).mpr (Nat.le_of_eq h.symm)
  rw [ntaAttrs_code] at hnone
  cases hnone

theorem parseMessage_takes (h : Whole block) :
    ∃ fs rest, Takes Known (payload block) fs rest ∧ Stuck rest ∧
      parseMessage block = verdict rest (fs.foldl receive .zeroed) := by
  have hheader := h.header
  have hlen := h.len
  have hslice : slice block 0 nethdrSiz = some (block.take nethdrSiz) := by
    rw [slice, if_pos (by omega), List.drop_zero]
  have hhdr := Nethdr.ofBytes_take block (Nat.le_refl nethdrSiz)
  obtain ⟨fs, rest, htakes, hstuck⟩ := Takes.exists_rest Known (payload block)
  have hahead : ahead block nethdrSiz ((Nethdr.ofBytes block).len.toNat - nethdrSiz : Int) = payload block := by
    have htoNat : ((Nethdr.ofBytes block).len.toNat - nethdrSiz : Int).toNat =
        (Nethdr.ofBytes block).len.toNat - nethdrSiz := by omega
    rw [ahead, htoNat, payload]
  obtain ⟨attr', len', hloop, hin, hrest⟩ :=
    parseLoop_takes .zeroed htakes (fun _ => by omega) hahead
  refine ⟨fs, rest, htakes, hstuck, ?_⟩
  rw [parseMessage, hslice]
  simp only [hhdr, h.data, Bool.false_eq_true, if_false, parsePayload, Nat.lt_irrefl]
  rw [hloop, parseLoop_stuck _ hin (by rw [hrest]; exact hstuck), hrest]

theorem takes_unique (htakes : Takes Known (payload block) fs rest) (hstuck : Stuck rest)
    (htakes' : Takes Known (payload block) gs rest') (hstuck' : Stuck rest') : fs = gs ∧ rest = rest' := by
  refine htakes.unique (fun f hknown => ?_) htakes' hstuck hstuck'
  have := hknown.length_le
  omega

theorem parseMessage_ok_iff (h : Whole block) {ct : NfConntrack} :
    parseMessage block = .ret 0 ct ↔ ∃ fs rest, Takes Known (payload block) fs rest ∧ rest.length ≤ 4 ∧
      ct = fs.foldl receive .zeroed := by
  obtain ⟨fs, rest, htakes, hstuck, hmessage⟩ := parseMessage_takes h
  rw [hmessage]
  constructor
  · intro hret
    rw [verdict] at hret
    split_ifs at hret with hshort
    · cases hret
      exact ⟨fs, rest, htakes, hshort, rfl⟩
    all_goals simp at hret
  · rintro ⟨gs, rest', htakes', hshort, rfl⟩
    obtain ⟨rfl, rfl⟩ := takes_unique htakes hstuck htakes' (stuck_of_short hshort)
    exact if_pos hshort

theorem parseMessage_crashed_iff (h : Whole block) :
    parseMessage block = .crashed ↔ ∃ fs rest, Takes Known (payload block) fs rest ∧ 4 < rest.length ∧
      ntaLen rest ≤ rest.length ∧ ntaTag rest = ntaMax := by
  obtain ⟨fs, rest, htakes, hstuck, hmessage⟩ := parseMessage_takes h
  rw [hmessage]
  constructor
  · intro hcrashed
    rw [verdict] at hcrashed
    split_ifs at hcrashed with hshort hroom hmax htag
    exact ⟨fs, rest, htakes, by omega, by omega, htag⟩
  · rintro ⟨gs, rest', htakes', hlong, hroom, htag⟩
    obtain ⟨rfl, rfl⟩ := takes_unique htakes hstuck htakes' (stuck_of_ntaMax htag)
    rw [verdict, if_neg (by omega), if_neg (by omega), if_neg (by omega), if_pos htag]

/-- A message is accepted exactly if it consists of attributes of the table in their sizes, up to four bytes at its
end, and what is accepted is what these attributes set. The table is read behind its end exactly if the attributes
are followed by one with the number of its length. -/
theorem parseMessage_iff (h : Whole block) :
    (∀ ct, parseMessage block = .ret 0 ct ↔ ∃ fs rest, Takes Known (payload block) fs rest ∧ rest.length ≤ 4 ∧
      ct = fs.foldl receive .zeroed) ∧
    (parseMessage block = .crashed ↔ ∃ fs rest, Takes Known (payload block) fs rest ∧ 4 < rest.length ∧
      ntaLen rest ≤ rest.length ∧ ntaTag rest = ntaMax) :=
  ⟨fun _ => parseMessage_ok_iff h, parseMessage_crashed_iff h⟩

/-- A message with the protocol of a connection and nothing else. -/
def protocolMessage : List (BitVec 8) := [0, 0, 0, 16, 0, 0, 0, 1, 0, 5, 0, 2, 6, 0, 0, 0]

theorem parseMessage_protocolMessage : parseMessage protocolMessage = .ret 0 (.setU8 .zeroed .l4proto 6) := by
  refine ((parseMessage_iff ⟨by decide, by decide, by decide⟩).1 _).mpr ⟨[field .l4proto [6]], [], ?_, by decide, rfl⟩
  have hknown : ∀ f ∈ [field .l4proto [6]], Known f := List.forall_mem_singleton.mpr ⟨.l4proto, rfl, rfl⟩
  exact Takes.encode hknown []

end Accepted

/-! ## What arrives of a connection -/

section Carried

variable (getobjopt : NfConntrack → Objopt → Bool) (ct : NfConntrack)

/-- All six values of the adjustment of sequence numbers are set. -/
def NfConntrack.Adjusted : Prop := natType.all fun attr => (ct.u32 attr).isSome

instance : Decidable ct.Adjusted := inferInstanceAs (Decidable (_ = true))

/-- There is a master. -/
def NfConntrack.Mastered : Prop := (ct.grp .masterIpv4).isSome ∨ (ct.grp .masterIpv6).isSome

instance : Decidable ct.Mastered := inferInstanceAs (Decidable (_ ∨ _))

/-- What is to arrive of a connection: what is set of it, of one family and with what belongs to its protocol,
and the translation of its addresses as one of the source and of the destination. -/
def NfConntrack.carried : NfConntrack where
  u8
    | .l4proto => ct.u8 .l4proto
    | .tcpState => if ct.getU8 .l4proto = ipprotoTcp then ct.u8 .tcpState else none
    | .masterL4proto => if ct.Mastered then ct.u8 .masterL4proto else none
    | .sctpState => if ct.getU8 .l4proto = ipprotoSctp then ct.u8 .sctpState else none
    | .dccpState => if ct.getU8 .l4proto = ipprotoDccp then ct.u8 .dccpState else none
    | .dccpRole =>
        if ct.getU8 .l4proto = ipprotoDccp ∧ (ct.u8 .dccpState).isSome then ct.u8 .dccpRole else none
    | .icmpType => if ct.getU8 .l4proto = ipprotoIcmp then ct.u8 .icmpType else none
    | .icmpCode => if ct.getU8 .l4proto = ipprotoIcmp then ct.u8 .icmpCode else none
  u16
    | .icmpId => if ct.getU8 .l4proto = ipprotoIcmp then some (ct.getU16 .icmpId) else none
    | .snatPort => if getobjopt ct .isSpat then some (ct.getU16 .replPortDst) else none
    | .dnatPort => if getobjopt ct .isDpat then some (ct.getU16 .replPortSrc) else none
    | .replPortSrc | .replPortDst => none
  u32
    | .status => some (ct.getU32 .status)
    | .timeout => ct.u32 .timeout
    | .mark => ct.u32 .mark
    | .sctpVtagOrig =>
        if ct.getU8 .l4proto = ipprotoSctp ∧ (ct.u8 .sctpState).isSome then some (ct.getU32 .sctpVtagOrig) else none
    | .sctpVtagRepl =>
        if ct.getU8 .l4proto = ipprotoSctp ∧ (ct.u8 .sctpState).isSome then some (ct.getU32 .sctpVtagRepl) else none
    | .snatIpv4 => if getobjopt ct .isSnat then some (ct.getU32 .replIpv4Dst) else none
    | .dnatIpv4 => if getobjopt ct .isDnat then some (ct.getU32 .replIpv4Src) else none
    | .replIpv4Src | .replIpv4Dst => none
    | attr => if ct.Adjusted then ct.u32 attr else none
  grp
    | .origIpv4 => ct.grp .origIpv4
    | .origIpv6 => if (ct.grp .origIpv4).isSome then none else ct.grp .origIpv6
    | .origPort => ct.grp .origPort
    | .masterIpv4 => ct.grp .masterIpv4
    | .masterIpv6 => if (ct.grp .masterIpv4).isSome then none else ct.grp .masterIpv6
    | .masterPort => if ct.Mastered then ct.grp .masterPort else none

/-- What does arrive: all values of the adjustment of sequence numbers are the first one. -/
def NfConntrack.received : NfConntrack :=
  { ct.carried getobjopt with
    u32 := fun attr =>
      if ct.Adjusted ∧ attr ∈ natType then ct.u32 .origNatSeqCorrectionPos else (ct.carried getobjopt).u32 attr }

end Carried

theorem foldl_ite (c : Prop) [Decidable c] (fs gs : List Field) (ct : NfConntrack) :
    (if c then fs else gs).foldl receive ct = if c then fs.foldl receive ct else gs.foldl receive ct :=
  apply_ite (fun fs => fs.foldl receive ct) c fs gs

section Received

variable {getobjopt : NfConntrack → Objopt → Bool} {ct : NfConntrack}

/-- A condition that another one excludes need not be asked for. -/
theorem ite_none_ite {α : Type} {p q : Prop} [Decidable p] [Decidable q] (h : q → ¬ p) (a : Option α) :
    (if p then none else if q then a else none) = if q then a else none := by
  by_cases hq : q
  · rw [if_neg (h hq)]
  · rw [if_neg hq, ite_self]

theorem ite_ite_none {α : Type} {p : Prop} [Decidable p] (o : Option α) {β : Type} (b : Option β) :
    (if p then if o.isNone then none else b else none) = if p ∧ o.isSome then b else none := by
  by_cases hp : p <;> cases o <;> simp [hp]

theorem ite_ite_or {α : Type} {p q : Prop} [Decidable p] [Decidable q] (a : Option α) :
    (if p then a else if q then a else none) = if p ∨ q then a else none := by
  by_cases hp : p <;> by_cases hq : q <;> simp [hp, hq]

theorem excluded {p q l4proto : BitVec 8} (h : p ≠ q) : l4proto = q → ¬ l4proto = p := by
  rintro rfl rfl
  exact h rfl

theorem some_getU8 {attr : Attr8} (h : (ct.u8 attr).isSome) : some (ct.getU8 attr) = ct.u8 attr := by
  obtain ⟨value, hvalue⟩ := Option.isSome_iff_exists.mp h
  rw [NfConntrack.getU8, hvalue, Option.getD_some]

theorem ite_getU8 (attr : Attr8) :
    (if (ct.u8 attr).isNone then none else some (ct.getU8 attr)) = ct.u8 attr := by
  cases h : ct.u8 attr with
  | none => rfl
  | some value =>
      rw [NfConntrack.getU8, h]
      rfl

theorem ite_getU32 (attr : Attr32) :
    (if (ct.u32 attr).isSome then some (ct.getU32 attr) else none) = ct.u32 attr := by
  cases h : ct.u32 attr with
  | none => rfl
  | some value =>
      rw [NfConntrack.getU32, h]
      rfl

/-- Every byte of the connection is set by its field alone. -/
theorem foldl_fields_u8 (hcomplete : ct.Complete) (attr : Attr8) :
    ((ct.fields getobjopt).foldl receive .zeroed).u8 attr = (ct.received getobjopt).u8 attr := by
  obtain ⟨hl4proto, hdccpRole, hicmp, hmasterL4proto⟩ := hcomplete
  cases attr <;>
    simp only [NfConntrack.fields, NfConntrack.l4protoFields, NfConntrack.masterFields, List.foldl_append,
      foldl_ite, List.foldl_cons, List.foldl_nil, receive_field, parserOf, Parse.run, NfConntrack.ite_u8,
      NfConntrack.setU8_u8, NfConntrack.setU16_u8, NfConntrack.setU32_u8, NfConntrack.setGrp_u8, ite_self,
      reduceCtorEq, if_false, if_true, List.getD_cons_zero, NfConntrack.zeroed, NfConntrack.received,
      NfConntrack.carried, ite_getU8, ite_ite_none]
  case l4proto => exact some_getU8 hl4proto
  case masterL4proto =>
    rw [ite_ite_or]
    exact ite_congr rfl (fun h => some_getU8 (hmasterL4proto h)) fun _ => rfl
  case sctpState => exact ite_none_ite (excluded (by decide)) _
  case dccpState =>
    rw [ite_none_ite (p := ct.getU8 .l4proto = ipprotoSctp) (excluded (by decide)),
      ite_none_ite (excluded (by decide))]
  case dccpRole =>
    rw [ite_none_ite (p := ct.getU8 .l4proto = ipprotoSctp) fun h => excluded (by decide) h.1,
      ite_none_ite fun h => excluded (by decide) h.1]
    exact ite_congr rfl (fun h => some_getU8 (hdccpRole h.1 h.2)) fun _ => rfl
  case icmpType =>
    rw [ite_none_ite (p := ct.getU8 .l4proto = ipprotoDccp) (excluded (by decide)),
      ite_none_ite (p := ct.getU8 .l4proto = ipprotoSctp) (excluded (by decide)),
      ite_none_ite (excluded (by decide))]
    exact ite_congr rfl (fun h => some_getU8 (hicmp h).1) fun _ => rfl
  case icmpCode =>
    rw [ite_none_ite (p := ct.getU8 .l4proto = ipprotoDccp) (excluded (by decide)),
      ite_none_ite (p := ct.getU8 .l4proto = ipprotoSctp) (excluded (by decide)),
      ite_none_ite (excluded (by decide))]
    exact ite_congr rfl (fun h => some_getU8 (hicmp h).2) fun _ => rfl

theorem foldl_fields_u16 (attr : Attr16) :
    ((ct.fields getobjopt).foldl receive .zeroed).u16 attr = (ct.received getobjopt).u16 attr := by
  cases attr <;>
    simp only [NfConntrack.fields, NfConntrack.l4protoFields, NfConntrack.masterFields, List.foldl_append,
      foldl_ite, List.foldl_cons, List.foldl_nil, receive_field, parserOf, Parse.run, NfConntrack.ite_u16,
      NfConntrack.setU8_u16, NfConntrack.setU16_u16, NfConntrack.setU32_u16, NfConntrack.setGrp_u16, ite_self,
      reduceCtorEq, if_false, if_true, ofBytes16_bytes16, NfConntrack.zeroed, NfConntrack.received,
      NfConntrack.carried]
  rw [ite_none_ite (p := ct.getU8 .l4proto = ipprotoDccp) (excluded (by decide)),
    ite_none_ite (p := ct.getU8 .l4proto = ipprotoSctp) (excluded (by decide)),
    ite_none_ite (excluded (by decide))]

/-- The values of the adjustment are all set by one field, to the first of them. -/
theorem adjusted_received {attr : Attr32} (hattr : attr ∈ natType) (otherwise : Option (BitVec 32))
    (hnone : ¬ ct.Adjusted → otherwise = none) :
    (if natType.all fun attr => (ct.u32 attr).isSome
      then some (ofBytes32 (natType.flatMap fun attr => bytes32 (ct.getU32 attr))) else none) =
    if ct.Adjusted ∧ attr ∈ natType then ct.u32 .origNatSeqCorrectionPos else otherwise := by
  by_cases hadjusted : ct.Adjusted
  · have hfirst : (ct.u32 .origNatSeqCorrectionPos).isSome :=
      List.all_eq_true.mp hadjusted _ (by decide)
    obtain ⟨value, hvalue⟩ := Option.isSome_iff_exists.mp hfirst
    have hbytes : ofBytes32 (natType.flatMap fun attr => bytes32 (ct.getU32 attr)) = value := by
      have hget : ct.getU32 .origNatSeqCorrectionPos = value := by rw [NfConntrack.getU32, hvalue]; rfl
      rw [← ofBytes32_bytes32 value, ← hget]
      rfl
    rw [if_pos (show natType.all _ from hadjusted), if_pos ⟨hadjusted, hattr⟩, hbytes, hvalue]
  · rw [if_neg (show ¬ natType.all _ from hadjusted), if_neg fun h => hadjusted h.1, hnone hadjusted]

theorem foldl_fields_u32 (attr : Attr32) :
    ((ct.fields getobjopt).foldl receive .zeroed).u32 attr = (ct.received getobjopt).u32 attr := by
  have hother : ∀ {attr} (o : Option (BitVec 32)), attr ∉ natType →
      (if ct.Adjusted ∧ attr ∈ natType then ct.u32 .origNatSeqCorrectionPos else o) = o :=
    fun o hattr => if_neg fun h => hattr h.2
  cases attr <;>
    simp only [NfConntrack.fields, NfConntrack.l4protoFields, NfConntrack.masterFields, List.foldl_append,
      foldl_ite, List.foldl_cons, List.foldl_nil, receive_field, parserOf, Parse.run, NfConntrack.ite_u32,
      NfConntrack.setU8_u32, NfConntrack.setU16_u32, NfConntrack.setU32_u32, NfConntrack.setGrp_u32, ite_self,
      reduceCtorEq, if_false, if_true, ofBytes32_bytes32, NfConntrack.zeroed, NfConntrack.received,
      NfConntrack.carried, ite_getU32, ite_ite_none]
  case origNatSeqCorrectionPos | origNatSeqOffsetBefore | origNatSeqOffsetAfter | replNatSeqCorrectionPos |
      replNatSeqOffsetBefore | replNatSeqOffsetAfter =>
    exact adjusted_received (by decide) _ fun h => if_neg h
  case sctpVtagOrig | sctpVtagRepl =>
    rw [ite_none_ite fun h => excluded (by decide) h.1, hother _ (by decide)]
  all_goals rw [hother _ (by decide)]

/-- The memory of a group that is not set is not that of a group. -/
theorem setGrp_getGrp (grp : AttrGrp) (ct' : NfConntrack) :
    (ct'.setGrp grp (ct.getGrp grp)).grp grp = (ct.grp grp).or (ct'.grp grp) := by
  cases hgrp : ct.grp grp with
  | some data =>
      rw [NfConntrack.getGrp, hgrp]
      exact NfConntrack.setGrp_grp_self data
  | none =>
      have hempty : ([] : List (BitVec 8)).length ≠ grp.size := by cases grp <;> decide
      rw [NfConntrack.getGrp, hgrp, Option.elim_none, NfConntrack.setGrp, dif_neg hempty]
      rfl

theorem ite_isSome {α : Type} (o : Option α) : (if o.isSome then o else none) = o := by
  cases o <;> rfl

theorem foldl_fields_grp (grp : AttrGrp) :
    ((ct.fields getobjopt).foldl receive .zeroed).grp grp = (ct.received getobjopt).grp grp := by
  cases grp <;>
    simp only [NfConntrack.fields, NfConntrack.l4protoFields, NfConntrack.masterFields, List.foldl_append,
      foldl_ite, List.foldl_cons, List.foldl_nil, receive_field, parserOf, Parse.run, NfConntrack.ite_grp,
      NfConntrack.setU8_grp, NfConntrack.setU16_grp, NfConntrack.setU32_grp, NfConntrack.setGrp_grp_of_ne,
      setGrp_getGrp, ne_eq, not_false_eq_true, ite_self, reduceCtorEq, NfConntrack.zeroed, NfConntrack.received,
      NfConntrack.carried, Option.or_none, ite_isSome]
  exact ite_ite_or _

/-- What the fields of a connection set is what arrives of it. -/
theorem foldl_fields (hcomplete : ct.Complete) :
    (ct.fields getobjopt).foldl receive .zeroed = ct.received getobjopt :=
  NfConntrack.ext (funext (foldl_fields_u8 hcomplete)) (funext foldl_fields_u16) (funext foldl_fields_u32)
    (funext foldl_fields_grp)

theorem forall_mem_ite {c : Prop} [Decidable c] {fs gs : List Field} {P : Field → Prop} :
    (∀ f ∈ if c then fs else gs, P f) ↔ (c → ∀ f ∈ fs, P f) ∧ (¬ c → ∀ f ∈ gs, P f) := by
  by_cases hc : c <;> simp [hc]

/-- What is written is in the table, and of its size. -/
theorem fields_known : ∀ f ∈ ct.fields getobjopt, Known f := by
  have hgrp : ∀ {nta grp}, (parserOf nta).dataSize = grp.size → (ct.grp grp).isSome →
      Known (field nta (ct.getGrp grp)) :=
    fun hsize hset => known_field ((ct.getGrp_length hset).trans hsize.symm)
  have hmaster : ∀ f ∈ ct.masterFields, Known f := by
    simp only [NfConntrack.masterFields, List.forall_mem_append, forall_mem_ite, List.forall_mem_singleton]
    exact ⟨known_field rfl, hgrp rfl, fun _ => List.forall_mem_nil _⟩
  have hl4proto : ∀ f ∈ ct.l4protoFields (ct.getU8 .l4proto), Known f := by
    simp only [NfConntrack.l4protoFields, List.forall_mem_append, forall_mem_ite, List.forall_mem_singleton]
    refine ⟨fun _ => ⟨?_, ?_⟩, fun _ => ⟨fun _ => ⟨?_, ?_⟩, fun _ => ⟨fun _ => ⟨?_, ?_⟩, fun _ => ⟨?_, ?_⟩⟩⟩⟩
    · exact fun _ => List.forall_mem_nil _
    · exact fun _ => known_field rfl
    · exact fun _ => List.forall_mem_nil _
    · exact fun _ => ⟨known_field rfl, known_field rfl, known_field rfl⟩
    · exact fun _ => List.forall_mem_nil _
    · exact fun _ => ⟨known_field rfl, known_field rfl⟩
    · exact fun _ => ⟨known_field rfl, known_field rfl, known_field rfl⟩
    · exact fun _ => List.forall_mem_nil _
  have hoptional : ∀ {c : Bool} {nta data}, data.length = (parserOf nta).dataSize →
      ∀ f ∈ if c then [field nta data] else [], Known f := by
    intro c nta data hsize
    rw [forall_mem_ite, List.forall_mem_singleton]
    exact ⟨fun _ => known_field hsize, fun _ => List.forall_mem_nil _⟩
  rw [NfConntrack.fields]
  simp only [List.forall_mem_append]
  refine ⟨?_, ?_, ?_, ?_, hl4proto, hoptional rfl, hoptional rfl, ?_, hoptional rfl, hoptional rfl,
    hoptional rfl, hoptional rfl, hoptional rfl⟩
  · simp only [forall_mem_ite, List.forall_mem_singleton]
    exact ⟨hgrp rfl, fun _ => ⟨hgrp rfl, fun _ => List.forall_mem_nil _⟩⟩
  · exact List.forall_mem_singleton.mpr (known_field rfl)
  · simp only [forall_mem_ite, List.forall_mem_singleton]
    exact ⟨hgrp rfl, fun _ => List.forall_mem_nil _⟩
  · exact List.forall_mem_singleton.mpr (known_field rfl)
  · simp only [forall_mem_ite, List.forall_mem_append, List.forall_mem_singleton]
    exact ⟨fun h => ⟨hgrp rfl h, hmaster⟩, fun _ =>
      ⟨fun h => ⟨hgrp rfl h, hmaster⟩, fun _ => List.forall_mem_nil _⟩⟩

/-- A message is read as what arrives of its connection, whatever is behind it. -/
theorem parseMessage_messageOf (hcomplete : ct.Complete) (seq : BitVec 32) (behind : List (BitVec 8)) :
    parseMessage (messageOf getobjopt netTStateNew seq ct ++ behind) = .ret 0 (ct.received getobjopt) := by
  have hlength := fields_length_le ct getobjopt
  set hdr : Nethdr :=
    ⟨0, netTStateNew, 0, BitVec.ofNat 16 (nethdrSiz + (encode (ct.fields getobjopt)).length), seq⟩ with hdr_eq
  have hbytes : messageOf getobjopt netTStateNew seq ct ++ behind =
      hdr.bytes ++ (encode (ct.fields getobjopt) ++ behind) := by
    rw [messageOf, List.append_assoc]
  have hhdr : Nethdr.ofBytes (hdr.bytes ++ (encode (ct.fields getobjopt) ++ behind)) = hdr :=
    hdr.ofBytes_bytes _
  have hlen : hdr.len.toNat = nethdrSiz + (encode (ct.fields getobjopt)).length := by
    rw [hdr_eq, BitVec.toNat_ofNat, Nat.mod_eq_of_lt]
    rw [nethdrSiz]
    omega
  have hwhole : Whole (hdr.bytes ++ (encode (ct.fields getobjopt) ++ behind)) := by
    refine ⟨?_, ?_, ?_⟩
    · rw [List.length_append, Nethdr.bytes_length]
      omega
    · rw [hhdr]
      rfl
    · rw [hhdr, hlen, List.length_append, List.length_append, Nethdr.bytes_length]
      omega
  have hpayload : payload (hdr.bytes ++ (encode (ct.fields getobjopt) ++ behind)) =
      encode (ct.fields getobjopt) ++ [] := by
    rw [payload, hhdr, hlen, List.drop_left' hdr.bytes_length, Nat.add_sub_cancel_left, List.take_left,
      List.append_nil]
  rw [hbytes, parseMessage_ok_iff hwhole, hpayload]
  exact ⟨ct.fields getobjopt, [], Takes.encode fields_known [], Nat.zero_le _, (foldl_fields hcomplete).symm⟩

/-- All of it arrives exactly if the values of the adjustment are the same. -/
theorem received_eq_carried_iff : ct.received getobjopt = ct.carried getobjopt ↔
    (ct.Adjusted → ∀ attr ∈ natType, ct.u32 attr = ct.u32 .origNatSeqCorrectionPos) := by
  have hcarried : ∀ attr ∈ natType, ct.Adjusted → (ct.carried getobjopt).u32 attr = ct.u32 attr := by
    intro attr hattr hadjusted
    simp only [natType, List.mem_cons, List.not_mem_nil, or_false] at hattr
    rcases hattr with rfl | rfl | rfl | rfl | rfl | rfl <;> exact if_pos hadjusted
  constructor
  · intro heq hadjusted attr hattr
    have hu32 := congrFun (congrArg NfConntrack.u32 heq) attr
    rw [hcarried attr hattr hadjusted] at hu32
    rw [← hu32]
    exact if_pos ⟨hadjusted, hattr⟩
  · intro hsame
    have hu32 : (ct.received getobjopt).u32 = (ct.carried getobjopt).u32 := by
      funext attr
      by_cases hattr : ct.Adjusted ∧ attr ∈ natType
      · rw [hcarried attr hattr.2 hattr.1, hsame hattr.1 attr hattr.2]
        exact if_pos hattr
      · exact if_neg hattr
    exact NfConntrack.ext rfl rfl hu32 rfl

/-- A connection that has been written to a message arrives as it is to exactly if its six values of the adjustment
of sequence numbers are not all set, or all the same. -/
theorem parseMessage_buildNetmsg {time : BitVec 32} {state state' : NetState} (hroom : 220 ≤ state.net.length)
    (hword : state.net.length < 2 ^ 16)
    (hbuilt : buildNetmsg getobjopt time ct netTStateNew state = .ok state') :
    parseMessage state'.message = .ret 0 (ct.carried getobjopt) ↔
      (ct.Adjusted → ∀ attr ∈ natType, ct.u32 attr = ct.u32 .origNatSeqCorrectionPos) := by
  have hcomplete : ct.Complete := by
    by_contra hincomplete
    have hcrashed := (buildPayload_writes ct getobjopt).crashes hincomplete
    simp [buildNetmsg, nethdrSet, hcrashed, bind, Except.bind] at hbuilt
  rw [buildNetmsg_eq hcomplete hroom hword] at hbuilt
  cases hbuilt
  have hparsed : parseMessage (messageOf getobjopt netTStateNew (state.curSeq.getD time) ct ++ []) = _ :=
    parseMessage_messageOf hcomplete _ []
  rw [List.append_nil] at hparsed
  rw [message_messageOf, hparsed, Payload.ret.injEq, ← received_eq_carried_iff]
  exact and_iff_right rfl

theorem parseMessage_tcpConntrack : ∃ state',
    buildNetmsg (fun _ opt => opt = .isSpat) 9 tcpConntrack netTStateNew emptyNet = .ok state' ∧
      parseMessage state'.message = .ret 0 (tcpConntrack.carried fun _ opt => opt = .isSpat) := by
  have hbuilt : buildNetmsg (fun _ opt => opt = .isSpat) 9 tcpConntrack netTStateNew emptyNet = _ :=
    buildNetmsg_eq tcpConntrack_complete emptyNet_room.1 emptyNet_room.2
  exact ⟨_, hbuilt, (parseMessage_buildNetmsg emptyNet_room.1 emptyNet_room.2 hbuilt).mpr fun h =>
    absurd h (by decide)⟩

end Received

/-! ## From one table to another -/

section Puts

variable {κ τ ρ ε : Type} {kernel : Kernel κ τ ρ ε} {invert : τ → τ} {parse : List (BitVec 8) → Parsed τ ρ}
  {table table' : κ} {ct : Conntrack τ ρ} {cts : List (Conntrack τ ρ)}

/-- There is memory, and a socket. -/
structure Environment.Works (env : Environment) : Prop where
  nfctOpen : env.nfctOpen = true
  malloc : env.malloc = true
  nfctClone : env.nfctClone = true

/-- The puts of chunks one after the other, each with what goes wrong then. -/
def putChunks (queries : Queries κ τ ρ) (invert : τ → τ) (parse : List (BitVec 8) → Parsed τ ρ) :
    List (Environment × Chunk) → κ → Except Halt κ
  | [], table => .ok table
  | (env, chunk) :: chunks, table => do
      let (table, _) ← localPutPerflowBy queries invert parse env chunk.hashkey chunk.key chunk.state table
      putChunks queries invert parse chunks table

namespace Kernel

/-- The entry that a put asks for. -/
def entryOf (kernel : Kernel κ τ ρ ε) (invert : τ → τ) (ct : Conntrack τ ρ) : ε := kernel.made (ct.recovered invert)

/-- What shares a tuple with the entry has its original tuple, so that it can be destroyed for it. -/
def Replaceable (kernel : Kernel κ τ ρ ε) (invert : τ → τ) (table : κ) (ct : Conntrack τ ρ) : Prop :=
  ∀ e ∈ kernel.entries table, kernel.Clash e (kernel.entryOf invert ct) → ct.orig ∈ kernel.tuples e

/-- The entries of some connections are there, and of those before the ones that share no tuple with them. -/
def Replaced (kernel : Kernel κ τ ρ ε) (invert : τ → τ) (cts : List (Conntrack τ ρ)) (table table' : κ) : Prop :=
  ∀ e, e ∈ kernel.entries table' ↔ (∃ ct ∈ cts, e = kernel.entryOf invert ct) ∨
    e ∈ kernel.entries table ∧ ∀ ct ∈ cts, ¬ kernel.Clash e (kernel.entryOf invert ct)

theorem clash_comm {e e' : ε} : kernel.Clash e e' ↔ kernel.Clash e' e :=
  ⟨fun ⟨t, h, h'⟩ => ⟨t, h', h⟩, fun ⟨t, h, h'⟩ => ⟨t, h', h⟩⟩

theorem replaced_one : kernel.Replaced invert [ct] table table' ↔ ∀ e, e ∈ kernel.entries table' ↔
    e = kernel.entryOf invert ct ∨ e ∈ kernel.entries table ∧ ¬ kernel.Clash e (kernel.entryOf invert ct) := by
  simp only [Replaced, List.mem_singleton, exists_eq_left, forall_eq]

theorem Documented.clash_of_mem (hkernel : kernel.Documented) {e : ε} (h : ct.orig ∈ kernel.tuples e) :
    kernel.Clash e (kernel.entryOf invert ct) :=
  ⟨ct.orig, h, hkernel.orig_mem (ct.recovered invert)⟩

/-- What is there is destroyed where it is in the way, and the entry is made. -/
theorem Documented.create_again (hkernel : kernel.Documented) (hclash : kernel.Replaceable invert table ct)
    (herrno : Errno) {destroyed : κ} (hdestroyed : kernel.entries destroyed =
      {e ∈ kernel.entries table | ct.orig ∉ kernel.tuples e}) :
    kernel.Replaced invert [ct] table (kernel.create (ct.recovered invert) destroyed herrno).table := by
  have hnew : ∀ e ∈ kernel.entries destroyed, ¬ kernel.Clash e (kernel.entryOf invert ct) := by
    intro e he hclash'
    rw [hdestroyed] at he
    exact he.2 (hclash e he.1 hclash')
  refine replaced_one.mpr fun e => ?_
  rw [(hkernel.create_new (ct.recovered invert) destroyed herrno hnew).1, hdestroyed, Set.mem_insert_iff]
  refine or_congr_right (and_congr_right fun he => not_congr ?_)
  exact ⟨hkernel.clash_of_mem, hclash e he⟩

/-- Whatever `errno` has been before, and whether there is such an entry or not. -/
theorem Documented.replaced_nlCreateConntrack (hkernel : kernel.Documented) {env : Environment} (hworks : env.Works)
    (hclash : kernel.Replaceable invert table ct) :
    kernel.Replaced invert [ct] table (nlCreateConntrackBy kernel.queries invert env ct table).1 := by
  set new := ct.recovered invert with hrecovered
  have hmem : ct.orig ∈ kernel.tuples (kernel.made new) := hkernel.orig_mem new
  rw [nlCreateConntrackBy, hworks.nfctClone, Bool.not_true, if_neg Bool.false_ne_true]
  dsimp only [queries]
  by_cases hthere : ∃ e ∈ kernel.entries table, kernel.Clash e (kernel.made new)
  · -- It is refused. What is in the way is destroyed.
    obtain ⟨hentries, -, herrno⟩ := hkernel.create_taken new table env.errno hthere
    obtain ⟨e, he, hclash'⟩ := hthere
    obtain ⟨hentries', hret, -⟩ := hkernel.destroy_there new (kernel.create new table env.errno).table .eexist
      ⟨e, hentries ▸ he, hclash e he hclash'⟩
    rw [if_pos herrno, herrno, if_pos (Or.inl hret)]
    exact hkernel.create_again hclash _ (hentries ▸ hentries')
  · push Not at hthere
    obtain ⟨hentries, -, herrno⟩ := hkernel.create_new new table env.errno hthere
    have hreplaced : kernel.Replaced invert [ct] table (kernel.create new table env.errno).table := by
      refine replaced_one.mpr fun e => ?_
      rw [hentries, Set.mem_insert_iff]
      exact or_congr_right ⟨fun he => ⟨he, hthere e he⟩, fun he => he.1⟩
    rw [herrno]
    split
    · -- It is destroyed for an old `errno`, and made once more.
      obtain ⟨hentries', hret, -⟩ := hkernel.destroy_there new (kernel.create new table env.errno).table env.errno
        ⟨kernel.made new, hentries ▸ Set.mem_insert _ _, hmem⟩
      rw [if_pos (Or.inl hret)]
      refine hkernel.create_again hclash _ (hentries'.trans (Set.ext fun e => ?_))
      rw [hentries]
      constructor
      · rintro ⟨rfl | he, hnot⟩
        · exact absurd hmem hnot
        · exact ⟨he, hnot⟩
      · exact fun he => ⟨Set.mem_insert_of_mem _ he.1, he.2⟩
    · exact hreplaced

end Kernel

/-- A chunk from which a connection is read. -/
def Carries (parse : List (BitVec 8) → Parsed τ ρ) (put : Environment × Chunk) (ct : Conntrack τ ρ) : Prop :=
  put.1.Works ∧ parse (Shared.sdmbnBase64Decode put.2.state) = .ok ct

theorem Kernel.Documented.replaced_putChunks (hkernel : kernel.Documented) {puts : List (Environment × Chunk)}
    (hcarries : List.Forall₂ (Carries parse) puts cts)
    (hnew : cts.Pairwise fun ct ct' => ¬ kernel.Clash (kernel.entryOf invert ct) (kernel.entryOf invert ct'))
    (hold : ∀ ct ∈ cts, kernel.Replaceable invert table ct) :
    ∃ table', putChunks kernel.queries invert parse puts table = .ok table' ∧
      kernel.Replaced invert cts table table' := by
  induction hcarries generalizing table with
  | nil => exact ⟨table, rfl, fun e => by simp⟩
  | @cons put ct puts cts hcarries _ ih =>
      obtain ⟨hworks, hparse⟩ := hcarries
      rw [List.pairwise_cons] at hnew
      rw [List.forall_mem_cons] at hold
      set table₁ := (nlCreateConntrackBy kernel.queries invert put.1 ct table).1 with htable₁
      have hput : localPutPerflowBy kernel.queries invert parse put.1 put.2.hashkey put.2.key put.2.state table =
          .ok (table₁, 1) := by
        simp only [localPutPerflowBy, hworks.nfctOpen, hworks.malloc, Bool.not_true, Bool.false_eq_true, if_false,
          hparse, ← htable₁]
      have hfirst := Kernel.replaced_one.mp (hkernel.replaced_nlCreateConntrack hworks hold.1)
      rw [← htable₁] at hfirst
      have hold' : ∀ ct' ∈ cts, kernel.Replaceable invert table₁ ct' := by
        intro ct' hct' e he hclash
        rcases (hfirst e).mp he with rfl | ⟨he, -⟩
        · exact absurd hclash (hnew.1 ct' hct')
        · exact hold.2 ct' hct' e he hclash
      obtain ⟨table', hputs, hreplaced⟩ := ih hnew.2 hold'
      refine ⟨table', ?_, fun e => ?_⟩
      · simp only [putChunks, hput, bind, Except.bind, hputs]
      · rw [hreplaced e, hfirst e, List.exists_mem_cons_iff, List.forall_mem_cons]
        constructor
        · rintro (hmem | ⟨rfl | ⟨he, hno⟩, hnone⟩)
          · exact Or.inl (Or.inr hmem)
          · exact Or.inl (Or.inl rfl)
          · exact Or.inr ⟨he, hno, hnone⟩
        · rintro ((rfl | hmem) | ⟨he, hno, hnone⟩)
          · exact Or.inr ⟨Or.inl rfl, fun ct' hct' => hnew.1 ct' hct'⟩
          · exact Or.inl hmem
          · exact Or.inr ⟨Or.inr ⟨he, hno⟩, hnone⟩

end Puts

section Moved

variable {getobjopt : NfConntrack → Objopt → Bool} {time : BitVec 32} {invert : Tuple → Tuple}

/-- What the kernel is asked to create for a connection that arrives. -/
def NfConntrack.arrival (getobjopt : NfConntrack → Objopt → Bool) (ct : NfConntrack) : Conntrack Tuple NfConntrack :=
  (ct.received getobjopt).conntrack

theorem parseConntrack_messageOf {ct : NfConntrack} (hcomplete : ct.Complete) (seq : BitVec 32) :
    parseConntrack (messageOf getobjopt netTStateNew seq ct) = .ok (ct.arrival getobjopt) := by
  have hparsed : parseMessage (messageOf getobjopt netTStateNew seq ct ++ []) = _ :=
    parseMessage_messageOf hcomplete seq []
  rw [List.append_nil] at hparsed
  rw [parseConntrack, hparsed]
  rfl

/-- Whatever a message is built in, the chunk that a get sends of it carries what arrives. -/
theorem forall₂_getCallbacks (u : Shared.Undefined) (key : Shared.PerflowKey) (id : BitVec 32)
    {cts : List NfConntrack} {entries : List Entry} {state last : NetState}
    (hroom : 220 ≤ state.net.length) (hword : state.net.length < 2 ^ 16)
    (hbuilt : buildNetmsgs getobjopt time netTStateNew cts state = .ok (entries.map Entry.netmsg, last))
    (hmatches : ∀ entry ∈ entries, callbackMatches key entry = true) :
    List.Forall₂ (fun chunk ct => parseConntrack (Shared.sdmbnBase64Decode chunk.state) =
      .ok (NfConntrack.arrival getobjopt ct)) (getCallbacks u key id 0 entries).1 cts := by
  obtain ⟨hcomplete, hnetmsgs⟩ := buildNetmsgs_ok hroom hword hbuilt
  have hlength : entries.length = cts.length := by
    have := congrArg List.length hnetmsgs
    rwa [List.length_map, List.length_mapIdx] at this
  rw [getCallbacks_eq, List.filter_eq_self.mpr hmatches]
  refine List.forall₂_iff_get.mpr ⟨by rw [List.length_mapIdx, hlength], fun i hi hi' => ?_⟩
  have hi'' : i < entries.length := hlength ▸ hi'
  have hnetmsg : entries[i].netmsg =
      messageOf getobjopt netTStateNew (state.curSeq.getD time + BitVec.ofNat 32 i) cts[i] := by
    have hget := List.getElem_of_eq hnetmsgs (i := i) (by rwa [List.length_map])
    rwa [List.getElem_map, List.getElem_mapIdx] at hget
  have hchunk : ((entries.mapIdx fun i ct => chunkOf u key id (0 + i) ct).get ⟨i, hi⟩).state =
      Shared.encodeBytes entries[i].netmsg := by
    rw [List.get_eq_getElem, List.getElem_mapIdx]
    rfl
  rw [hchunk, Shared.decode_encodeBytes, hnetmsg, List.get_eq_getElem]
  exact parseConntrack_messageOf (hcomplete _ (List.getElem_mem hi')) _

/-- The chunks of a dump are put at another instance, in whatever order they come there: the entries of its
connections are there then, and of those that were there before the ones that share no tuple with them. -/
theorem putChunks_getCallbacks {κ ε : Type} {kernel : Kernel κ Tuple NfConntrack ε} (hkernel : kernel.Documented)
    (u : Shared.Undefined) (key : Shared.PerflowKey) (id : BitVec 32) {cts : List NfConntrack} {entries : List Entry}
    {state last : NetState} (hroom : 220 ≤ state.net.length) (hword : state.net.length < 2 ^ 16)
    (hbuilt : buildNetmsgs getobjopt time netTStateNew cts state = .ok (entries.map Entry.netmsg, last))
    (hmatches : ∀ entry ∈ entries, callbackMatches key entry = true)
    {puts : List (Environment × Chunk)} (hworks : ∀ put ∈ puts, put.1.Works)
    (harrived : (puts.map Prod.snd).Perm (getCallbacks u key id 0 entries).1) {table : κ}
    (hnew : (cts.map fun ct => kernel.entryOf invert (ct.arrival getobjopt)).Pairwise fun e e' => ¬ kernel.Clash e e')
    (hold : ∀ ct ∈ cts, kernel.Replaceable invert table (ct.arrival getobjopt)) :
    ∃ table', putChunks kernel.queries invert parseConntrack puts table = .ok table' ∧
      kernel.Replaced invert (cts.map fun ct => ct.arrival getobjopt) table table' := by
  obtain ⟨cts', hcarried, hperm⟩ :=
    List.perm_comp_forall₂ harrived (forall₂_getCallbacks u key id hroom hword hbuilt hmatches)
  have hcarries : List.Forall₂ (Carries parseConntrack) puts (cts'.map (NfConntrack.arrival getobjopt)) := by
    rw [List.forall₂_map_right_iff]
    exact (List.forall₂_and_left _ _).mpr ⟨hworks, List.forall₂_map_left_iff.mp hcarried⟩
  have hnew' : (cts'.map (NfConntrack.arrival getobjopt)).Pairwise fun ct ct' =>
      ¬ kernel.Clash (kernel.entryOf invert ct) (kernel.entryOf invert ct') := by
    rw [List.pairwise_map] at hnew ⊢
    exact (hperm.pairwise_iff fun h h' => h (Kernel.clash_comm.mp h')).mpr hnew
  have hold' : ∀ ct ∈ cts'.map (NfConntrack.arrival getobjopt), kernel.Replaceable invert table ct :=
    List.forall_mem_map.mpr fun ct hct => hold ct (hperm.mem_iff.mp hct)
  obtain ⟨table', hputs, hreplaced⟩ := hkernel.replaced_putChunks hcarries hnew' hold'
  refine ⟨table', hputs, fun e => ?_⟩
  rw [hreplaced e]
  simp only [(hperm.map _).mem_iff]

/-! ## A sample -/

/-- The tuple of the other direction, of a connection with ports. -/
def Tuple.inverted (t : Tuple) : Tuple :=
  { t with
    ipv4 := t.ipv4.map fun m => ⟨m.1.drop 4 ++ m.1.take 4, by simp [m.2, AttrGrp.size]⟩
    port := t.port.map fun m => ⟨m.1.drop 2 ++ m.1.take 2, by simp [m.2, AttrGrp.size]⟩ }

/-- A connection from a port to a web server. -/
def webConntrack (port : BitVec 8) : NfConntrack where
  u8 attr := if attr = .l4proto then some ipprotoTcp else if attr = .tcpState then some 3 else none
  u16 _ := none
  u32 attr := if attr = .status then some 8 else none
  grp
    | .origIpv4 => some ⟨[10, 0, 0, 1, 10, 0, 0, 2], rfl⟩
    | .origPort => some ⟨[200, port, 0, 80], rfl⟩
    | _ => none

theorem webConntrack_complete (port : BitVec 8) : (webConntrack port).Complete := by
  refine ⟨rfl, fun h => ?_, fun h => ?_, fun h => ?_⟩
  · exact absurd (show ipprotoTcp = ipprotoDccp from h) (by decide)
  · exact absurd (show ipprotoTcp = ipprotoIcmp from h) (by decide)
  · rcases h with h | h <;> cases h

theorem messageOf_length_bounds {query : BitVec 4} (seq : BitVec 32) (ct : NfConntrack) :
    1 ≤ (messageOf getobjopt query seq ct).length ∧ (messageOf getobjopt query seq ct).length < 2 ^ 16 := by
  refine ⟨?_, (messageOf_length_le seq ct).trans_lt (by decide)⟩
  rw [messageOf, List.length_append, Nethdr.bytes_length, nethdrSiz]
  omega

def webEntry (port : BitVec 8) (i : Nat) : Entry where
  l3proto := afInet
  l4proto := ipprotoTcp
  portSrc := some ((200 : BitVec 8) ++ port)
  portDst := some 80
  ipv4Src := 0x0a000001
  ipv4Dst := 0x0a000002
  id := 1
  netmsg := messageOf (fun _ _ => false) netTStateNew (9 + BitVec.ofNat 32 i) (webConntrack port)
  netmsg_length := messageOf_length_bounds _ _

/-- What the other instance is asked for. -/
def webArrival (port : BitVec 8) : Conntrack Tuple NfConntrack := (webConntrack port).arrival fun _ _ => false

/-- Libraries that work, after a call that has failed. -/
def workingEnvironment : Environment := ⟨true, true, true, .eexist, none, none, none⟩

/-- The chunks of two connections, the last one first. -/
def webPuts : List (Environment × Chunk) :=
  (getCallbacks ⟨.zero, fun _ => 0⟩ { Shared.PerflowKey.zero with wildcards := Shared.wildcardAll } 7 0
    [webEntry 1 0, webEntry 2 1]).1.reverse.map fun chunk => (workingEnvironment, chunk)

/-- Another instance: it has an entry of the first connection, with the directions the other way round, and one of
another connection. -/
def webTable : List (Conntrack Tuple NfConntrack) :=
  [{ webArrival 1 with orig := (webArrival 1).orig.inverted, reply := some (webArrival 1).orig },
    (webArrival 3).recovered Tuple.inverted]

theorem putChunks_webPuts : ∃ table', putChunks listKernel.queries Tuple.inverted parseConntrack webPuts webTable =
      .ok table' ∧ listKernel.Replaced Tuple.inverted [webArrival 1, webArrival 2] webTable table' := by
  obtain ⟨last, hbuilt⟩ : ∃ last, buildNetmsgs (fun _ _ => false) 9 netTStateNew [webConntrack 1, webConntrack 2]
      emptyNet = .ok ([webEntry 1 0, webEntry 2 1].map Entry.netmsg, last) :=
    (@buildNetmsgs_eq (fun _ _ => false) 9 netTStateNew [webConntrack 1, webConntrack 2] emptyNet emptyNet_room.1
      emptyNet_room.2).1 (by simp [webConntrack_complete])
  have harrived : (webPuts.map Prod.snd).Perm (getCallbacks ⟨.zero, fun _ => 0⟩
      { Shared.PerflowKey.zero with wildcards := Shared.wildcardAll } 7 0 [webEntry 1 0, webEntry 2 1]).1 := by
    rw [webPuts, List.map_map]
    exact (List.Perm.of_eq (List.map_id' _)).trans (List.reverse_perm _)
  refine putChunks_getCallbacks documented_listKernel _ _ 7 emptyNet_room.1 emptyNet_room.2 hbuilt ?_ ?_ harrived ?_ ?_
  · exact List.forall_mem_cons.mpr ⟨by decide, List.forall_mem_singleton.mpr (by decide)⟩
  · intro put hput
    obtain ⟨chunk, -, rfl⟩ := List.mem_map.mp hput
    exact ⟨rfl, rfl, rfl⟩
  · refine List.pairwise_pair.mpr ?_
    rw [clash_listKernel]
    decide
  · have hreplaceable : ∀ ct ∈ [webConntrack 1, webConntrack 2], ∀ e ∈ webTable,
        (e.has (ct.arrival fun _ _ => false).orig ∨
          (((ct.arrival fun _ _ => false).recovered Tuple.inverted).reply.any e.has)) →
            e.has (ct.arrival fun _ _ => false).orig := by
      refine List.forall_mem_cons.mpr ⟨by decide, List.forall_mem_singleton.mpr (by decide)⟩
    exact fun ct hct e he hclash => hreplaceable ct hct e he (clash_listKernel.mp hclash)

end Moved

end OFM.Iptables
