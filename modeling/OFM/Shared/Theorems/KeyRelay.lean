import OFM.Controller.PacketMatch
import OFM.Controller.SendMessage
import OFM.Controller.Operation
import OFM.Shared.KeyJson
import OFM.Shared.PerflowKey

/-!
# Keys on their way through the controller

A key that one network function writes is the same key, but for the fields that are wildcards, when
another one reads it from the put message of its chunk. The text that is written for an address is read as this
address again.
-/

namespace OFM.Shared
open OFM.Lib
open OFM.Controller (JavaString JsonValue JsonPart KeyObject StateChunk Middlebox decimal IPv4.fromIPv4Address)

/-! ## Digits -/

/-- Digits are read up to the first character that is none. -/
theorem strtoulFrom_append (base : Nat) {ds rest : JavaString} {values : List Nat}
    (hds : ds.mapM (digit base) = some values) (hrest : rest.head?.bind (digit base) = none) (n : Nat) :
    strtoulFrom base n (ds ++ rest) = (values.foldl (fun n d => n * base + d) n, rest) := by
  induction ds generalizing n values with
  | nil =>
      obtain rfl : [] = values := by simpa using hds
      cases rest with
      | nil => rfl
      | cons c rest =>
          have hc : digit base c = none := hrest
          simp [strtoulFrom, hc]
  | cons c ds ih =>
      simp only [List.mapM_cons, Option.bind_eq_bind, Option.bind_eq_some_iff] at hds
      obtain ⟨d, hd, values', hds', h⟩ := hds
      obtain rfl : d :: values' = values := by simpa using h
      simp [strtoulFrom, hd, ih hds']

/-- What is written for a byte: a zero, or digits of which the first one is not a zero. -/
theorem decimal_byte {n : Nat} (hn : n < 256) : ∃ values, (decimal n).mapM (digit 10) = some values ∧
    values.foldl (fun n d => n * 10 + d) 0 = n ∧
    (n = 0 ∧ decimal n = [48] ∨ (decimal n).head? ≠ some 48 ∧ decimal n ≠ []) := by
  have h : ∀ n : Fin 256, ∃ values ∈ (decimal n).mapM (digit 10),
      values.foldl (fun n d => n * 10 + d) 0 = n.val ∧
      (n.val = 0 ∧ decimal n = [48] ∨ (decimal n).head? ≠ some 48 ∧ decimal n ≠ []) := by
    decide +kernel
  exact h ⟨n, hn⟩

/-- What follows a number in an address. -/
def Ends (rest : JavaString) : Prop := rest = [] ∨ ∃ t, rest = 46 :: t

theorem Ends.not_digit {rest : JavaString} (h : Ends rest) (base : Nat) :
    rest.head?.bind (digit base) = none := by
  have hdot : digit base 46 = none := rfl
  obtain rfl | ⟨t, rfl⟩ := h
  · rfl
  · exact hdot

theorem strtoul_decimal {n : Nat} (hn : n < 256) {rest : JavaString} (hrest : Ends rest) :
    strtoul (decimal n ++ rest) = (n, rest) := by
  obtain ⟨values, hvalues, hfold, ⟨rfl, hzero⟩ | ⟨hhead, hne⟩⟩ := decimal_byte hn
  · have hdigits : ([48] : JavaString).mapM (digit 8) = some [0] := rfl
    have h8 : strtoulFrom 8 0 ([48] ++ rest) = (0, rest) := strtoulFrom_append 8 hdigits (hrest.not_digit 8) 0
    rw [hzero]
    obtain rfl | ⟨t, rfl⟩ := hrest
    · rfl
    · cases t <;> simpa [strtoul] using h8
  · have h10 := strtoulFrom_append 10 hvalues (hrest.not_digit 10) 0
    rw [hfold] at h10
    obtain ⟨c, ds, hds⟩ := List.exists_cons_of_ne_nil hne
    rw [hds] at hhead h10 ⊢
    have hc : c ≠ 48 := by simpa using hhead
    rw [← h10, List.cons_append]
    unfold strtoul
    split
    · rename_i heq
      exact absurd (List.cons.inj heq).1 hc
    · rename_i heq
      exact absurd (List.cons.inj heq).1 hc
    · rfl

/-! ## Addresses -/

theorem head_decimal {n : Nat} (hn : n < 256) (rest : JavaString) :
    (((decimal n ++ rest).head?).bind (digit 10)).isNone = false := by
  obtain ⟨values, hvalues, -, hdecimal⟩ := decimal_byte hn
  have hne : decimal n ≠ [] := by
    rcases hdecimal with ⟨-, h⟩ | ⟨-, h⟩
    · simp [h]
    · exact h
  obtain ⟨c, ds, hds⟩ := List.exists_cons_of_ne_nil hne
  rw [hds] at hvalues ⊢
  simp only [List.mapM_cons, Option.bind_eq_bind, Option.bind_eq_some_iff] at hvalues
  obtain ⟨d, hd, -⟩ := hvalues
  simp [hd]

/-- A byte with a dot behind it is filed. -/
theorem inetAtonFrom_dot {n : Nat} (hn : n < 256) {bytes : List Nat} (hbytes : bytes.length ≤ 2)
    (rounds : Nat) (rest : JavaString) :
    inetAtonFrom (rounds + 1) bytes (decimal n ++ 46 :: rest) =
      inetAtonFrom rounds (bytes ++ [n]) rest := by
  rw [inetAtonFrom, head_decimal hn, strtoul_decimal hn (Or.inr ⟨rest, rfl⟩)]
  simp [show ¬ 4294967295 < n by omega, show ¬ 2 < bytes.length by omega, show ¬ 255 < n by omega]

/-- The last one of four bytes. -/
theorem inetAtonFrom_last {n : Nat} (hn : n < 256) (b₀ b₁ b₂ rounds : Nat) :
    inetAtonFrom (rounds + 1) [b₀, b₁, b₂] (decimal n) =
      some (BitVec.ofNat 32 b₀ <<< 24 ||| BitVec.ofNat 32 b₁ <<< 16 ||| BitVec.ofNat 32 b₂ <<< 8 |||
        BitVec.ofNat 32 n) := by
  have htext : decimal n = decimal n ++ [] := (List.append_nil _).symm
  rw [htext, inetAtonFrom, head_decimal hn, strtoul_decimal hn (Or.inl rfl)]
  simp [show ¬ 4294967295 < n by omega, show ¬ 256 ≤ n by omega]

/-- The four bytes of an address make it up. -/
theorem address_bytes (address : BitVec 32) :
    ((address >>> 24).setWidth 8).setWidth 32 <<< 24 ||| ((address >>> 16).setWidth 8).setWidth 32 <<< 16 |||
      ((address >>> 8).setWidth 8).setWidth 32 <<< 8 ||| ((address >>> 0).setWidth 8).setWidth 32 =
      address := by
  refine BitVec.eq_of_getLsbD_eq fun j hj => ?_
  simp only [BitVec.getLsbD_or, BitVec.getLsbD_shiftLeft, BitVec.getLsbD_setWidth,
    BitVec.getLsbD_ushiftRight]
  grind

/-- `inet_aton` of what Java writes for an address. -/
theorem inetAton_fromIPv4Address (address : BitVec 32) :
    inetAton (IPv4.fromIPv4Address address) = some address := by
  have hlt : ∀ shift : Nat, ((address >>> shift).setWidth 8).toNat < 256 := fun shift => BitVec.isLt _
  rw [IPv4.fromIPv4Address, inetAton]
  simp only [List.append_assoc, List.cons_append, List.nil_append]
  rw [inetAtonFrom_dot (hlt 24) (by simp), inetAtonFrom_dot (hlt 16) (by simp),
    inetAtonFrom_dot (hlt 8) (by simp)]
  simp only [List.nil_append, List.cons_append]
  rw [inetAtonFrom_last (hlt 0)]
  simp only [BitVec.ofNat_toNat]
  rw [address_bytes]

/-! ## Keys -/

/-- The key without what its wildcards make meaningless. -/
def PerflowKey.normal (key : PerflowKey) : PerflowKey where
  nwSrc := if key.Fixed wildcardNwSrc then key.nwSrc else 0
  nwSrcMask := if key.Fixed wildcardNwSrcMask then key.nwSrcMask else 0
  nwDst := if key.Fixed wildcardNwDst then key.nwDst else 0
  nwDstMask := if key.Fixed wildcardNwDstMask then key.nwDstMask else 0
  tpSrc := if key.Fixed wildcardTpSrc then key.tpSrc else 0
  tpDst := if key.Fixed wildcardTpDst then key.tpDst else 0
  dlType := if key.Fixed wildcardDlType then key.dlType else 0
  nwProto := if key.Fixed wildcardNwProto then key.nwProto else 0
  wildcards := key.wildcards
  tpFlip := if key.Fixed wildcardTpSrc ∨ key.Fixed wildcardTpDst then key.tpFlip else 0

@[simp] theorem readAddress_inetNtoa (address : BitVec 32) : readAddress (inetNtoa address) = address := by
  rw [readAddress, inetNtoa, inetAton_fromIPv4Address, Option.getD_some, swap32_swap32]

/-! ## Members -/

/-- The JSON text of a value. -/
def parts : JsonValue → List JsonPart
  | .number n => JsonPart.number n
  | .text t => JsonPart.quoted t

/-- The text that Gson writes for a key has the members of its object, in their order. -/
theorem ofKey_toJson (key : Controller.PerflowKey) : JsonPart.ofKey key =
    JsonPart.object (key.toJson.map fun field => JsonPart.member field.1 (parts field.2)) := by
  simp [JsonPart.ofKey, Controller.PerflowKey.toJson, parts, Function.comp_def]

theorem lookup_member (name name' : String) (value : JsonValue) (field : KeyObject) :
    List.lookup name' ((name, value) :: field) =
      if name' = name then some value else List.lookup name' field := by
  rw [List.lookup_cons]
  cases h : name' == name with
  | true => rw [if_pos (eq_of_beq h)]
  | false => rw [if_neg (ne_of_beq_false h)]

theorem lookup_optional {α : Type} (o : Option α) (name name' : String) (f : α → JsonValue) :
    (o.toList.map fun x => (name, f x)).lookup name' = if name' = name then o.map f else none := by
  cases o with
  | none => simp
  | some x => simp [lookup_member]

theorem lookup_addInt {w : Nat} (field : KeyObject) (compared : Prop) [Decidable compared]
    (name name' : String) (n : BitVec w) : (addInt field compared name n).lookup name' =
      (field.lookup name').or
        (if name' = name ∧ compared then some (.number (n.setWidth 32).toInt) else none) := by
  by_cases hc : compared <;> by_cases h : name' = name <;>
    simp [addInt, hc, h, List.lookup_append, lookup_member]

theorem lookup_addString (field : KeyObject) (compared : Prop) [Decidable compared]
    (name name' : String) (t : JavaString) : (addString field compared name t).lookup name' =
      (field.lookup name').or (if name' = name ∧ compared then some (.text t) else none) := by
  by_cases hc : compared <;> by_cases h : name' = name <;>
    simp [addString, hc, h, List.lookup_append, lookup_member]

/-- All members of what Gson writes are read again. -/
theorem members_toJson (key : Controller.PerflowKey) : key.toJson.members = key := by
  obtain ⟨s, d, sm, dm, ts, td, f, dl, p⟩ := key
  have hnumber : ∀ o : Option Int, (o.map JsonValue.number).bind JsonValue.asNumber = o := by
    rintro (_ | _) <;> rfl
  have htext : ∀ o : Option JavaString, (o.map JsonValue.text).bind JsonValue.asText = o := by
    rintro (_ | _) <;> rfl
  simp [Controller.PerflowKey.toJson, KeyObject.members, KeyObject.number, KeyObject.text,
    List.lookup_append, lookup_member, lookup_optional, hnumber, htext, JsonValue.asNumber]

/-- The members of a key that has been composed. -/
theorem members_compose (key : PerflowKey) : (jsonComposePerflowKey key).members =
    { nwSrc := if key.Fixed wildcardNwSrc then some (inetNtoa key.nwSrc) else none
      nwDst := if key.Fixed wildcardNwDst then some (inetNtoa key.nwDst) else none
      nwSrcMask := if key.Fixed wildcardNwSrcMask then some key.nwSrcMask.toInt else none
      nwDstMask := if key.Fixed wildcardNwDstMask then some key.nwDstMask.toInt else none
      tpSrc := if key.Fixed wildcardTpSrc then some ((swap16 key.tpSrc).setWidth 32).toInt else none
      tpDst := if key.Fixed wildcardTpDst then some ((swap16 key.tpDst).setWidth 32).toInt else none
      tpFlip := if key.Fixed wildcardTpSrc ∨ key.Fixed wildcardTpDst then
        (key.tpFlip.setWidth 32).toInt else 0
      dlType := if key.Fixed wildcardDlType then some (key.dlType.setWidth 32).toInt else none
      nwProto := if key.Fixed wildcardNwProto then some (key.nwProto.setWidth 32).toInt else none } := by
  have hite : ∀ {c : Prop} [Decidable c] {α : Type} (v : JsonValue) (f : JsonValue → Option α),
      (if c then some v else none).bind f = if c then f v else none := by
    intro c _ α v f
    split <;> rfl
  have hgetD : ∀ {c : Prop} [Decidable c] (n : Int),
      (if c then some n else none).getD 0 = if c then n else 0 := by
    intro c _ n
    split <;> rfl
  simp [jsonComposePerflowKey, KeyObject.members, KeyObject.number, KeyObject.text, lookup_addInt,
    lookup_addString, hite, hgetD, JsonValue.asNumber, JsonValue.asText]

/-! ## Numbers -/

/-- Every number of a Java type is an int. -/
theorem jsonObjectGetInt_toInt {w : Nat} (hw : w ≤ 32) (x : BitVec w) :
    jsonObjectGetInt x.toInt = x.signExtend 32 := by
  have hpow : (2 : Int) ^ w ≤ 2 ^ 32 := by exact_mod_cast Nat.pow_le_pow_right Nat.two_pos hw
  have hlo := BitVec.le_two_mul_toInt (x := x)
  have hhi := BitVec.two_mul_toInt_lt (x := x)
  rw [jsonObjectGetInt, min_eq_left (by omega), max_eq_right (by omega)]
  rfl

theorem setWidth_jsonObjectGetInt {w : Nat} (hw : w ≤ 32) (x : BitVec w) :
    (jsonObjectGetInt x.toInt).setWidth w = x := by
  rw [jsonObjectGetInt_toInt hw]
  refine BitVec.eq_of_getLsbD_eq fun j hj => ?_
  rw [BitVec.getLsbD_setWidth, BitVec.getLsbD_signExtend]
  simp [hj, show j < 32 by omega]

/-- A field that Gson cuts to its width and that is cut again when it is parsed. -/
theorem relay_narrowed {w : Nat} (hw : w ≤ 32) (x : BitVec w) :
    (jsonObjectGetInt (BitVec.ofInt w (x.setWidth 32).toInt).toInt).setWidth w = x := by
  have hcut : BitVec.ofInt w (x.setWidth 32).toInt = (x.setWidth 32).signExtend w := rfl
  rw [hcut, BitVec.signExtend_eq_setWidth_of_le _ hw, BitVec.setWidth_setWidth (by omega),
    BitVec.setWidth_eq, setWidth_jsonObjectGetInt hw]

/-- The wildcards are the missing members. -/
theorem missing_compose (key : PerflowKey) :
    missing (jsonComposePerflowKey key).members = key.wildcards := by
  have hite : ∀ {c : Prop} [Decidable c] {α : Type} (x : α) (w : BitVec 8),
      (if (if c then some x else none).isNone then w else 0) = if c then 0 else w := by
    intro c _ α x w
    split <;> simp
  have hbits : ∀ w : BitVec 8, 0 ||| (if w &&& wildcardDlType = 0 then 0 else wildcardDlType) |||
      (if w &&& wildcardNwSrc = 0 then 0 else wildcardNwSrc) |||
      (if w &&& wildcardNwSrcMask = 0 then 0 else wildcardNwSrcMask) |||
      (if w &&& wildcardNwDst = 0 then 0 else wildcardNwDst) |||
      (if w &&& wildcardNwDstMask = 0 then 0 else wildcardNwDstMask) |||
      (if w &&& wildcardNwProto = 0 then 0 else wildcardNwProto) |||
      (if w &&& wildcardTpSrc = 0 then 0 else wildcardTpSrc) |||
      (if w &&& wildcardTpDst = 0 then 0 else wildcardTpDst) = w := by
    decide
  rw [members_compose]
  simp only [missing, hite]
  exact hbits key.wildcards

/-! ## The relay -/

/-- What is parsed of the key that the controller writes, when it has read the key that was composed. -/
theorem parse_relayed (key : PerflowKey) : jsonParsePerflowKey
    (Controller.PerflowKey.fromJson (jsonComposePerflowKey key)).toJson.members = key.normal := by
  have hmissing : missing (Controller.PerflowKey.fromJson (jsonComposePerflowKey key)) = key.wildcards := by
    rw [← missing_compose key]
    simp [missing, Controller.PerflowKey.fromJson]
  have hfield : ∀ {c : Prop} [Decidable c] {α : Type} {n : Nat} (f : α → BitVec n) (x : α),
      ((if c then some x else none).map f).getD 0 = if c then f x else 0 := by
    intro c _ α n f x
    split <;> rfl
  have hflip : (jsonObjectGetInt (Controller.PerflowKey.toByte
      (if key.Fixed wildcardTpSrc ∨ key.Fixed wildcardTpDst then (key.tpFlip.setWidth 32).toInt else 0))).setWidth
        8 = if key.Fixed wildcardTpSrc ∨ key.Fixed wildcardTpDst then key.tpFlip else 0 := by
    split
    · exact relay_narrowed (by decide) key.tpFlip
    · decide
  rw [members_toJson, jsonParsePerflowKey_eq, hmissing, PerflowKey.normal]
  simp only [Controller.PerflowKey.fromJson, members_compose, hflip]
  simp only [Option.map_map, hfield, Function.comp_def, Controller.PerflowKey.toShort,
    Controller.PerflowKey.toByte, readAddress_inetNtoa, relay_narrowed (show 16 ≤ 32 by decide),
    relay_narrowed (show 8 ≤ 32 by decide), swap16_swap16,
    jsonObjectGetInt_toInt (le_refl 32), BitVec.signExtend_eq]

/-- The put message of a chunk carries the key of its state message, so that the network function that
is put the chunk parses the normal form of the key that was composed. -/
theorem key_relayed (key : PerflowKey) (id seq hashkey : Int) (state : JavaString) (chunk : StateChunk)
    (dsts : List Middlebox) :
    let field := Controller.PerflowKey.fromJson (jsonComposePerflowKey key)
    (chunk.storeStateMessage (.perflow id seq (some field) hashkey state) dsts).call =
      .emit true (dsts.map fun dst => .send dst (.put (.perflow id seq (some field) hashkey state))) ∧
    (chunk.storeStateMessage (.multiflow id seq (some field) hashkey state) dsts).call =
      .emit true (dsts.map fun dst => .send dst (.put (.multiflow id seq (some field) hashkey state))) ∧
    jsonParsePerflowKey field.toJson.members = key.normal :=
  ⟨rfl, rfl, parse_relayed key⟩

/-- A key with the ports 8080 and 443, and wildcards for all else. -/
def twoPorts : PerflowKey :=
  { PerflowKey.zero with tpSrc := 0x901f, tpDst := 0xbb01, tpFlip := 1, wildcards := 0xcf }

example : (jsonComposePerflowKey twoPorts) =
    [("tp_src", .number 8080), ("tp_dst", .number 443), ("tp_flip", .number 1)] := by decide

end OFM.Shared
