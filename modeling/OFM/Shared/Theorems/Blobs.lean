import OFM.Controller.ReprocessEvent
import OFM.Controller.Text
import OFM.Shared.Core
import OFM.Shared.Decoding

/-!
# One text for both codecs

What either encoder writes is read by either decoder, in C and in Java. When `sdmbn_base64_decode` keeps to the
string and to the block it allocates, and yields what Java decodes.
-/

namespace OFM.Shared
open OFM.Controller (Packet JavaString IsAscii ReprocessEvent utf8 chars)
open OFM.Lib

/-- Bytes as C has them. -/
def blob (bytes : Packet) : List (BitVec 8) := bytes.map UInt8.toBitVec

/-- A text of ASCII characters that C writes, as Java reads it. -/
def javaText (text : List (BitVec 8)) : JavaString := text.map fun c => (UInt8.ofBitVec c).toUInt16

/-- A text that Java writes, as C reads it: up to the first NUL character. -/
def cText (text : JavaString) : List (BitVec 8) := blob ((utf8 (chars text)).takeWhile (· ≠ 0))

/-- Both encoders have a text for the bytes, and both decoders yield the bytes again from either. -/
def CodecsAgree (bytes : Packet) : Prop :=
  ∃ textC textJava, sdmbnBase64Encode (blob bytes) = some textC ∧
    ReprocessEvent.base64Encode (some bytes) = .ok (some textJava) ∧
    sdmbnBase64Decode textC = blob bytes ∧ ReprocessEvent.base64Decode (javaText textC) = bytes ∧
    sdmbnBase64Decode (cText textJava) = blob bytes ∧ ReprocessEvent.base64Decode textJava = bytes

/-! ## The characters of a byte -/

/-- For half a byte both encoders write the same character, an ASCII character that is not NUL. -/
def SameCharacter (half : UInt8) : Prop :=
  ReprocessEvent.base64EncodeBits half < 0x80 ∧ (ReprocessEvent.base64EncodeBits half).toUInt8 ≠ 0 ∧
    (UInt8.ofBitVec (base64EncodeBits half.toBitVec)).toUInt16 = ReprocessEvent.base64EncodeBits half ∧
    (ReprocessEvent.base64EncodeBits half).toUInt8.toBitVec = base64EncodeBits half.toBitVec

instance : DecidablePred SameCharacter := fun _ => inferInstanceAs (Decidable (_ ∧ _ ∧ _ ∧ _))

theorem encodeBits_java (byte : UInt8) :
    SameCharacter (byte &&& 0x0f) ∧ SameCharacter ((byte &&& 0xf0) >>> 4) := by
  have h : ∀ n < 256, SameCharacter (UInt8.ofNat n &&& 0x0f) ∧ SameCharacter ((UInt8.ofNat n &&& 0xf0) >>> 4) := by
    decide +kernel
  simpa using h byte.toNat byte.toNat_lt

/-! ## Texts -/

theorem javaText_encodeBytes (bytes : Packet) :
    javaText (encodeBytes (blob bytes)) = ReprocessEvent.encodeBytes bytes := by
  induction bytes with
  | nil => rfl
  | cons byte bytes ih =>
      obtain ⟨⟨-, -, hlower, -⟩, -, -, hupper, -⟩ := encodeBits_java byte
      rw [ReprocessEvent.encodeBytes, ← hlower, ← hupper, ← ih]
      rfl

theorem isAscii_encodeBytes (bytes : Packet) : IsAscii (ReprocessEvent.encodeBytes bytes ++ [0]) := by
  induction bytes with
  | nil => simp [ReprocessEvent.encodeBytes, IsAscii]
  | cons byte bytes ih =>
      obtain ⟨⟨hlower, -⟩, hupper, -⟩ := encodeBits_java byte
      exact List.forall_mem_cons.mpr ⟨hlower, List.forall_mem_cons.mpr ⟨hupper, ih⟩⟩

/-- C reads the text that Java writes without its NUL character. -/
theorem cText_encodeBytes (bytes : Packet) :
    cText (ReprocessEvent.encodeBytes bytes ++ [0]) = encodeBytes (blob bytes) := by
  have hbytes : utf8 (chars (ReprocessEvent.encodeBytes bytes ++ [0])) =
      (ReprocessEvent.encodeBytes bytes ++ [0]).map UInt16.toUInt8 :=
    Controller.utf8Written_getBytes (isAscii_encodeBytes bytes)
  rw [cText, hbytes]
  clear hbytes
  induction bytes with
  | nil => rfl
  | cons byte bytes ih =>
      obtain ⟨⟨-, hlower, -, hlower'⟩, -, hupper, -, hupper'⟩ := encodeBits_java byte
      simp only [blob, ReprocessEvent.encodeBytes, List.cons_append, List.map_cons, List.takeWhile_cons,
        hlower, hupper, ne_eq, not_false_eq_true, decide_true, if_true, hlower', hupper'] at ih ⊢
      rw [ih]
      rfl

/-! ## Agreement -/

/-- The codecs agree about all bytes whose text has a size that is an int. -/
theorem codecsAgree_iff {bytes : Packet} (hne : bytes ≠ []) :
    CodecsAgree bytes ↔ bytes.length < 2 ^ 30 := by
  have hpos : ¬ bytes.length < 1 := by
    rw [Nat.lt_one_iff, List.length_eq_zero_iff]
    exact hne
  constructor
  · rintro ⟨-, textJava, -, hjava, -⟩
    rw [ReprocessEvent.base64Encode, if_neg hpos] at hjava
    split_ifs at hjava with hlong
    omega
  · intro hlt
    refine ⟨encodeBytes (blob bytes), ReprocessEvent.encodeBytes bytes ++ [0], ?_, ?_, ?_, ?_, ?_, ?_⟩
    · rw [sdmbnBase64Encode, blob, List.length_map, if_neg hpos, if_neg (by omega)]
    · rw [ReprocessEvent.base64Encode, if_neg hpos, if_neg (by omega)]
    · exact decode_encodeBytes (blob bytes)
    · rw [javaText_encodeBytes]
      have hnil : ([] : JavaString).length ≤ 1 := Nat.zero_le 1
      simpa using ReprocessEvent.base64Decode_encodeBytes bytes hnil
    · rw [cText_encodeBytes]
      exact decode_encodeBytes (blob bytes)
    · exact ReprocessEvent.base64Decode_encodeBytes bytes (by simp)

theorem codecsAgree_iff_sample : [0, 0xff] ≠ ([] : Packet) ∧ (CodecsAgree [0, 0xff] ↔ 2 < 2 ^ 30) :=
  ⟨by decide, @codecsAgree_iff [0, 0xff] (by decide)⟩

/-- The text of 2^30 bytes has a size that is not an int. -/
theorem not_codecsAgree_long : ¬ ∀ bytes : Packet, bytes ≠ [] → CodecsAgree bytes := by
  intro h
  have hne : List.replicate (2 ^ 30) (0 : UInt8) ≠ [] := by
    rw [ne_eq, List.replicate_eq_nil_iff]
    decide
  obtain ⟨-, textJava, -, hjava, -⟩ := h _ hne
  rw [ReprocessEvent.base64Encode, List.length_replicate, if_neg (by decide), if_pos (by decide)] at hjava
  cases hjava

/-! ## One byte in both languages -/

theorem decodeBits_java (c : BitVec 8) :
    (ReprocessEvent.base64DecodeBits (UInt8.ofBitVec c).toUInt16).toBitVec = base64DecodeBits c := by
  revert c
  decide

/-- Java leaves a last odd character over, C does not. -/
theorem javaDecode_eq (text : List (BitVec 8)) :
    blob (ReprocessEvent.base64Decode (javaText text)) =
      (sdmbnBase64Decode text).take (text.length / 2) := by
  induction text using sdmbnBase64Decode.induct with
  | case1 lower upper text ih =>
      have hhalf : (lower :: upper :: text).length / 2 = text.length / 2 + 1 := by
        simp only [List.length_cons]
        omega
      rw [hhalf, sdmbnBase64Decode, List.take_succ_cons, ← ih, ← decodeBits_java, ← decodeBits_java]
      rfl
  | case2 lower => simp [blob, javaText, ReprocessEvent.base64Decode]
  | case3 => rfl

/-! ## Calls -/

/-- A call returns a block of half the length, has read nothing but the string and its end, has stored nothing
outside the block, and has filled it with the bytes that Java decodes. -/
def DecodesInBounds (text : CString) : Prop :=
  ∃ fuel d, sdmbnBase64DecodeIn fuel (some text) = some (.result d) ∧
    (∀ offset ∈ d.reads, offset ≤ text.strlen) ∧
    d.result.cells.length = text.strlen / 2 ∧ d.result.InBounds ∧
    d.result.cells = (blob (ReprocessEvent.base64Decode (javaText text.chars))).map some

/-- A call on a string whose length is an `int`. -/
theorem sdmbnBase64DecodeIn_eq {text : CString} {fuel : Nat} (hlt : text.strlen < 2 ^ 31) :
    sdmbnBase64DecodeIn fuel (some text) =
      if rounds text.strlen ≤ fuel then
        some (.result ⟨(text.strlen : Int) - 2 * rounds text.strlen, 2 * rounds text.strlen,
          rounds text.strlen, Block.filled (text.strlen / 2) (sdmbnBase64Decode text.chars),
          List.range (text.strlen + 1) ++ List.range' 0 (2 * rounds text.strlen)⟩)
      else none := by
  have hsize : (BitVec.ofNat 32 text.strlen).toInt = text.strlen := by
    rw [BitVec.toInt_eq_toNat_of_lt] <;> rw [BitVec.toNat_ofNat, Nat.mod_eq_of_lt (by omega)]
    omega
  have halloc : Block.malloc (BitVec 8) ((text.strlen : Int).tdiv 2) =
      some (Block.filled (text.strlen / 2) []) := by
    rw [Int.tdiv_eq_ediv_of_nonneg (Int.natCast_nonneg _), Block.malloc, if_neg (by omega)]
    rfl
  have hloop := @decodeLoop_eq _ _ (text.strlen / 2) _ fuel [] (List.range (text.strlen + 1)) text.textAt
  simp only [CString.chars_length, List.length_nil, Nat.zero_add, List.nil_append] at hloop
  simp only [sdmbnBase64DecodeIn, hsize, halloc, hloop]
  split <;> rfl

theorem toNat_tdiv_two (n : Int) : (n.tdiv 2).toNat = n.toNat / 2 := by
  rcases Int.le_total 0 n with hn | hn
  · rw [Int.tdiv_eq_ediv_of_nonneg hn]
    omega
  · have hhalf : n.tdiv 2 = -(-n / 2) := by
      rw [← Int.tdiv_eq_ediv_of_nonneg (Int.neg_nonneg_of_nonpos hn), Int.neg_tdiv, Int.neg_neg]
    omega

/-- The length of a longer string is taken for a smaller number. -/
theorem size_lt {text : CString} {fuel : Nat} {d : Decoding} (hlong : 2 ^ 31 ≤ text.strlen)
    (h : sdmbnBase64DecodeIn fuel (some text) = some (.result d)) :
    d.result.cells.length < text.strlen / 2 := by
  have hsize := BitVec.toInt_lt (x := BitVec.ofNat 32 text.strlen)
  simp only [sdmbnBase64DecodeIn, Block.malloc] at h
  split at h
  · cases h
  · rename_i result halloc
    split at halloc
    · cases halloc
    · obtain ⟨d', hloop, hd⟩ := Option.map_eq_some_iff.mp h
      cases hd
      cases halloc
      rw [decodeLoop_length hloop]
      simp only [Block.alloc, List.length_replicate, toNat_tdiv_two]
      omega

/-- A string is decoded in bounds exactly if its length is even and an `int`. -/
theorem decodesInBounds_iff (text : CString) :
    DecodesInBounds text ↔ text.strlen % 2 = 0 ∧ text.strlen < 2 ^ 31 := by
  constructor
  · rintro ⟨fuel, d, hcall, -, hlength, hbounds, -⟩
    have hlt : text.strlen < 2 ^ 31 := by
      by_contra hlong
      exact absurd hlength (size_lt (Nat.le_of_not_lt hlong) hcall).ne
    refine ⟨?_, hlt⟩
    rw [sdmbnBase64DecodeIn_eq hlt] at hcall
    split at hcall
    · cases hcall
      rw [Block.filled_inBounds_iff, sdmbnBase64Decode_length, CString.chars_length, rounds] at hbounds
      omega
    · cases hcall
  · rintro ⟨heven, hlt⟩
    have hrounds : rounds text.strlen = text.strlen / 2 := by
      rw [rounds]
      omega
    have hlength : (sdmbnBase64Decode text.chars).length = text.strlen / 2 := by
      rw [sdmbnBase64Decode_length, CString.chars_length, hrounds]
    refine ⟨rounds text.strlen, _, by rw [sdmbnBase64DecodeIn_eq hlt, if_pos (Nat.le_refl _)], ?_, ?_, ?_, ?_⟩
    · intro offset hoffset
      simp only [List.mem_append, List.mem_range, List.mem_range'_1, hrounds] at hoffset
      omega
    · exact Block.filled_cells_length
    · exact Block.filled_inBounds_iff.mpr hlength.le
    · rw [Block.filled_cells, hlength, Nat.sub_self, List.replicate_zero, List.append_nil, javaDecode_eq,
        CString.chars_length]

/-- Behind a single character, a byte is stored that has no room. -/
def letterA : CString where
  memory i := if i = 0 then 65 else 0
  strlen := 1
  ne_nul i hi := by
    obtain rfl := Nat.lt_one_iff.mp hi
    decide
  nul := rfl

theorem letterA_out_of_bounds : ¬ ∀ text : CString, DecodesInBounds text := by
  intro h
  obtain ⟨fuel, d, hcall, -, -, hbounds, -⟩ := h letterA
  rw [sdmbnBase64DecodeIn_eq (by decide)] at hcall
  split at hcall
  · cases hcall
    exact absurd (Block.filled_inBounds_iff.mp hbounds) (by decide)
  · cases hcall

end OFM.Shared
