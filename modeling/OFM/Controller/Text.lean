import OFM.Controller.Message

/-!
# Texts and their bytes

What a text of Unicode characters takes as UTF-16 code units and as UTF-8 bytes, and the charset of the
platform.
-/

namespace OFM.Controller

/-- The platform's charset: `new String` of bytes, and `getBytes`. -/
class Charset where
  newString : Packet → JavaString
  getBytes : JavaString → Packet

/-- ISO 8859-1, which has a character for each byte. -/
abbrev latin1 : Charset := ⟨fun packet => packet.map UInt8.toUInt16, fun text => text.map UInt16.toUInt8⟩

/-- US-ASCII, of texts without surrogates: a byte that it has no character for is read as U+FFFD, and a
character that it has no byte for is written as a question mark. -/
abbrev usAscii : Charset where
  newString packet := packet.map fun byte => if byte < 0x80 then byte.toUInt16 else 0xfffd
  getBytes text := text.map fun unit => if unit < 0x80 then unit.toUInt8 else 63

/-! ## Unicode characters -/

/-- The code units of a character: one, or a pair of surrogates. -/
def utf16Char (c : Char) : JavaString :=
  if c.toNat < 0x10000 then [UInt16.ofNat c.toNat]
  else [UInt16.ofNat (0xd800 + (c.toNat - 0x10000) / 0x400), UInt16.ofNat (0xdc00 + c.toNat % 0x400)]

def utf16 (chars : List Char) : JavaString := chars.flatMap utf16Char

def utf8 (chars : List Char) : Packet := chars.flatMap String.utf8EncodeChar

/-- A text of whole characters, without a surrogate that is not part of a pair. -/
def IsUnicode (text : JavaString) : Prop := ∃ chars, text = utf16 chars

/-- A text of code units that ASCII has. -/
def IsAscii (text : JavaString) : Prop := ∀ unit ∈ text, unit < 0x80

instance (text : JavaString) : Decidable (IsAscii text) := inferInstanceAs (Decidable (∀ _ ∈ _, _))

theorem IsUnicode.append {text text' : JavaString} (h : IsUnicode text) (h' : IsUnicode text') :
    IsUnicode (text ++ text') := by
  obtain ⟨chars, rfl⟩ := h
  obtain ⟨chars', rfl⟩ := h'
  exact ⟨chars ++ chars', List.flatMap_append.symm⟩

theorem isAscii_append {text text' : JavaString} :
    IsAscii (text ++ text') ↔ IsAscii text ∧ IsAscii text' := List.forall_mem_append

theorem utf16Char_ofNat {unit : UInt16} (h : unit < 0x80) :
    utf16Char (Char.ofNat unit.toNat) = [unit] := by
  have hlt : unit.toNat < 0x80 := h
  have hvalid : unit.toNat.isValidChar := Or.inl (by omega)
  have hnat : (Char.ofNat unit.toNat).toNat = unit.toNat := by
    rw [Char.ofNat, dif_pos hvalid]
    rfl
  rw [utf16Char, hnat, if_pos (by omega), UInt16.ofNat_toNat]

/-- Text that ASCII has is made of characters. -/
theorem IsAscii.isUnicode {text : JavaString} (h : IsAscii text) : IsUnicode text := by
  induction text with
  | nil => exact ⟨[], rfl⟩
  | cons unit text ih =>
      obtain ⟨hunit, htext⟩ := List.forall_mem_cons.mp h
      have hc : IsUnicode [unit] :=
        ⟨[Char.ofNat unit.toNat], by rw [utf16, List.flatMap_singleton, utf16Char_ofNat hunit]⟩
      exact hc.append (ih htext)

/-! ## Sizes -/

/-- A character has as many bytes as code units if ASCII has it, and more otherwise. -/
theorem utf8EncodeChar_length (c : Char) :
    (c.toNat < 0x80 ∧ (String.utf8EncodeChar c).length = (utf16Char c).length ∧ IsAscii (utf16Char c)) ∨
      ((utf16Char c).length < (String.utf8EncodeChar c).length ∧ ¬ IsAscii (utf16Char c)) := by
  have hsize : (String.utf8EncodeChar c).length = if c.toNat ≤ 0x7f then 1 else
      if c.toNat ≤ 0x7ff then 2 else if c.toNat ≤ 0xffff then 3 else 4 := by
    simp only [String.utf8EncodeChar, Char.toNat]
    split_ifs <;> rfl
  have hmax : c.toNat < 0x110000 := by
    have hvalid : c.toNat.isValidChar := c.valid
    rcases hvalid with h | h <;> omega
  by_cases hbmp : c.toNat < 0x10000
  · have hunit : (UInt16.ofNat c.toNat).toNat = c.toNat := by
      rw [UInt16.toNat_ofNat', Nat.mod_eq_of_lt hbmp]
    have hascii : IsAscii (utf16Char c) ↔ c.toNat < 0x80 := by
      rw [utf16Char, if_pos hbmp, IsAscii, List.forall_mem_singleton, UInt16.lt_iff_toNat_lt, hunit]
      rfl
    rw [hascii, hsize, utf16Char, if_pos hbmp, List.length_singleton]
    split_ifs <;> omega
  · have hunit : (UInt16.ofNat (0xd800 + (c.toNat - 0x10000) / 0x400)).toNat =
        0xd800 + (c.toNat - 0x10000) / 0x400 := by
      rw [UInt16.toNat_ofNat', Nat.mod_eq_of_lt (by omega)]
    refine Or.inr ⟨?_, fun h => ?_⟩
    · rw [hsize, utf16Char, if_neg hbmp]
      simp only [List.length_cons, List.length_nil]
      split_ifs <;> omega
    · rw [utf16Char, if_neg hbmp] at h
      have hlt := h _ (List.mem_cons_self ..)
      rw [UInt16.lt_iff_toNat_lt, hunit] at hlt
      exact absurd (show 0xd800 + (c.toNat - 0x10000) / 0x400 < 0x80 from hlt) (by omega)

theorem utf16_length_le (chars : List Char) : (utf16 chars).length ≤ (utf8 chars).length := by
  induction chars with
  | nil => exact Nat.le_refl 0
  | cons c chars ih =>
      rw [utf16, utf8, List.flatMap_cons, List.flatMap_cons, List.length_append, List.length_append]
      have hc := utf8EncodeChar_length c
      rw [utf16, utf8] at ih
      omega

/-- As many bytes as code units: the text is ASCII. -/
theorem utf8_length_eq_iff (chars : List Char) :
    (utf8 chars).length = (utf16 chars).length ↔ IsAscii (utf16 chars) := by
  induction chars with
  | nil => exact ⟨fun _ unit h => absurd h List.not_mem_nil, fun _ => rfl⟩
  | cons c chars ih =>
      have hle := utf16_length_le chars
      rw [utf16, utf8] at ih hle
      rw [utf16, utf8, List.flatMap_cons, List.flatMap_cons, List.length_append, List.length_append,
        isAscii_append, ← ih]
      rcases utf8EncodeChar_length c with ⟨-, heq, hascii⟩ | ⟨hlt, hascii⟩
      · exact ⟨fun h => ⟨hascii, by omega⟩, fun h => by omega⟩
      · exact ⟨fun h => by omega, fun h => absurd h.1 hascii⟩

/-- The bytes of a text that ASCII has are its code units. -/
theorem utf8_of_isAscii {chars : List Char} (h : IsAscii (utf16 chars)) :
    utf8 chars = (utf16 chars).map UInt16.toUInt8 := by
  induction chars with
  | nil => rfl
  | cons c chars ih =>
      rw [utf16, List.flatMap_cons] at h
      obtain ⟨hc, hchars⟩ := isAscii_append.mp h
      have hlt : c.toNat < 0x80 := by
        rcases utf8EncodeChar_length c with ⟨hlt, -⟩ | ⟨-, hn⟩
        · exact hlt
        · exact absurd hc hn
      have hencode : String.utf8EncodeChar c = [UInt8.ofNat c.toNat] := by
        rw [String.utf8EncodeChar]
        exact if_pos (Nat.le_of_lt_succ hlt)
      have hunit : utf16Char c = [UInt16.ofNat c.toNat] := if_pos (by omega)
      rw [utf8, utf16, List.flatMap_cons, List.flatMap_cons, List.map_append, hencode, hunit]
      exact congrArg₂ _ (congrArg (· :: []) (UInt16.toUInt8_ofNat' _).symm) (ih hchars)

/-! ## UTF-8 -/

/-- The characters of a text; a surrogate that is not part of a pair is a question mark. -/
def chars : JavaString → List Char
  | [] => []
  | [unit] => [charOfUnit unit]
  | hi :: lo :: rest =>
      if 0xd800 ≤ hi ∧ hi < 0xdc00 ∧ 0xdc00 ≤ lo ∧ lo < 0xe000 then
        Char.ofNat (0x10000 + (hi.toNat - 0xd800) * 0x400 + (lo.toNat - 0xdc00)) :: chars rest
      else charOfUnit hi :: chars (lo :: rest)
where charOfUnit (unit : UInt16) : Char :=
  if 0xd800 ≤ unit ∧ unit < 0xe000 then Char.ofNat 63 else Char.ofNat unit.toNat

/-- Texts are written in UTF-8. Bytes are read one by one. -/
abbrev utf8Written : Charset := ⟨fun packet => packet.map UInt8.toUInt16, fun text => utf8 (chars text)⟩

theorem utf16Char_charOfUnit {unit : UInt16} (h : unit < 0x80) :
    utf16Char (chars.charOfUnit unit) = [unit] := by
  have hlt : unit.toNat < 0x80 := h
  have hno : ¬ (0xd800 ≤ unit ∧ unit < 0xe000) := by
    rintro ⟨hle, -⟩
    have hle' : 0xd800 ≤ unit.toNat := hle
    omega
  rw [chars.charOfUnit, if_neg hno, utf16Char_ofNat h]

theorem utf16_chars_of_isAscii {text : JavaString} (h : IsAscii text) : utf16 (chars text) = text := by
  induction text using chars.induct with
  | case1 => rfl
  | case2 unit =>
      have hunit := List.forall_mem_singleton.mp h
      rw [chars, utf16, List.flatMap_singleton, utf16Char_charOfUnit hunit]
  | case3 hi lo rest hpair =>
      have hlt : hi.toNat < 0x80 := h hi (List.mem_cons_self ..)
      have hle : 0xd800 ≤ hi.toNat := hpair.1
      omega
  | case4 hi lo rest hpair ih =>
      obtain ⟨hhi, hrest⟩ := List.forall_mem_cons.mp h
      rw [chars, if_neg hpair, utf16, List.flatMap_cons, utf16Char_charOfUnit hhi]
      exact congrArg (hi :: ·) (ih hrest)

theorem utf8Written_getBytes {text : JavaString} (h : IsAscii text) :
    utf8Written.getBytes text = text.map UInt16.toUInt8 := by
  have hchars := utf16_chars_of_isAscii h
  show utf8 (chars text) = _
  rw [utf8_of_isAscii (hchars.symm ▸ h), hchars]

end OFM.Controller
