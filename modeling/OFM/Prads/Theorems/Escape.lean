import Mathlib.Data.List.TakeWhile
import OFM.Prads.Serialize

/-!
# Escaped strings

What `ser_unescape_str` makes of a string that `ser_escape_str` has escaped, and whether that stays in the
memory that it has allocated: a character with the upper bit set is printed with eight digits, and kept with
two of them.
-/

namespace OFM.Prads
open OFM.Lib Ascii

/-- What comes back of a character. -/
def kept (c : BitVec 8) : BitVec 8 := if c < 0x80 then c else 0xff

variable {c : BitVec 8} {s t : Chars}

/-! ## One character -/

theorem hexDigit_spec : ∀ d < 16, hexValue (Numeral.hexDigit d) = BitVec.ofNat 8 d ∧
    Numeral.hexDigit d ≠ quote ∧ Numeral.hexDigit d ≠ backslash := by
  decide +kernel

theorem printedHex_take : ∀ c : BitVec 8, (printedHex c).take 2 =
    if c < 0x80 then [Numeral.hexDigit (c.toNat / 16), Numeral.hexDigit (c.toNat % 16)]
    else [Numeral.hexDigit 15, Numeral.hexDigit 15] := by
  decide +kernel

theorem printedHex_length : ∀ c : BitVec 8, (printedHex c).length = if c < 0x80 then 2 else 8 := by
  decide +kernel

theorem nibbles : ∀ c : BitVec 8,
    (BitVec.ofNat 8 (c.toNat / 16) <<< 4) + BitVec.ofNat 8 (c.toNat % 16) = c := by
  decide +kernel

/-- A character is escaped by a letter or by two digits, or it stands for itself. -/
theorem escapeChar_cases (c : BitVec 8) :
    (c = newline ∧ escapeChar c = [backslash, letterN]) ∨
    ((c = quote ∨ c = backslash) ∧ isPrint c ∧ escapeChar c = [backslash, c]) ∨
    (c ≠ quote ∧ c ≠ backslash ∧ isPrint c ∧ escapeChar c = [c]) ∨
    (c ≠ newline ∧ !isPrint c ∧ ∃ d < 16, ∃ e < 16,
      escapeChar c = [backslash, letterX, Numeral.hexDigit d, Numeral.hexDigit e] ∧
        (BitVec.ofNat 8 d <<< 4) + BitVec.ofNat 8 e = kept c) := by
  rw [escapeChar]
  split_ifs with hline hprint hspecial
  · exact Or.inl ⟨hline, rfl⟩
  · refine Or.inr (Or.inr (Or.inr ⟨hline, hprint, ?_⟩))
    have hlt := c.isLt
    rw [printedHex_take c, kept]
    split_ifs with hc
    · refine ⟨c.toNat / 16, by omega, c.toNat % 16, by omega, rfl, nibbles c⟩
    · exact ⟨15, by omega, 15, by omega, rfl, rfl⟩
  · exact Or.inr (Or.inl ⟨hspecial, by simpa using hprint, rfl⟩)
  · rw [not_or] at hspecial
    exact Or.inr (Or.inr (Or.inl ⟨hspecial.1, hspecial.2, by simpa using hprint, rfl⟩))

theorem isPrint_lt : ∀ c : BitVec 8, isPrint c = true → c < 0x80 ∧ c ≠ newline := by decide

theorem kept_of_lt (hc : c < 0x80) : kept c = c := if_pos hc

theorem kept_eq_self_iff : kept c = c ↔ c < 0x80 ∨ c = 0xff := by
  rw [kept]
  split_ifs with hc
  · exact iff_of_true rfl (Or.inl hc)
  · rw [or_iff_right hc, eq_comm]

theorem kept_ne_zero (hc : c ≠ 0) : kept c ≠ 0 := by
  rw [kept]
  split_ifs
  · exact hc
  · decide

/-! ## Strings -/

theorem unescape_cons (hc : c ≠ backslash) : unescape (c :: t) = c :: unescape t := by
  rw [unescape.eq_def]
  simp only [if_neg hc]

theorem unescape_letterN : unescape (backslash :: letterN :: t) = newline :: unescape t := by
  rw [unescape.eq_def]
  simp

theorem unescape_special (hc : c = quote ∨ c = backslash) : unescape (backslash :: c :: t) = c :: unescape t := by
  rw [unescape.eq_def]
  rcases hc with rfl | rfl <;> simp

theorem unescape_hex (a b : BitVec 8) :
    unescape (backslash :: letterX :: a :: b :: t) = ((hexValue a <<< 4) + hexValue b) :: unescape t := by
  rw [unescape.eq_def]
  simp [serHex2char]

theorem unescape_escapeChar (c : BitVec 8) (t : Chars) : unescape (escapeChar c ++ t) = kept c :: unescape t := by
  rcases escapeChar_cases c with ⟨rfl, h⟩ | ⟨hc, hprint, h⟩ | ⟨-, hc, hprint, h⟩ | ⟨-, -, d, hd, e, he, h, hkept⟩
  · rw [h]
    exact unescape_letterN
  · rw [h, kept_of_lt (isPrint_lt c hprint).1]
    exact unescape_special hc
  · rw [h, kept_of_lt (isPrint_lt c hprint).1]
    exact unescape_cons hc
  · rw [h, ← hkept, ← (hexDigit_spec d hd).1, ← (hexDigit_spec e he).1]
    exact unescape_hex _ _

theorem serEscapeStr_cons (c : BitVec 8) (s : Chars) : serEscapeStr (c :: s) = escapeChar c ++ serEscapeStr s :=
  List.flatMap_cons

theorem unescape_serEscapeStr (s : Chars) : unescape (serEscapeStr s) = s.map kept := by
  induction s with
  | nil => rfl
  | cons c s ih => rw [serEscapeStr_cons, unescape_escapeChar, ih, List.map_cons]

/-- Of an escaped string the characters come back that have no upper bit; `0xff` comes back for the others. -/
theorem serUnescapeStr_serEscapeStr (hs : 0 ∉ s) : serUnescapeStr (serEscapeStr s) = s.map kept := by
  rw [serUnescapeStr, unescape_serEscapeStr, List.takeWhile_eq_self_iff]
  intro c hc
  obtain ⟨d, hd, rfl⟩ := List.mem_map.mp hc
  exact decide_eq_true (kept_ne_zero fun h0 => hs (h0 ▸ hd))

theorem map_kept_eq_self_iff : s.map kept = s ↔ ∀ c ∈ s, c < 0x80 ∨ c = 0xff := by
  conv_lhs => rw [← List.map_id s, List.map_map]
  rw [List.map_inj_left]
  exact forall₂_congr fun _ _ => kept_eq_self_iff

/-- A string is unescaped to itself if and only if each of its characters is ASCII, or `0xff`. -/
theorem escaped_roundTrip_iff (hs : 0 ∉ s) :
    serUnescapeStr (serEscapeStr s) = s ↔ ∀ c ∈ s, c < 0x80 ∨ c = 0xff := by
  rw [serUnescapeStr_serEscapeStr hs, map_kept_eq_self_iff]

theorem escaped_roundTrip_quoted :
    serUnescapeStr (serEscapeStr (chars "a\x22b\n\\\x01")) = chars "a\x22b\n\\\x01" :=
  (escaped_roundTrip_iff (by decide)).mpr (by decide)

/-! ## Memory -/

theorem escapedSize_eq (s : Chars) : escapedSize s = (serEscapeStr s).length + 1 := by
  induction s with
  | nil => rfl
  | cons c s ih =>
      have hlen : (escapeChar c).length = if c = newline then 2 else if !isPrint c then 4
          else if c = quote ∨ c = backslash then 2 else 1 := by
        rcases escapeChar_cases c with
          ⟨hc, h⟩ | ⟨hc, hprint, h⟩ | ⟨hq, hb, hprint, h⟩ | ⟨hc, hprint, d, -, e, -, h, -⟩
        · rw [h, if_pos hc]
          rfl
        · rw [h, if_neg (isPrint_lt c hprint).2, if_neg (by simp [hprint]), if_pos hc]
          rfl
        · rw [h, if_neg (isPrint_lt c hprint).2, if_neg (by simp [hprint]), if_neg (not_or.mpr ⟨hq, hb⟩)]
          rfl
        · rw [h, if_neg hc, if_pos hprint]
          rfl
      rw [escapedSize, ih, serEscapeStr_cons, List.length_append, hlen]
      omega

theorem not_isPrint : ∀ c : BitVec 8, 0x80 ≤ c → c ≠ newline ∧ !isPrint c := by decide

theorem escapeChar_length (hc : c ≠ newline ∧ !isPrint c) : (escapeChar c).length = 4 := by
  rcases escapeChar_cases c with ⟨h, -⟩ | ⟨-, h, -⟩ | ⟨-, -, h, -⟩ | ⟨-, -, d, -, e, -, h, -⟩
  · exact absurd h hc.1
  · simp [h] at hc
  · simp [h] at hc
  · rw [h]
    rfl

/-- Of the characters of a string each needs room for what is printed of it. -/
theorem escapedReach_cons : escapedReach (c :: s) ≤ escapedSize (c :: s) ↔
    (0x80 ≤ c → 6 ≤ (serEscapeStr s).length) ∧ escapedReach s ≤ escapedSize s := by
  have hsize : escapedSize (c :: s) = (escapeChar c).length + escapedSize s := by
    rw [escapedSize_eq, escapedSize_eq, serEscapeStr_cons, List.length_append]
    omega
  rw [hsize, escapedReach, Nat.max_le, Nat.add_le_add_iff_left, escapedSize_eq]
  refine and_congr_left fun _ => ?_
  by_cases hc : 0x80 ≤ c
  · have hprint := not_isPrint c hc
    rw [if_pos hprint, printedHex_length c, if_neg (BitVec.not_lt.mpr hc), escapeChar_length hprint]
    simp only [hc, forall_const]
    omega
  · simp only [hc, false_imp_iff, iff_true]
    split_ifs with hprint
    · rw [printedHex_length c, if_pos (BitVec.not_le.mp hc), escapeChar_length hprint]
      omega
    · omega

/-- What is escaped stays in the memory for it if and only if behind each character with the upper bit set there
are six characters more. -/
theorem escapedReach_le_iff (s : Chars) : escapedReach s ≤ escapedSize s ↔
    ∀ before c after, s = before ++ c :: after → 0x80 ≤ c → 6 ≤ (serEscapeStr after).length := by
  induction s with
  | nil => simp [escapedReach, escapedSize]
  | cons d s ih =>
      rw [escapedReach_cons, ih]
      constructor
      · rintro ⟨hd, hs⟩ before c after heq hc
        cases before with
        | nil =>
            cases heq
            exact hd hc
        | cons e before =>
            cases heq
            exact hs before c after rfl hc
      · intro h
        exact ⟨fun hd => h [] d s rfl hd, fun before c after heq => h (d :: before) c after (by rw [heq]; rfl)⟩

end OFM.Prads
