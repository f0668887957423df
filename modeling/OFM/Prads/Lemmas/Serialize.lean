import OFM.Prads.Theorems.Escape

/-!
# Texts and their tokens

What `ser_preformat` does to what `ser_ialize` writes, and the tokens that `ser_ntok` finds in that.
-/

namespace OFM.Prads
open OFM.Lib Ascii

variable {c b : BitVec 8} {s s' t t' r w bl : Chars} {q q' q'' : Bool} {token : Token}

/-! ## Padding -/

/-- What is padded the same whatever follows, from inside or outside quotes to inside or outside; the first pass
counts what the second one writes. -/
structure Padded (q q' : Bool) (s t : Chars) : Prop where
  copy : ∀ r, copyPass q false (s ++ r) = t ++ copyPass q' false r
  count : ∀ r, countPass q false (s ++ r) = ((countPass q' false r).1 + t.length, (countPass q' false r).2)

theorem Padded.nil : Padded q q [] [] := ⟨fun _ => rfl, fun _ => rfl⟩

theorem Padded.append (h : Padded q q' s t) (h' : Padded q' q'' s' t') : Padded q q'' (s ++ s') (t ++ t') where
  copy r := by rw [List.append_assoc, h.copy, h'.copy, List.append_assoc]
  count r := by
    rw [List.append_assoc, h.count, h'.count, List.length_append]
    congr 1
    omega

theorem Padded.quote : Padded q (!q) [quote] [quote] where
  copy r := by
    rw [List.singleton_append, copyPass.eq_def]
    simp only [if_neg Bool.false_ne_true, if_true]
    rfl
  count r := by
    rw [List.singleton_append, countPass.eq_def]
    simp only [if_neg Bool.false_ne_true, if_true]
    exact Prod.ext (Nat.add_comm _ _) rfl

/-- A character that neither begins anything nor is padded. -/
theorem Padded.char (hquote : c ≠ Ascii.quote) (hslash : q = true ∨ c ≠ slash)
    (hback : q = false ∨ c ≠ backslash) (hpunct : q = true ∨ isPunct c = false) : Padded q q [c] [c] := by
  have hcomment : ∀ r : Chars, ¬ ((!q) = true ∧ c = slash ∧ r.head? = some star) := by
    rintro r ⟨hq, hc, -⟩
    exact hslash.elim (fun h => by simp [h] at hq) (absurd hc)
  have hescape : ∀ r : Chars, ¬ (q = true ∧ c = backslash ∧
      (r.head? = some Ascii.quote ∨ r.head? = some backslash)) := by
    rintro r ⟨hq, hc, -⟩
    exact hback.elim (fun h => by simp [h] at hq) (absurd hc)
  have hpad : ¬ (isPunct c = true ∧ (!q) = true) := by
    rintro ⟨hc, hq⟩
    exact hpunct.elim (fun h => by simp [h] at hq) (fun h => by simp [h] at hc)
  constructor
  · intro r
    rw [List.singleton_append, copyPass.eq_def]
    simp only [if_neg Bool.false_ne_true, if_neg hquote, if_neg (hcomment r), if_neg (hescape r), if_neg hpad]
    rfl
  · intro r
    rw [List.singleton_append, countPass.eq_def]
    simp only [if_neg Bool.false_ne_true, if_neg hquote, if_neg (hcomment r), if_neg (hescape r), if_neg hpad]
    exact Prod.ext (Nat.add_comm _ _) rfl

/-- What is copied outside quotes. -/
def isPlain (c : BitVec 8) : Bool := c ≠ quote && c ≠ slash && !isPunct c

theorem Padded.plain (hs : ∀ c ∈ s, isPlain c = true) : Padded false false s s := by
  induction s with
  | nil => exact .nil
  | cons c s ih =>
      obtain ⟨hc, hs⟩ := List.forall_mem_cons.mp hs
      simp only [isPlain, Bool.and_eq_true, decide_eq_true_eq, Bool.not_eq_true'] at hc
      exact (Padded.char hc.1.1 (Or.inr hc.1.2) (Or.inl rfl) (Or.inr hc.2)).append (ih hs)

theorem Padded.punct (hc : isPunct c = true) : Padded false false [c] [space, c, space] := by
  have hquote : c ≠ Ascii.quote := by rintro rfl; exact absurd hc (by decide)
  have hslash : c ≠ slash := by rintro rfl; exact absurd hc (by decide)
  constructor
  · intro r
    rw [List.singleton_append, copyPass.eq_def]
    simp only [if_neg Bool.false_ne_true, if_neg hquote, hslash, false_and, and_false, if_false, hc,
      Bool.not_false, and_self, if_true]
    rfl
  · intro r
    rw [List.singleton_append, countPass.eq_def]
    simp only [if_neg Bool.false_ne_true, if_neg hquote, hslash, false_and, and_false, if_false, hc,
      Bool.not_false, and_self, if_true]
    exact Prod.ext (Nat.add_comm _ _) rfl

/-- Inside quotes a quote is copied behind a backslash. -/
theorem Padded.escaped (hc : c = Ascii.quote ∨ c = backslash) :
    Padded true true [backslash, c] [backslash, c] := by
  have hquote : backslash ≠ Ascii.quote := by decide
  have hhead : ∀ r : Chars, (c :: r).head? = some Ascii.quote ∨ (c :: r).head? = some backslash := by
    intro r
    exact hc.imp (congrArg some) (congrArg some)
  constructor
  · intro r
    rw [List.cons_append, List.cons_append, List.nil_append, copyPass.eq_def]
    simp only [if_neg Bool.false_ne_true, if_neg hquote, Bool.not_true, true_and, if_pos (hhead r)]
    rfl
  · intro r
    rw [List.cons_append, List.cons_append, List.nil_append, countPass.eq_def]
    simp only [if_neg Bool.false_ne_true, if_neg hquote, Bool.not_true, true_and, if_pos (hhead r)]
    exact Prod.ext (Nat.add_comm _ _) rfl

/-- A backslash in front of a letter. -/
theorem Padded.letter (hquote : c ≠ Ascii.quote) (hback : c ≠ backslash) :
    Padded true true [backslash, c] [backslash, c] := by
  have hbackQuote : backslash ≠ Ascii.quote := by decide
  have hchar : Padded true true [c] [c] := .char hquote (Or.inl rfl) (Or.inr hback) (Or.inl rfl)
  have hescape : ∀ r : Chars, ¬ ((c :: r).head? = some Ascii.quote ∨ (c :: r).head? = some backslash) := by
    rintro r (h | h)
    · exact hquote (Option.some.inj h)
    · exact hback (Option.some.inj h)
  constructor
  · intro r
    rw [List.cons_append, copyPass.eq_def]
    simp only [if_neg hbackQuote, Bool.not_true, Bool.false_eq_true, false_and, and_false, if_false,
      List.cons_append, List.nil_append, hescape r]
    exact congrArg (backslash :: ·) (hchar.copy r)
  · intro r
    rw [List.cons_append, countPass.eq_def]
    simp only [if_neg hbackQuote, Bool.not_true, Bool.false_eq_true, false_and, and_false, if_false,
      List.cons_append, List.nil_append, hescape r]
    rw [show countPass true false (c :: r) = _ from hchar.count r]
    exact Prod.ext (by simp only [Prod.map, List.length_cons]; omega) rfl

theorem Padded.escapeChar (c : BitVec 8) : Padded true true (escapeChar c) (escapeChar c) := by
  rcases escapeChar_cases c with ⟨-, h⟩ | ⟨hc, -, h⟩ | ⟨hquote, hback, -, h⟩ | ⟨-, -, d, hd, e, he, h, -⟩
  · rw [h]
    exact .letter (by decide) (by decide)
  · rw [h]
    exact .escaped hc
  · rw [h]
    exact .char hquote (Or.inl rfl) (Or.inr hback) (Or.inl rfl)
  · obtain ⟨-, hdq, hdb⟩ := hexDigit_spec d hd
    obtain ⟨-, heq, heb⟩ := hexDigit_spec e he
    rw [h]
    exact (Padded.letter (by decide) (by decide)).append
      ((Padded.char hdq (Or.inl rfl) (Or.inr hdb) (Or.inl rfl)).append
        (.char heq (Or.inl rfl) (Or.inr heb) (Or.inl rfl)))

theorem Padded.string (s : Chars) : Padded false false (Ascii.quote :: serEscapeStr s ++ [Ascii.quote])
    (Ascii.quote :: serEscapeStr s ++ [Ascii.quote]) := by
  have hbody : Padded true true (serEscapeStr s) (serEscapeStr s) := by
    induction s with
    | nil => exact .nil
    | cons c s ih =>
        rw [serEscapeStr_cons]
        exact (Padded.escapeChar c).append ih
  have hopen : Padded false true [Ascii.quote] [Ascii.quote] := .quote
  have hclose : Padded true false [Ascii.quote] [Ascii.quote] := .quote
  exact (hopen.append hbody).append hclose

/-! ## Tokens -/

/-- A text of one token, whatever follows it; the token is not the end. -/
structure Lexes (s : Chars) (token : Token) : Prop where
  read : ∀ r, serNtok (some (s ++ r)) = some (token, some r)
  notEnd : token.r ≠ .tokEnd

theorem skipBlanks_blank (hb : isBlank b = true) (s : Chars) : skipBlanks false (b :: s) = skipBlanks false s := by
  rw [skipBlanks.eq_def]
  simp only [if_neg Bool.false_ne_true, if_pos hb]

theorem skipBlanks_of_not_blank (hb : isBlank c = false) (hslash : c ≠ slash) (s : Chars) :
    skipBlanks false (c :: s) = some (c :: s) := by
  rw [skipBlanks.eq_def]
  simp only [Bool.false_eq_true, if_false, hb, hslash, false_and]

/-- Blanks in front of a token are passed over. -/
theorem Lexes.blank (hb : isBlank b = true) (h : Lexes s token) : Lexes (b :: s) token where
  read r := by
    have hread := h.read r
    rw [serNtok] at hread
    rw [List.cons_append, serNtok, skipBlanks_blank hb]
    obtain ⟨u, hu, hread⟩ := Option.bind_eq_some_iff.mp hread
    cases u with
    | nil =>
        have htoken : (⟨.tokEnd, [], 0⟩ : Token) = token := congrArg Prod.fst (Option.some.inj hread)
        exact absurd (htoken ▸ rfl) h.notEnd
    | cons c u =>
        rw [hu]
        exact hread
  notEnd := h.notEnd

theorem Lexes.blanks (hbl : ∀ b ∈ bl, isBlank b = true) (h : Lexes s token) : Lexes (bl ++ s) token := by
  induction bl with
  | nil => exact h
  | cons b bl ih =>
      obtain ⟨hb, hbl⟩ := List.forall_mem_cons.mp hbl
      exact (ih hbl).blank hb

/-- What is read as a word: it begins with nothing that begins another token. -/
def IsWord (w : Chars) : Prop :=
  ∃ c ∈ w.head?, (c ≠ comma ∧ c ≠ quote ∧ c ≠ apostrophe ∧ c ≠ slash) ∧ ∀ c ∈ w, isWord c = true

instance (w : Chars) : Decidable (IsWord w) := inferInstanceAs (Decidable (∃ c ∈ w.head?, _))

theorem Lexes.word (hw : IsWord w) (hb : isBlank b = true) (htoken : wordToken w = some token)
    (hend : token.r ≠ .tokEnd) : Lexes (w ++ [b]) token where
  read r := by
    obtain ⟨c, hc, ⟨hcomma, hquote, hapostrophe, hslash⟩, hall⟩ := hw
    obtain ⟨w, rfl⟩ := List.head?_eq_some_iff.mp hc
    have hblank : isBlank c = false ∧ c ≠ semicolon := by
      have := hall c List.mem_cons_self
      simpa [isWord] using this
    have hnot : ¬ isWord b = true := by simp [isWord, hb]
    have hsplit : (c :: w ++ [b]) ++ r = c :: (w ++ b :: r) := by simp
    have htake : (c :: (w ++ b :: r)).takeWhile isWord = c :: w := by
      rw [← List.cons_append, List.takeWhile_append_of_pos hall, List.takeWhile_cons_of_neg hnot, List.append_nil]
    have hdrop : (c :: (w ++ b :: r)).dropWhile isWord = b :: r := by
      rw [← List.cons_append, List.dropWhile_append_of_pos hall, List.dropWhile_cons_of_neg hnot]
    rw [hsplit, serNtok, skipBlanks_of_not_blank hblank.1 hslash]
    simp only [Option.bind_some, if_neg hblank.2, if_neg hcomma, if_neg hquote, if_neg hapostrophe, htake, hdrop,
      htoken, Option.map_some, List.tail?_cons]
  notEnd := hend

theorem Lexes.term : Lexes [semicolon] ⟨.tokTerm, [semicolon], 0⟩ where
  read r := by
    rw [List.singleton_append, serNtok, skipBlanks_of_not_blank (by decide) (by decide)]
    simp only [Option.bind_some, if_true]
  notEnd := by decide

theorem Lexes.sep : Lexes [comma] ⟨.tokSep, [comma], 0⟩ where
  read r := by
    have hterm : comma ≠ semicolon := by decide
    rw [List.singleton_append, serNtok, skipBlanks_of_not_blank (by decide) (by decide)]
    simp only [Option.bind_some, if_neg hterm, if_true]
  notEnd := by decide

theorem scanString_char (hquote : c ≠ quote) (hback : c ≠ backslash) (s : Chars) :
    scanString (c :: s) = (scanString s).map fun (t, rest) => (c :: t, rest) := by
  rw [scanString.eq_def]
  simp only [if_neg hquote, hback, false_and, if_false]

theorem scanString_escaped (hc : c = quote ∨ c = backslash) (s : Chars) :
    scanString (backslash :: c :: s) = (scanString s).map fun (t, rest) => (backslash :: c :: t, rest) := by
  have hquote : backslash ≠ quote := by decide
  have hhead : (c :: s).head? = some backslash ∨ (c :: s).head? = some quote :=
    hc.symm.imp (congrArg some) (congrArg some)
  rw [scanString.eq_def]
  simp only [if_neg hquote, true_and, if_pos hhead]

theorem scanString_letter (hquote : c ≠ quote) (hback : c ≠ backslash) (s : Chars) :
    scanString (backslash :: c :: s) = (scanString (c :: s)).map fun (t, rest) => (backslash :: t, rest) := by
  have hbackQuote : backslash ≠ quote := by decide
  have hhead : ¬ ((c :: s).head? = some backslash ∨ (c :: s).head? = some quote) := by
    rintro (h | h)
    · exact hback (Option.some.inj h)
    · exact hquote (Option.some.inj h)
  rw [scanString.eq_def]
  simp only [if_neg hbackQuote, true_and, if_neg hhead]

theorem scanString_escapeChar (c : BitVec 8) (s : Chars) :
    scanString (escapeChar c ++ s) = (scanString s).map fun (t, rest) => (escapeChar c ++ t, rest) := by
  rcases escapeChar_cases c with ⟨-, h⟩ | ⟨hc, -, h⟩ | ⟨hquote, hback, -, h⟩ | ⟨-, -, d, hd, e, he, h, -⟩
  · rw [h, List.cons_append, List.singleton_append, scanString_letter (by decide) (by decide),
      scanString_char (by decide) (by decide), Option.map_map]
    rfl
  · rw [h]
    exact scanString_escaped hc s
  · rw [h]
    exact scanString_char hquote hback s
  · obtain ⟨-, hdq, hdb⟩ := hexDigit_spec d hd
    obtain ⟨-, heq, heb⟩ := hexDigit_spec e he
    rw [h, List.cons_append, List.cons_append, List.cons_append, List.singleton_append,
      scanString_letter (by decide) (by decide), scanString_char (by decide) (by decide),
      scanString_char hdq hdb, scanString_char heq heb, Option.map_map, Option.map_map, Option.map_map]
    rfl

/-- A string ends at its quote. -/
theorem scanString_serEscapeStr (s r : Chars) :
    scanString (serEscapeStr s ++ quote :: r) = some (serEscapeStr s, r) := by
  induction s with
  | nil =>
      rw [serEscapeStr, List.flatMap_nil, List.nil_append, scanString.eq_def]
      simp only [if_true]
  | cons c s ih =>
      rw [serEscapeStr_cons, List.append_assoc, scanString_escapeChar, ih]
      rfl

theorem Lexes.string (s : Chars) :
    Lexes (quote :: serEscapeStr s ++ [quote]) ⟨.tokString, serEscapeStr s, 0⟩ where
  read r := by
    have hsplit : (quote :: serEscapeStr s ++ [quote]) ++ r = quote :: (serEscapeStr s ++ quote :: r) := by simp
    rw [hsplit, serNtok, skipBlanks_of_not_blank (by decide) (by decide)]
    have hterm : quote ≠ semicolon := by decide
    have hcomma : quote ≠ comma := by decide
    simp only [Option.bind_some, if_neg hterm, if_neg hcomma, if_true, scanString_serEscapeStr, Option.map_some]
  notEnd := SerTok.noConfusion

/-! ## Words -/

/-- A name: it begins with a small letter or an underscore, and is no word with a meaning of its own. -/
def isName (w : Chars) : Bool :=
  match w with
  | [] => false
  | c :: _ => (c = 0x5f || (0x61 ≤ c && c ≤ 0x7a)) && (w.all fun c => isWord c && isPlain c) &&
      !(sameCase w (chars "true") || sameCase w (chars "false") || sameCase w (chars "NULL"))

theorem isName_head : ∀ c : BitVec 8, (c = 0x5f || (0x61 ≤ c && c ≤ 0x7a)) = true →
    (c ≠ comma ∧ c ≠ quote ∧ c ≠ apostrophe ∧ c ≠ slash) ∧ isSpace c = false ∧ isDigit c = false ∧ c ≠ minus ∧
      c ≠ plus ∧ c ≠ hash ∧ c ≠ braceOpen ∧ c ≠ braceClose := by
  decide

theorem wordToken_name (hw : isName w = true) :
    IsWord w ∧ (∀ c ∈ w, isPlain c = true) ∧ wordToken w = some ⟨.tokAny, w, 0⟩ := by
  cases w with
  | nil => cases hw
  | cons c w =>
      simp only [isName, Bool.and_eq_true, Bool.not_eq_true', Bool.or_eq_false_iff, List.all_eq_true] at hw
      obtain ⟨⟨hhead, hall⟩, ⟨htrue, hfalse⟩, hnull⟩ := hw
      obtain ⟨hword, hspace, hdigit, hminus, hplus, hhash, hopen, hclose⟩ := isName_head c (by simpa using hhead)
      refine ⟨⟨c, rfl, hword, fun d hd => (hall d hd).1⟩, fun d hd => (hall d hd).2, ?_⟩
      have hscan : Numeral.strtol (c :: w) = (0, c :: w) := by
        have hsign : Numeral.sign ((c :: w).dropWhile isSpace) = (false, c :: w) := by
          rw [List.dropWhile_cons_of_neg (by simp [hspace]), Numeral.sign, if_neg hminus, if_neg hplus]
        have htake : (c :: w).takeWhile isDigit = [] := List.takeWhile_cons_of_neg (by simp [hdigit])
        simp only [Numeral.strtol, Numeral.scan, hsign, htake, if_true]
      have hhead? : ∀ d, c ≠ d → ¬ (c :: w).head? = some d := fun d hd h => hd (Option.some.inj h)
      simp only [wordToken, if_neg (hhead? _ hhash), if_neg (hhead? _ hopen), if_neg (hhead? _ hclose), htrue,
        hfalse,
        hnull, Bool.false_eq_true, if_false, hscan, List.cons_ne_nil]

theorem isName_tag : ∀ s : Struct, ∀ f ∈ translator s, isName (chars f.tag) = true := by
  intro s
  cases s <;> decide +kernel

theorem isName_id : ∀ s : Struct, isName (chars s.id) = true := by
  intro s
  cases s <;> decide +kernel

theorem isDigit_head : ∀ c : BitVec 8, isDigit c = true ∨ c = minus →
    (c ≠ comma ∧ c ≠ quote ∧ c ≠ apostrophe ∧ c ≠ slash) ∧ isWord c = true ∧ isPlain c = true ∧ c ≠ hash ∧
      c ≠ braceOpen ∧ c ≠ braceClose ∧ toLower c ≠ 0x74 ∧ toLower c ≠ 0x66 ∧ toLower c ≠ 0x6e := by
  decide

theorem wordToken_decimal {z : Int} (hlow : -Numeral.longMax - 1 ≤ z) (hhigh : z ≤ Numeral.longMax) :
    IsWord (Numeral.decimal z) ∧ (∀ c ∈ Numeral.decimal z, isPlain c = true) ∧
      wordToken (Numeral.decimal z) = some ⟨.tokInt, Numeral.decimal z, z⟩ := by
  have hall : ∀ c ∈ Numeral.decimal z, _ := fun c hc => isDigit_head c (Numeral.mem_decimal hc)
  have hread := Numeral.strtol_decimal (r := []) hlow hhigh (by simp)
  rw [List.append_nil] at hread
  obtain ⟨c, w, hcw⟩ := List.exists_cons_of_ne_nil (Numeral.decimal_ne_nil (z := z))
  rw [hcw] at hall hread ⊢
  obtain ⟨hword, -, -, hhash, hopen, hclose, ht, hf, hn⟩ := hall c List.mem_cons_self
  refine ⟨⟨c, rfl, hword, fun d hd => (hall d hd).2.1⟩, fun d hd => (hall d hd).2.2.1, ?_⟩
  have hhead? : ∀ d, c ≠ d → ¬ (c :: w).head? = some d := fun d hd h => hd (Option.some.inj h)
  have hsame : ∀ d t, toLower c ≠ toLower d → sameCase (c :: w) (d :: t) = false := by
    intro d t hd
    simp [sameCase, hd]
  have htrue : sameCase (c :: w) (chars "true") = false := hsame 0x74 _ ht
  have hfalse : sameCase (c :: w) (chars "false") = false := hsame 0x66 _ hf
  have hnull : sameCase (c :: w) (chars "NULL") = false := hsame 0x4e _ hn
  simp only [wordToken, if_neg (hhead? _ hhash), if_neg (hhead? _ hopen), if_neg (hhead? _ hclose), htrue,
        hfalse,
    hnull, Bool.false_eq_true, if_false, hread, if_true]

theorem wordToken_reference {n : Nat} (hn : (n : Int) ≤ Numeral.longMax) :
    IsWord (hash :: Numeral.digits n) ∧ (∀ c ∈ hash :: Numeral.digits n, isPlain c = true) ∧
      wordToken (hash :: Numeral.digits n) = some ⟨.tokId, hash :: Numeral.digits n, n⟩ := by
  have hall : ∀ c ∈ Numeral.digits n, _ := fun c hc => isDigit_head c (Or.inl (Numeral.isDigit_of_mem hc))
  have hread : Numeral.strtol (Numeral.digits n) = (↑n, []) := by
    rw [Numeral.digits_eq_decimal, ← List.append_nil (Numeral.decimal n)]
    exact Numeral.strtol_decimal (by simp only [Numeral.longMax]; omega) hn (by simp)
  refine ⟨⟨hash, rfl, by decide, ?_⟩, ?_, ?_⟩
  · exact List.forall_mem_cons.mpr ⟨by decide, fun c hc => (hall c hc).2.1⟩
  · exact List.forall_mem_cons.mpr ⟨by decide, fun c hc => (hall c hc).2.2.1⟩
  · simp only [wordToken, List.head?_cons, if_true, List.tail_cons, hread, if_neg Numeral.digits_ne_nil.symm]

theorem wordToken_null : wordToken (chars "NULL") = some ⟨.tokId, chars "NULL", 0⟩ := by decide

/-! ## Numbers -/

theorem Primitive.printed_bounds (type : Primitive) {v : Nat} (hv : v < 2 ^ type.width) :
    -Numeral.longMax - 1 ≤ type.printed v ∧ type.printed v ≤ Numeral.longMax := by
  have hint : ∀ w (x : BitVec w), w ≤ 64 → -Numeral.longMax - 1 ≤ x.toInt ∧ x.toInt ≤ Numeral.longMax := by
    intro w x hw
    have hlow := x.le_toInt
    have hhigh := x.toInt_lt
    have hpow : (2 : Int) ^ (w - 1) ≤ 2 ^ 63 := by
      exact_mod_cast Nat.pow_le_pow_right (by omega) (show w - 1 ≤ 63 by omega)
    simp only [Numeral.longMax]
    omega
  cases type <;> first
    | exact hint _ _ (by decide)
    | (simp only [Primitive.printed, Primitive.width, Numeral.longMax] at hv ⊢; omega)

theorem Primitive.ofInt_printed (type : Primitive) (v : Nat) :
    BitVec.ofInt type.width (type.printed v) = BitVec.ofNat type.width v := by
  cases type <;> first
    | exact BitVec.ofInt_toInt
    | exact BitVec.ofInt_natCast _ _

theorem ofNat_emod {w : Nat} (hw : w ≤ 64) (z : Int) :
    BitVec.ofNat w (z % (Numeral.ulongMax + 1 : Nat)).toNat = BitVec.ofInt w z := by
  apply BitVec.eq_of_toNat_eq
  have hdvd : ((2 ^ w : Nat) : Int) ∣ (Numeral.ulongMax + 1 : Nat) :=
    Int.natCast_dvd_natCast.mpr (pow_dvd_pow 2 hw)
  have hnonneg : 0 ≤ z % (Numeral.ulongMax + 1 : Nat) := Int.emod_nonneg _ (by simp [Numeral.ulongMax])
  rw [BitVec.toNat_ofNat, BitVec.toNat_ofInt, ← Int.emod_emod_of_dvd z hdvd,
    Int.toNat_emod hnonneg (Int.natCast_nonneg _), Int.toNat_natCast]

/-- A number is read as it has been printed; where the type has no sign, modulo 2^64. -/
theorem readNumber_printed (type : Primitive) {v : Nat} (hv : v < 2 ^ type.width) :
    readNumber type (Numeral.decimal (type.printed v)) = some v := by
  obtain ⟨hlow, hhigh⟩ := type.printed_bounds hv
  have hval : (BitVec.ofInt type.width (type.printed v)).toNat = v := by
    rw [type.ofInt_printed, BitVec.toNat_ofNat, Nat.mod_eq_of_lt hv]
  rw [readNumber, ← List.append_nil (Numeral.decimal _)]
  simp only [Numeral.strtol_decimal hlow hhigh (r := []) (by simp),
    Numeral.strtoul_decimal hlow hhigh (r := []) (by simp), if_true]
  split_ifs
  · rw [hval]
  · rw [ofNat_emod (by cases type <;> decide), hval]

/-! ## Addresses -/

theorem setByte_mod {i v u : Nat} (h : u % 256 ^ i = v % 256 ^ i) :
    setByte i (v / 256 ^ i % 256) u % 256 ^ (i + 1) = v % 256 ^ (i + 1) := by
  rw [setByte, Nat.add_mul_mod_self_right, h, Nat.mul_comm, ← Nat.mod_pow_succ, Nat.mod_mod]

/-- Four bytes that are written are the address, whatever has been there. -/
theorem setByte_four {v : Nat} (hv : v < 256 ^ 4) (u : Nat) :
    setByte 3 (v / 256 ^ 3 % 256) (setByte 2 (v / 256 ^ 2 % 256) (setByte 1 (v / 256 ^ 1 % 256)
      (setByte 0 (v / 256 ^ 0 % 256) u))) = v := by
  have h := setByte_mod (setByte_mod (setByte_mod (u := u) (v := v) (i := 0) (by simp [Nat.mod_one])))
  have htop : ∀ u, u % 256 ^ 4 / 256 ^ (3 + 1) = 0 := fun u => Nat.div_eq_of_lt (Nat.mod_lt _ (by decide))
  rw [setByte, h, htop, Nat.zero_mul, Nat.add_zero, Nat.mul_comm, ← Nat.mod_pow_succ, Nat.mod_eq_of_lt hv]

/-- A number in front of a blank. -/
theorem Lexes.byte {n : Nat} (hn : n < 256) :
    Lexes (Numeral.digits n ++ [space]) ⟨.tokInt, Numeral.digits n, n⟩ ∧
      readNumber .uint8T (Numeral.digits n) = some n ∧
      Padded false false (Numeral.digits n) (Numeral.digits n) := by
  have hbounds := Primitive.uint8T.printed_bounds (v := n) hn
  obtain ⟨hword, hplain, htoken⟩ := wordToken_decimal hbounds.1 hbounds.2
  have hread := readNumber_printed .uint8T hn
  rw [show Primitive.uint8T.printed n = n from rfl, ← Numeral.digits_eq_decimal] at *
  exact ⟨.word hword (by decide) htoken SerTok.noConfusion, hread, .plain hplain⟩

end OFM.Prads
