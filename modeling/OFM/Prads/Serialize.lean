import OFM.Lib.Numerals
import OFM.Prads.Translators

/-!
# The text of a chunk

`serialize.c`: the text that `ser_ialize` writes, and how `ser_parse` reads a text. Texts are without the
`'\0'` at their end; `none` is `NULL`, or what is not defined.

The texts that are read here consist of structures: at the top level there is neither a primitive nor an `in6`,
nor an index that is negative or as large as an `int` can be, and no brace stands where a reference is expected.
`ser_parse` takes more: it allocates a single number, and stores an anonymous structure over the pointer and over
what follows it. No chunk has anything of the kind, and what happens to it is `none` here.
-/

namespace OFM.Prads
open OFM.Lib Ascii

/-! ## Strings -/

/-- What `sprintf(b, "%02X", *a % 256)` prints: a `char` is signed, and a negative one is printed as an `int`. -/
def printedHex (c : BitVec 8) : Chars := Numeral.hex (c.signExtend 32)

/-- What is kept of a character; `b` goes on by two whatever has been printed. -/
def escapeChar (c : BitVec 8) : Chars :=
  if c = newline then [backslash, letterN]
  else if !isPrint c then backslash :: letterX :: (printedHex c).take 2
  else if c = quote ∨ c = backslash then [backslash, c]
  else [c]

/-- `ser_escape_str` -/
def serEscapeStr (s : Chars) : Chars := s.flatMap escapeChar

/-- The size that is allocated for it. -/
def escapedSize : Chars → Nat
  | [] => 1
  | c :: s =>
      (if c = newline then 2 else if !isPrint c then 4 else if c = quote ∨ c = backslash then 2 else 1) +
        escapedSize s

/-- How many characters from its start are written to, those included that are written over again. -/
def escapedReach : Chars → Nat
  | [] => 1
  | c :: s =>
      max (if c ≠ newline ∧ !isPrint c then 2 + (printedHex c).length + 1 else (escapeChar c).length)
        ((escapeChar c).length + escapedReach s)

def hexValue (c : BitVec 8) : BitVec 8 :=
  if 0x30 ≤ c && c ≤ 0x39 then c - 0x30
  else if 0x61 ≤ c && c ≤ 0x66 then c - 0x57
  else if 0x41 ≤ c && c ≤ 0x46 then c - 0x37
  else 0

/-- `ser_hex2char` -/
def serHex2char : Chars → BitVec 8
  | [] => 0
  | [a] => hexValue a <<< 4
  | a :: b :: _ => (hexValue a <<< 4) + hexValue b

/-- The loop of `ser_unescape_str`. Behind a backslash at the end, which no token has, it goes on reading. -/
def unescape : Chars → Chars
  | [] => []
  | c :: s =>
      if c = backslash then
        match s with
        | [] => [backslash]
        | d :: t =>
            if d = letterN then newline :: unescape t
            else if d = letterX then
              match t with
              | a :: b :: u => serHex2char [a, b] :: unescape u
              | _ => [serHex2char t]
            else if d ≠ quote ∧ d ≠ backslash then backslash :: d :: unescape t
            else d :: unescape t
      else c :: unescape s
termination_by structural s => s

/-- `ser_unescape_str`, up to the first `'\0'` in it. -/
def serUnescapeStr (s : Chars) : Chars := (unescape s).takeWhile (· ≠ 0)

/-! ## Padding -/

/-- Terminators, separators and braces. -/
def isPunct (c : BitVec 8) : Bool := c = semicolon || c = comma || c = braceOpen || c = braceClose

/-- The first pass of `ser_preformat`: how many characters it counts, and whether it ends in a comment. -/
def countPass (quoted comment : Bool) : Chars → Nat × Bool
  | [] => (0, comment)
  | c :: s =>
      if comment then
        if c = star ∧ s.head? = some slash then
          match s with
          | _ :: s => (countPass quoted false s).map (3 + ·) id
          | [] => (1, true)
        else (countPass quoted true s).map (1 + ·) id
      else if c = quote then (countPass (!quoted) false s).map (1 + ·) id
      else if !quoted ∧ c = slash ∧ s.head? = some star then
        match s with
        | _ :: s => (countPass quoted true s).map (3 + ·) id
        | [] => (1, false)
      else if quoted ∧ c = backslash ∧ (s.head? = some quote ∨ s.head? = some backslash) then
        match s with
        | _ :: s => (countPass quoted false s).map (2 + ·) id
        | [] => (1, false)
      else if isPunct c ∧ !quoted then (countPass quoted false s).map (3 + ·) id
      else (countPass quoted false s).map (1 + ·) id

/-- The second pass: what it writes. That it is in a comment it has from the first pass only. -/
def copyPass (quoted comment : Bool) : Chars → Chars
  | [] => []
  | c :: s =>
      if comment then
        if c = star ∧ s.head? = some slash then
          match s with
          | d :: s => c :: d :: space :: copyPass quoted false s
          | [] => [c]
        else c :: copyPass quoted true s
      else if c = quote then c :: copyPass (!quoted) false s
      else if !quoted ∧ c = slash ∧ s.head? = some star then
        match s with
        | d :: s => space :: c :: d :: copyPass quoted false s
        | [] => [c]
      else if quoted ∧ c = backslash ∧ (s.head? = some quote ∨ s.head? = some backslash) then
        match s with
        | d :: s => c :: d :: copyPass quoted false s
        | [] => [c]
      else if isPunct c ∧ !quoted then space :: c :: space :: copyPass quoted false s
      else c :: copyPass quoted false s

/-- `ser_preformat` -/
def serPreformat (s : Chars) : Chars := copyPass false (countPass false false s).2 s

/-- The size that is allocated for it. -/
def preformatSize (s : Chars) : Nat := (countPass false false s).1 + 1

/-! ## Tokens -/

/-- `ser_tok_t`; `ser_tok_err` is `none`. -/
inductive SerTok
  | tokEnd | tokId | tokOpen | tokClose | tokTerm | tokString | tokAny | tokInt | tokChar | tokSep
  deriving DecidableEq

/-- What `ser_ntok` returns, and what it sets `dest` and `value` to. -/
structure Token where
  r : SerTok
  dest : Chars
  value : Int
  deriving DecidableEq

def isBlank (c : BitVec 8) : Bool := c = space || c = newline || c = tab

/-- Blanks and comments. -/
def skipBlanks (comment : Bool) : Chars → Option Chars
  | [] => if comment then none else some []
  | c :: s =>
      if comment then
        if c = star ∧ s.head? = some slash then
          match s with
          | _ :: s => skipBlanks false s
          | [] => none
        else skipBlanks true s
      else if isBlank c then skipBlanks false s
      else if c = slash ∧ s.head? = some star then
        match s with
        | _ :: s => skipBlanks true s
        | [] => none
      else some (c :: s)

/-- A string behind its first quote, and what follows it. -/
def scanString : Chars → Option (Chars × Chars)
  | [] => none
  | c :: s =>
      if c = quote then some ([], s)
      else if c = backslash ∧ (s.head? = some backslash ∨ s.head? = some quote) then
        match s with
        | d :: s => (scanString s).map fun (t, rest) => (c :: d :: t, rest)
        | [] => none
      else (scanString s).map fun (t, rest) => (c :: t, rest)

/-- What a word is. -/
def wordToken (w : Chars) : Option Token :=
  if w.head? = some hash then
    let (value, endptr) := Numeral.strtol w.tail
    if endptr = w.tail then none else some ⟨.tokId, w, value⟩
  else if w.head? = some braceOpen then some ⟨.tokOpen, w, 0⟩
  else if w.head? = some braceClose then some ⟨.tokClose, w, 0⟩
  else if sameCase w (chars "true") then some ⟨.tokInt, w, 1⟩
  else if sameCase w (chars "false") then some ⟨.tokInt, w, 0⟩
  else if sameCase w (chars "NULL") then some ⟨.tokId, w, 0⟩
  else
    let (value, endptr) := Numeral.strtol w
    some ⟨if endptr = [] then .tokInt else .tokAny, w, value⟩

/-- Neither a blank nor a terminator. -/
def isWord (c : BitVec 8) : Bool := !isBlank c && c ≠ semicolon

/-- `ser_ntok`. The character behind a token is skipped; behind the end of the text there is nothing to go on
with. What follows a terminator or a separator in its string is of no account. -/
def serNtok : Option Chars → Option (Token × Option Chars)
  | none => none
  | some text => (skipBlanks false text).bind fun
      | [] => some (⟨.tokEnd, [], 0⟩, some text)
      | c :: s =>
          if c = semicolon then some (⟨.tokTerm, [c], 0⟩, some s)
          else if c = comma then some (⟨.tokSep, [c], 0⟩, some s)
          else if c = quote then
            (scanString s).map fun (t, rest) => (⟨.tokString, t, 0⟩, some rest)
          else if c = apostrophe then
            match s.dropWhile (· ≠ apostrophe) with
            | [] => none
            | _ :: rest =>
                let t := s.takeWhile (· ≠ apostrophe)
                let value := if t.take 2 = [backslash, letterX] then serHex2char (t.drop 2 ++ [apostrophe])
                  else (t ++ [apostrophe]).headD 0
                some (⟨.tokChar, c :: t ++ [apostrophe], value.toInt⟩, rest.tail?)
          else
            (wordToken ((c :: s).takeWhile isWord)).map fun token =>
              (token, ((c :: s).dropWhile isWord).tail?)

/-- `ser_expect` -/
def serExpect (expected : SerTok) (pos : Option Chars) : Option (Option Chars) :=
  (serNtok pos).bind fun (token, pos) => if token.r = expected then some pos else none

/-! ## Values -/

/-- The names of the types. -/
def Struct.id : Struct → String
  | .connection => "connection"
  | .asset => "asset"
  | .tagstr => "tagstr"
  | .servAsset => "serv_asset"
  | .osAsset => "os_asset"

/-- `ser_find_tra`, of a structure -/
def findTra (id : Chars) : Option Struct :=
  [Struct.connection, .asset, .tagstr, .servAsset, .osAsset].find? fun s => id = chars s.id

/-- `ser_find_field` -/
def findField (s : Struct) (tag : Chars) : Option SerField := (translator s).find? fun f => tag = chars f.tag

def Primitive.width : Primitive → Nat
  | .timeT => 64
  | .ushort | .uint16T | .int16T => 16
  | .int | .uint32T | .int32T | .in6 => 32
  | .uint8T | .int8T => 8
  | .string => 0

/-- `ser_is_signed` -/
def Primitive.isSigned : Primitive → Bool
  | .timeT | .int | .int8T | .int16T | .int32T => true
  | _ => false

/-- `ser_write_signed` and `ser_write_unsigned` of what `ser_read_value` reads for a number. -/
def readNumber (type : Primitive) (token : Chars) : Option Nat :=
  if type.isSigned then
    let (svalue, endptr) := Numeral.strtol token
    if endptr = [] then some (BitVec.ofInt type.width svalue).toNat else none
  else
    let (uvalue, endptr) := Numeral.strtoul token
    if endptr = [] then some (BitVec.ofNat type.width uvalue).toNat else none

/-- A number with its sign, where it is printed with one: as `%d` and `%ld`, and as `%d` a `uint32_t`, too. -/
def Primitive.printed (type : Primitive) (v : Nat) : Int :=
  match type with
  | .ushort | .uint8T | .uint16T => v
  | _ => (BitVec.ofNat type.width v).toInt

/-! ## Reading a structure -/

/-- The fields of a flat structure up to its brace: `ser_read_struct_internal`. -/
def readFields {φ σ : Type} (find : Chars → Option φ)
    (read : φ → Option Chars → σ → Option (σ × Option Chars)) :
    Nat → Option Chars → σ → Option (σ × Option Chars)
  | 0, _, _ => none
  | fuel + 1, pos, st =>
      (serNtok pos).bind fun (tag, pos) =>
        if tag.r = .tokClose then some (st, pos)
        else if tag.r = .tokAny then
          (find tag.dest).bind fun field =>
            (read field pos st).bind fun (st, pos) =>
              (serExpect .tokTerm pos).bind fun pos => readFields find read fuel pos st
        else none

/-- The elements of an array in a field of a flat structure, with its last brace. -/
def readElements {σ : Type} (read : Nat → Token → σ → Option σ) (i : Nat) :
    Nat → Option Chars → σ → Option (σ × Option Chars)
  | 0, _, _ => none
  | left + 1, pos, st =>
      (serNtok pos).bind fun (token, pos) =>
        (read i token st).bind fun st =>
          if left = 0 then (serExpect .tokClose pos).map (st, ·)
          else
            (serNtok pos).bind fun (token, pos) =>
              if token.r = .tokClose then some (st, pos)
              else if token.r = .tokSep then readElements read (i + 1) left pos st
              else none

/-- One of the four bytes of an address is written. -/
def setByte (i b v : Nat) : Nat :=
  v % 256 ^ i + b * 256 ^ i + v % 256 ^ 4 / 256 ^ (i + 1) * 256 ^ (i + 1)

/-- An `in6`: its only field is `value`, an array of four. -/
def readIn6 (fuel : Nat) (pos : Option Chars) (v : Nat) : Option (Nat × Option Chars) :=
  readFields (fun tag => if tag = chars "value" then some () else none)
    (fun _ pos v => (serExpect .tokOpen pos).bind fun pos =>
      readElements (fun i token v => (readNumber .uint8T token.dest).map fun b => setByte i b v) 0 4 pos v)
    fuel pos v

/-- `ser_subst_ptr_t` -/
structure SubstPtr where
  hi : Nat
  tag : Option Chars
  ai : Nat
  deriving DecidableEq

/-- `ser_dissect_reference` -/
def dissectReference (token : Chars) : Option SubstPtr :=
  let base := token.takeWhile (· ≠ bracketOpen)
  let bracket := token.dropWhile (· ≠ bracketOpen)
  let dotted := base.dropWhile (· ≠ dot)
  let index : Option Nat :=
    match bracket with
    | [] => some 0
    | _ :: inner =>
        let (index, bracketEnd) := Numeral.strtoul inner
        if bracketEnd.head? = some bracketClose ∧ bracketEnd ≠ inner then some index else none
  if dotted ≠ [] ∧ dotted = base.drop 1 ∨ bracket ≠ [] ∧ bracket = token.drop 1 then none
  else
    let (holder, readEnd) := Numeral.strtoul (base.drop 1)
    if readEnd = dotted then
      index.map fun ai => ⟨holder, if dotted.length ≤ 1 then none else some dotted.tail, ai⟩
    else none

/-- What is in a member while a text is parsed. -/
inductive Slot
  | value (v : Value)
  | subst (r : SubstPtr)
  deriving DecidableEq

def CType.blank : CType → Value
  | .bits _ => .bits 0
  | .str => .str none
  | .ptr _ => .ptr none

/-- `ser_blank_struct` -/
def blankStruct (s : Struct) (m : Member) : Slot :=
  match (translator s).find? (·.offset = m) with
  | some f => .value f.type.cType.blank
  | none => .value (.bits 0)

/-- The members of a structure, and the list `first_sptr`. -/
abbrev Reading := (Member → Slot) × List SubstPtr

def Reading.store (st : Reading) (f : SerField) (slot : Slot) : Reading :=
  (Function.update st.1 f.offset slot, st.2)

/-- A reference, or `NULL`. -/
def readReference (f : SerField) (token : Chars) (st : Reading) : Option Reading :=
  if sameCase token (chars "NULL") then some (st.store f (.value f.type.cType.blank))
  else (dissectReference token).map fun r => ((st.store f (.subst r)).1, r :: st.2)

/-- What a token is for a field: a reference, or what `ser_read_value` reads. A word is passed over where a
structure or a reference is expected; an anonymous structure in the place of a reference is left out. -/
def readToken (fuel : Nat) (f : SerField) (token : Token) (pos : Option Chars) (st : Reading) :
    Option (Reading × Option Chars) :=
  match f.type with
  | .ref _ =>
      if token.r = .tokId then (readReference f token.dest st).map (·, pos)
      else if token.r = .tokAny then some (st, pos)
      else none
  | .val .string =>
      if token.r = .tokId then (readReference f token.dest st).map (·, pos)
      else if token.r = .tokString then
        some (st.store f (.value (.str (some (serUnescapeStr token.dest)))), pos)
      else none
  | .val .in6 =>
      if token.r = .tokOpen then
        let v := match st.1 f.offset with
          | .value (.bits v) => v
          | _ => 0
        (readIn6 fuel pos v).map fun (v, pos) => (st.store f (.value (.bits v)), pos)
      else if token.r = .tokAny then some (st, pos)
      else none
  | .val type =>
      if token.r = .tokId then none
      else (readNumber type token.dest).map fun v => (st.store f (.value (.bits v)), pos)

def readField (fuel : Nat) (f : SerField) (pos : Option Chars) (st : Reading) :
    Option (Reading × Option Chars) :=
  (serNtok pos).bind fun (token, pos) => readToken fuel f token pos st

/-- `ser_read_struct` -/
def readStruct (fuel : Nat) (s : Struct) (pos : Option Chars) (sptrs : List SubstPtr) :
    Option (Reading × Option Chars) :=
  readFields (findField s) (readField fuel) fuel pos (blankStruct s, sptrs)

/-! ## Parsing -/

/-- `ser_holder_t` -/
structure Held where
  type : Struct
  start : Member → Slot

/-- `ser_job_t`: the holders that are allocated, and the references. -/
structure Job where
  holder : List (Option Held)
  firstSptr : List SubstPtr

/-- `ser_job_realloc_holders`, where there are too few for an index -/
def Job.allocate (job : Job) (id : Nat) : List (Option Held) :=
  job.holder ++ List.replicate (id + 1 - job.holder.length) none

/-- The loop of `ser_parse`, for entries that are structures: entries without one are left out, and so is an index
that is negative, or as large as an `int` can be. -/
def parseLoop : Nat → Option Chars → Job → Option Job
  | 0, _, _ => none
  | fuel + 1, pos, job =>
      (serNtok pos).bind fun (type, pos) =>
        if type.r = .tokEnd then some job
        else if type.r = .tokAny then
          (serNtok pos).bind fun (index, pos) =>
            if index.r = .tokId ∧ 0 ≤ index.value ∧ index.value < 0x7fffffff then
              (serExpect .tokOpen pos).bind fun pos =>
                let id := index.value.toNat
                let holder := job.allocate id
                match holder[id]?, findTra type.dest with
                | some none, some s =>
                    (readStruct fuel s pos job.firstSptr).bind fun (st, pos) =>
                      parseLoop fuel pos ⟨holder.set id (some ⟨s, st.1⟩), st.2⟩
                | _, _ => none
            else none
        else none

/-- Whether what is in a field can be made a pointer of its type: `ser_restore_ptr`. A reference to a field of
another structure has the type of that field, which is no structure, or is a reference. -/
def restorable (holder : List (Option Held)) (f : SerField) : Slot → Bool
  | .value _ => true
  | .subst r =>
      match f.type, holder[r.hi]? with
      | .val _, _ => true
      | .ref s, some (some held) => r.tag = none && held.type = s
      | _, _ => false

/-- `ser_check_subst_ptrs` of one: the holder, and its field, are there. -/
def resolvable (holder : List (Option Held)) (r : SubstPtr) : Bool :=
  match holder[r.hi]?, r.tag with
  | some (some held), some tag => (findField held.type tag).isSome && r.ai < 1
  | some (some _), none => true
  | _, _ => false

/-- `ser_restore_pointers`; the holder with the number 0 is left as it is. -/
def restorePointers (job : Job) : Bool :=
  (job.holder.drop 1).all (fun
    | some held => (translator held.type).all fun f => restorable job.holder f (held.start f.offset)
    | none => true) &&
  job.firstSptr.all (resolvable job.holder)

/-- What is in memory in the end: where a reference has not been replaced, it is by its number. -/
def Slot.raw : Slot → Value
  | .value v => v
  | .subst r => .ptr (some r.hi)

def Held.obj (held : Held) : Obj := ⟨held.type, fun m => (held.start m).raw⟩

/-- `ser_parse` of a connection: what is at each index. -/
def serParseText (s : Chars) : Option (List (Option Obj)) :=
  let text := serPreformat s
  (parseLoop (text.length + 1) (some text) ⟨[none], []⟩).bind fun job =>
    match job.holder[1]? with
    | some (some held) =>
        if held.type = .connection ∧ restorePointers job then some (job.holder.map (·.map Held.obj)) else none
    | _ => none

/-! ## Writing -/

/-- `ser_write_value` -/
def writeValue (type : FieldType) (v : Value) : Option Chars :=
  match type, v with
  | .ref _, .ptr none | .val .string, .str none => some (chars "NULL")
  | .ref _, .ptr (some i) => some (hash :: Numeral.digits (i + 1))
  | .val .string, .str (some s) => some (quote :: serEscapeStr s ++ [quote])
  | .val .in6, .bits v =>
      let byte (i : Nat) : Chars := Numeral.digits (v / 256 ^ i % 256)
      some (chars "\x7b value \x7b" ++ byte 0 ++ chars ", " ++ byte 1 ++ chars ", " ++ byte 2 ++ chars ", " ++ byte 3 ++
        chars "\x7d; \x7d")
  | .val type, .bits v => some (Numeral.decimal (type.printed v))
  | _, _ => none

/-- A field, as `ser_write_struct` and `ser_write_array` write it. -/
def writeField (f : SerField) (v : Value) : Option Chars :=
  (writeValue f.type v).map fun value => chars "  " ++ chars f.tag ++ chars " " ++ value ++ chars ";\n"

section

variable [Layout]

/-- `ser_dump`, with a reference as the number of its holder. -/
def serDumpText (mem : Objects) (holders : List Holder) (h : Holder) : Option Chars :=
  (h.fields mem).bind fun fields =>
    (fields.mapM fun (f, v) => writeField f (written holders f.type v)).map fun (lines : List Chars) =>
      chars h.2.id ++ chars " #" ++ Numeral.digits (holders.idxOf h + 1) ++ chars "\n\x7b\n" ++ lines.flatten ++
        chars "\x7d\n"

/-- The text that `ser_ialize` writes. -/
def serIalizeText (fuel : Nat) (mem : Objects) (conn : Nat) : Option Chars :=
  (Worklist.visit (followPtrs mem) fuel 0 [(conn, .connection)]).bind fun holders =>
    (holders.mapM (serDumpText mem holders)).map List.flatten

end

end OFM.Prads
