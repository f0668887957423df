import OFM.Lib.Archive

/-!
# Buffers in archives

Pointers to bytes, the strings of C, and how a buffer goes into an archive after its length.
-/

namespace OFM.Lib

/-- Null, or the block whose start is pointed to. -/
abbrev CharPointer := Option (List (BitVec 8))

namespace CharPointer

/-- The bytes from a pointer on, if there are as many. -/
def read (p : CharPointer) (n : Nat) : Option (List (BitVec 8)) :=
  if n ≤ (p.getD []).length then some ((p.getD []).take n) else none

/-- What is in front of the first NUL. -/
def strlen (p : CharPointer) : Option Nat := p.bind fun b => b.findIdx? fun c => c = 0

def IsString (p : CharPointer) (s : List (BitVec 8)) : Prop := 0 ∉ s ∧ ∃ rest, p = some (s ++ 0 :: rest)

/-- Both are null, or both are the same string. -/
def SameString (p p' : CharPointer) : Prop := p = none ∧ p' = none ∨ ∃ s, p.IsString s ∧ p'.IsString s

/-- What a `char*` is. -/
def NullOrString (p : CharPointer) : Prop := p = none ∨ ∃ s, p.IsString s

variable {p : CharPointer} {s b : List (BitVec 8)} {n : Nat}

@[simp] theorem read_zero (p : CharPointer) : p.read 0 = some [] := by
  simp [read]

theorem read_some_length (b : List (BitVec 8)) : read (some b) b.length = some b := by
  simp [read]

theorem length_of_read (h : p.read n = some b) : b.length = n := by
  rw [read] at h
  split at h
  · cases h
    simpa using ‹n ≤ _›
  · cases h

theorem IsString.strlen (h : p.IsString s) : p.strlen = some s.length := by
  obtain ⟨hs, rest, rfl⟩ := h
  have hnone : s.findIdx? (fun c => c = 0) = none :=
    List.findIdx?_eq_none_iff.mpr fun c hc => decide_eq_false fun h0 => hs (h0 ▸ hc)
  rw [CharPointer.strlen, Option.bind_some, List.findIdx?_append, hnone]
  simp [List.findIdx?_cons]

theorem IsString.read (h : p.IsString s) (hn : n ≤ s.length) : p.read n = some (s.take n) := by
  obtain ⟨-, rest, rfl⟩ := h
  have hlength : n ≤ (s ++ 0 :: rest).length := by
    rw [List.length_append]
    omega
  rw [CharPointer.read, Option.getD_some, if_pos hlength, List.take_append_of_le_length hn]

/-- With the NUL at the end. -/
theorem IsString.read_succ (h : p.IsString s) : p.read (s.length + 1) = some (s ++ [0]) := by
  obtain ⟨-, rest, rfl⟩ := h
  have hlength : s.length + 1 ≤ (s ++ 0 :: rest).length := by simp
  rw [CharPointer.read, Option.getD_some, if_pos hlength]
  simp [List.take_append]

theorem isString_append_zero (hs : 0 ∉ s) : IsString (some (s ++ [0])) s := ⟨hs, [], rfl⟩

/-- Bytes without a NUL are no string. -/
theorem not_isString (hb : 0 ∉ b) : ¬ IsString (some b) s := by
  rintro ⟨-, rest, h⟩
  cases h
  exact hb (by simp)

theorem IsString.eq {s' : List (BitVec 8)} (h : p.IsString s) (h' : p.IsString s') : s = s' := by
  have hlength : s.length = s'.length := Option.some.inj (h.strlen.symm.trans h'.strlen)
  have hread := h.read (Nat.le_refl _)
  rw [hlength, h'.read (Nat.le_refl _), ← hlength, List.take_length, hlength, List.take_length] at hread
  exact (Option.some.inj hread).symm

theorem IsString.ne_none (h : p.IsString s) : p ≠ none := by
  rintro rfl
  obtain ⟨-, rest, hp⟩ := h
  cases hp

end CharPointer

/-! ## Lengths -/

/-- How many bytes an `int` stands for. -/
def bytes (n : BitVec 32) : Nat := n.toInt.toNat

theorem bytes_ofNat {n : Nat} (h : n < 2 ^ 31) : bytes (BitVec.ofNat 32 n) = n := by
  rw [bytes, BitVec.toInt_eq_toNat_cond, BitVec.toNat_ofNat]
  split <;> omega

theorem bytes_ofNat_le (n : Nat) : bytes (BitVec.ofNat 32 n) ≤ n := by
  rw [bytes, BitVec.toInt_eq_toNat_cond, BitVec.toNat_ofNat]
  split <;> omega

theorem bytes_eq_zero {n : BitVec 32} (h : ¬ 0 < n.toInt) : bytes n = 0 := by
  rw [bytes]
  omega

/-! ## Binary objects -/

namespace Loader

/-- A block of as many bytes; `new` fails when they are fewer than none. -/
def blockOf (n : BitVec 32) : Loader (List (BitVec 8)) := do
  let b ← block
  if 0 ≤ n.toInt ∧ b.length = bytes n then pure b else failure

/-- What comes next is loaded from the rest. -/
theorem bind_of_run {α β : Type} {x : Loader α} {a : α} {items : List Item}
    (h : ∀ rest, x.run (items ++ rest) = some (a, rest)) (f : α → Loader β) (rest : List Item) :
    (x >>= f).run (items ++ rest) = (f a).run rest := by
  simp [h]

theorem blockOf_run {n : BitVec 32} {b : List (BitVec 8)} (hn : 0 ≤ n.toInt) (hb : b.length = bytes n)
    (rest : List Item) : (blockOf n).run (.block b :: rest) = some (b, rest) := by
  simp [blockOf, hn, hb]

end Loader

/-- `make_binary_object`; a negative length is more than any block has. -/
def binaryObject (p : CharPointer) (n : BitVec 32) : Option (List Item) :=
  if 0 ≤ n.toInt then (p.read (bytes n)).map fun b => [.block b] else none

/-- A buffer that is archived if its length is positive. -/
def saveBuffer (p : CharPointer) (n : BitVec 32) : Option (List Item) :=
  if 0 < n.toInt then binaryObject p n else some []

def loadBuffer (n : BitVec 32) : Loader CharPointer := do
  if 0 < n.toInt then return some (← Loader.blockOf n) else return none

section Buffers

variable {p : CharPointer} {n : BitVec 32} {b : List (BitVec 8)}

theorem binaryObject_of_read (hn : 0 ≤ n.toInt) (h : p.read (bytes n) = some b) :
    binaryObject p n = some [.block b] := by
  rw [binaryObject, if_pos hn, h, Option.map_some]

/-- What comes of a buffer with these bytes. -/
def loadedBuffer (n : BitVec 32) (b : List (BitVec 8)) : CharPointer := if 0 < n.toInt then some b else none

theorem buffer_run (h : p.read (bytes n) = some b) : ∃ items, saveBuffer p n = some items ∧
    ∀ rest, (loadBuffer n).run (items ++ rest) = some (loadedBuffer n b, rest) := by
  by_cases hn : 0 < n.toInt
  · have hn' : 0 ≤ n.toInt := Int.le_of_lt hn
    refine ⟨[.block b], ?_, fun rest => ?_⟩
    · rw [saveBuffer, if_pos hn, binaryObject_of_read hn' h]
    · have hrun := Loader.blockOf_run hn' (CharPointer.length_of_read h) rest
      simp [loadBuffer, loadedBuffer, hn, hrun]
  · refine ⟨[], if_neg hn, fun rest => ?_⟩
    simp [loadBuffer, loadedBuffer, hn]

/-- The bytes are there again. -/
theorem read_loadedBuffer (h : p.read (bytes n) = some b) : (loadedBuffer n b).read (bytes n) = some b := by
  by_cases hn : 0 < n.toInt
  · rw [loadedBuffer, if_pos hn, ← CharPointer.length_of_read h]
    exact CharPointer.read_some_length b
  · rw [bytes_eq_zero hn, CharPointer.read_zero] at h ⊢
    exact h

theorem saveBuffer_null (hn : 0 < n.toInt) : saveBuffer none n = none := by
  have hpos : ¬ bytes n ≤ 0 := by
    rw [bytes]
    omega
  simp [saveBuffer, hn, binaryObject, CharPointer.read, hpos]

end Buffers

/-! ## Strings without their NUL -/

/-- `strlen` as an `int`, or 0 for null. -/
def charsLength (p : CharPointer) : Option (BitVec 32) :=
  match p with
  | none => some 0
  | some _ => p.strlen.map (BitVec.ofNat 32)

/-- The length and the characters. -/
def saveChars (p : CharPointer) : Option (List Item) :=
  (charsLength p).bind fun len => (saveBuffer p len).map fun buffer => save len ++ buffer

def loadChars : Loader CharPointer := do
  let len ← load (α := BitVec 32)
  loadBuffer len

/-- A string comes back without its NUL, or not at all. -/
theorem chars_run {p : CharPointer} (hp : p.NullOrString) : ∃ items p', saveChars p = some items ∧
    (∀ rest, loadChars.run (items ++ rest) = some (p', rest)) ∧ (p.SameString p' ↔ p = none) := by
  have hload : ∀ len buffer p', (∀ rest, (loadBuffer len).run (buffer ++ rest) = some (p', rest)) →
      ∀ rest, loadChars.run (save len ++ buffer ++ rest) = some (p', rest) := by
    intro len buffer p' h rest
    rw [List.append_assoc, loadChars, Archived.bind_run, h]
  rcases hp with rfl | ⟨s, hs⟩
  · obtain ⟨buffer, hsave, hrun⟩ := buffer_run (n := 0) (CharPointer.read_zero none)
    refine ⟨save (0 : BitVec 32) ++ buffer, _, ?_, hload _ _ _ hrun, ?_⟩
    · rw [saveChars, charsLength, Option.bind_some, hsave, Option.map_some]
    · simp [CharPointer.SameString, loadedBuffer]
  · obtain ⟨buffer, hsave, hrun⟩ := buffer_run (hs.read (bytes_ofNat_le s.length))
    have hlen : charsLength p = some (BitVec.ofNat 32 s.length) := by
      obtain ⟨b, rfl⟩ := Option.ne_none_iff_exists'.mp hs.ne_none
      rw [charsLength, hs.strlen, Option.map_some]
    refine ⟨save (BitVec.ofNat 32 s.length) ++ buffer, _, ?_, hload _ _ _ hrun, ?_⟩
    · rw [saveChars, hlen, Option.bind_some, hsave, Option.map_some]
    · refine iff_of_false ?_ hs.ne_none
      rintro (⟨hp, -⟩ | ⟨s', -, hs'⟩)
      · exact hs.ne_none hp
      · rw [loadedBuffer] at hs'
        split at hs'
        · exact CharPointer.not_isString (fun h => hs.1 (List.mem_of_mem_take h)) hs'
        · exact hs'.ne_none rfl

/-! ## Floating point -/

/-- A `double` that is neither infinite nor not a number. -/
def Finite (d : BitVec 64) : Prop := d.extractLsb' 52 11 ≠ BitVec.allOnes 11

instance (d : BitVec 64) : Decidable (Finite d) := inferInstanceAs (Decidable (_ ≠ _))

namespace Loader

/-- A text archive has the digits of a `double`; what it has instead of them is not read back. -/
def double : Loader (BitVec 64) := do
  let d ← load
  if Finite d then pure d else failure

theorem double_bind {β : Type} (f : BitVec 64 → Loader β) (d : BitVec 64) (rest : List Item) :
    (double >>= f).run (save d ++ rest) = if Finite d then (f d).run rest else none := by
  by_cases h : Finite d
  · simp [double, h]
  · simp [double, h]

end Loader

/-! ## Objects -/

/-- What has been saved is loaded without a rest, and the object that comes of it is the same. -/
def RoundTrips {α : Type} (save : α → Option (List Item)) (load : Loader α) (same : α → α → Prop) (a : α) :
    Prop :=
  ∃ items, save a = some items ∧ ∀ rest, ∃ a', load.run (items ++ rest) = some (a', rest) ∧ same a a'

section Objects

variable {α : Type} {save : α → Option (List Item)} {load : Loader α} {same : α → α → Prop} {a a' : α}
  {items : List Item}

theorem roundTrips_iff_same (hs : save a = some items)
    (hl : ∀ rest, load.run (items ++ rest) = some (a', rest)) : RoundTrips save load same a ↔ same a a' := by
  constructor
  · rintro ⟨items', hs', h⟩
    obtain rfl := Option.some.inj (hs.symm.trans hs')
    obtain ⟨a'', hrun, hsame⟩ := h []
    rw [hl] at hrun
    cases hrun
    exact hsame
  · exact fun h => ⟨items, hs, fun rest => ⟨a', hl rest, h⟩⟩

/-- What can be loaded under a condition only. -/
theorem roundTrips_iff_of_if {c : Prop} [Decidable c] (hs : save a = some items)
    (hl : ∀ rest, load.run (items ++ rest) = if c then some (a', rest) else none) :
    RoundTrips save load same a ↔ c ∧ same a a' := by
  by_cases hc : c
  · simp only [if_pos hc] at hl
    rw [roundTrips_iff_same hs hl, and_iff_right hc]
  · refine iff_of_false ?_ fun h => hc h.1
    rintro ⟨items', hs', h⟩
    obtain rfl := Option.some.inj (hs.symm.trans hs')
    obtain ⟨a'', hrun, -⟩ := h []
    rw [hl, if_neg hc] at hrun
    cases hrun

theorem not_roundTrips_of_none (hs : save a = none) : ¬ RoundTrips save load same a := by
  rintro ⟨items, hs', -⟩
  rw [hs] at hs'
  cases hs'

end Objects

end OFM.Lib
