import Mathlib.Data.BitVec
import Mathlib.Data.List.Basic
import Mathlib.Tactic.SplitIfs

/-!
# Fields with a length and a tag

Blocks of memory that are read and written at offsets, and fields that stand in them one behind the other: the
length and the tag as words with the most significant byte first, the value, and zeros up to a multiple of four.
-/

namespace OFM.Lib

/-! ## Blocks -/

section Blocks

variable {α : Type*} {block block' before after as bs : List α} {offset k : Nat}

/-- What stands at an offset; nothing where it is not inside the block. -/
def slice (block : List α) (offset k : Nat) : Option (List α) :=
  if offset + k ≤ block.length then some ((block.drop offset).take k) else none

/-- The block with values stored at an offset; nothing where they do not have room. -/
def poke (block : List α) (offset : Nat) (as : List α) : Option (List α) :=
  if offset + as.length ≤ block.length then
    some (block.take offset ++ (as ++ block.drop (offset + as.length)))
  else none

/-- What stands in a part of the block stands in the block. -/
theorem slice_part {part i : Nat} (hin : offset + part ≤ block.length) (h : i + k ≤ part) :
    slice block (offset + i) k = some ((((block.drop offset).take part).drop i).take k) := by
  rw [slice, if_pos (by omega), List.drop_take, List.take_take, List.drop_drop, Nat.min_eq_left (by omega)]

theorem poke_append (h : bs.length = as.length) :
    poke (before ++ (bs ++ after)) before.length as = some (before ++ (as ++ after)) := by
  have hroom : before.length + as.length ≤ (before ++ (bs ++ after)).length := by simp; omega
  have hdrop : (before ++ (bs ++ after)).drop (before.length + as.length) = after := by
    rw [← h, ← List.drop_drop, List.drop_left, List.drop_left]
  rw [poke, if_pos hroom, List.take_left, hdrop]

end Blocks

/-! ## Words -/

/-- Most significant byte first. -/
def bytes16 (word : BitVec 16) : List (BitVec 8) := [word.extractLsb' 8 8, word.extractLsb' 0 8]

def bytes32 (word : BitVec 32) : List (BitVec 8) :=
  [word.extractLsb' 24 8, word.extractLsb' 16 8, word.extractLsb' 8 8, word.extractLsb' 0 8]

def ofBytes16 (bytes : List (BitVec 8)) : BitVec 16 := bytes.getD 0 0 ++ bytes.getD 1 0

def ofBytes32 (bytes : List (BitVec 8)) : BitVec 32 :=
  bytes.getD 0 0 ++ bytes.getD 1 0 ++ bytes.getD 2 0 ++ bytes.getD 3 0

@[simp] theorem bytes16_length (word : BitVec 16) : (bytes16 word).length = 2 := rfl

@[simp] theorem bytes32_length (word : BitVec 32) : (bytes32 word).length = 4 := rfl

@[simp] theorem ofBytes16_bytes16 (word : BitVec 16) : ofBytes16 (bytes16 word) = word := by
  refine BitVec.eq_of_getLsbD_eq fun i hi => ?_
  simp only [ofBytes16, bytes16, List.getD_cons_zero, List.getD_cons_succ, BitVec.getLsbD_append,
    BitVec.getLsbD_extractLsb']
  grind

theorem ofBytes16_take {k : Nat} (bytes : List (BitVec 8)) (h : 2 ≤ k) :
    ofBytes16 (bytes.take k) = ofBytes16 bytes := by
  simp only [ofBytes16, List.getD_eq_getElem?_getD, List.getElem?_take]
  rw [if_pos (by omega), if_pos (by omega)]

@[simp] theorem ofBytes32_bytes32 (word : BitVec 32) : ofBytes32 (bytes32 word) = word := by
  refine BitVec.eq_of_getLsbD_eq fun i hi => ?_
  simp only [ofBytes32, bytes32, List.getD_cons_zero, List.getD_cons_succ, BitVec.getLsbD_append,
    BitVec.getLsbD_extractLsb']
  grind

theorem bytes16_ofBytes16 {bytes : List (BitVec 8)} (h : bytes.length = 2) :
    bytes16 (ofBytes16 bytes) = bytes := by
  obtain ⟨a, b, rfl⟩ := List.length_eq_two.mp h
  have hhigh : (a ++ b : BitVec 16).extractLsb' 8 8 = a := by
    refine BitVec.eq_of_getLsbD_eq fun i hi => ?_
    simp only [BitVec.getLsbD_extractLsb', BitVec.getLsbD_append]
    grind
  have hlow : (a ++ b : BitVec 16).extractLsb' 0 8 = b := by
    refine BitVec.eq_of_getLsbD_eq fun i hi => ?_
    simp only [BitVec.getLsbD_extractLsb', BitVec.getLsbD_append]
    grind
  simp only [bytes16, ofBytes16, List.getD_cons_zero, List.getD_cons_succ, hhigh, hlow]

/-! ## Fields -/

structure Field where
  tag : BitVec 16
  value : List (BitVec 8)
  deriving DecidableEq

/-- The next multiple of four. -/
def align4 (n : Nat) : Nat := (n + 3) / 4 * 4

theorem le_align4 (n : Nat) : n ≤ align4 n := by
  rw [align4]
  omega

namespace Field

variable {f : Field}

/-- The length of the field without what fills it up. -/
def length (f : Field) : Nat := 4 + f.value.length

def header (f : Field) : List (BitVec 8) := bytes16 (BitVec.ofNat 16 f.length) ++ bytes16 f.tag

def padding (f : Field) : Nat := align4 f.length - f.length

/-- The room that a field takes. -/
def size (f : Field) : Nat := align4 f.length

def bytes (f : Field) : List (BitVec 8) := f.header ++ (f.value ++ List.replicate f.padding 0)

@[simp] theorem header_length : f.header.length = 4 := rfl

theorem length_add_padding : f.length + f.padding = f.size := by
  have := le_align4 f.length
  rw [padding, size]
  omega

@[simp] theorem bytes_length : f.bytes.length = f.size := by
  rw [bytes, List.length_append, List.length_append, List.length_replicate, header_length, ← Nat.add_assoc,
    ← length_add_padding, length]

end Field

/-- Fields one behind the other. -/
def encode (fs : List Field) : List (BitVec 8) := fs.flatMap Field.bytes

@[simp] theorem encode_nil : encode [] = [] := rfl

@[simp] theorem encode_cons (f : Field) (fs : List Field) : encode (f :: fs) = f.bytes ++ encode fs := rfl

@[simp] theorem encode_append (fs gs : List Field) : encode (fs ++ gs) = encode fs ++ encode gs :=
  List.flatMap_append

/-! ## Taking fields off the front -/

/-- Fields of a kind that stand at the front, and what is behind them. What fills a field up is passed over
whatever it is, and may be cut off by the end. -/
inductive Takes (Fits : Field → Prop) : List (BitVec 8) → List Field → List (BitVec 8) → Prop where
  | nil (bytes : List (BitVec 8)) : Takes Fits bytes [] bytes
  | cons {f : Field} {fs : List Field} {tail rest : List (BitVec 8)} (fits : Fits f)
      (takes : Takes Fits (tail.drop f.padding) fs rest) :
      Takes Fits (f.header ++ (f.value ++ tail)) (f :: fs) rest

variable {Fits : Field → Prop} {f g : Field} {fs gs : List Field}
  {bytes rest rest' tail tail' : List (BitVec 8)}

/-- What has been written is taken off again. -/
theorem Takes.encode (hfits : ∀ f ∈ fs, Fits f) (rest : List (BitVec 8)) :
    Takes Fits (encode fs ++ rest) fs rest := by
  induction fs with
  | nil => exact .nil rest
  | cons f fs ih =>
      have htail : (List.replicate f.padding 0 ++ (OFM.Lib.encode fs ++ rest)).drop f.padding =
          OFM.Lib.encode fs ++ rest := List.drop_left' List.length_replicate
      have hrest := ih fun g hg => hfits g (List.mem_cons_of_mem f hg)
      rw [encode_cons, Field.bytes, List.append_assoc, List.append_assoc, List.append_assoc]
      refine .cons (hfits f List.mem_cons_self) ?_
      rw [htail]
      exact hrest

theorem Takes.append (h : Takes Fits bytes fs rest) (h' : Takes Fits rest gs rest') :
    Takes Fits bytes (fs ++ gs) rest' := by
  induction h with
  | nil => exact h'
  | cons fits _ ih => exact .cons fits (ih h')

/-- A header tells the length and the tag of its field, if the length is a word. -/
theorem header_inj (hf : f.length < 2 ^ 16) (hg : g.length < 2 ^ 16)
    (h : f.header ++ (f.value ++ tail) = g.header ++ (g.value ++ tail')) : f = g ∧ tail = tail' := by
  obtain ⟨hheader, hbody⟩ := List.append_inj h rfl
  obtain ⟨hlength, htag⟩ := List.append_inj hheader rfl
  have hlength := congrArg ofBytes16 hlength
  have htag := congrArg ofBytes16 htag
  rw [ofBytes16_bytes16, ofBytes16_bytes16] at hlength htag
  have hnat := congrArg BitVec.toNat hlength
  rw [BitVec.toNat_ofNat, BitVec.toNat_ofNat, Nat.mod_eq_of_lt hf, Nat.mod_eq_of_lt hg, Field.length,
    Field.length] at hnat
  obtain ⟨hvalue, htail⟩ := List.append_inj hbody (by omega)
  refine ⟨?_, htail⟩
  cases f
  cases g
  simp_all

/-- Where no further field stands, the fields and what is behind them are the only ones. -/
theorem Takes.unique (hshort : ∀ f, Fits f → f.length < 2 ^ 16) (h : Takes Fits bytes fs rest)
    (h' : Takes Fits bytes gs rest') (hrest : ∀ f tail, Fits f → rest ≠ f.header ++ (f.value ++ tail))
    (hrest' : ∀ f tail, Fits f → rest' ≠ f.header ++ (f.value ++ tail)) : fs = gs ∧ rest = rest' := by
  induction h generalizing gs with
  | nil bytes =>
      cases h' with
      | nil => exact ⟨rfl, rfl⟩
      | cons fits _ => exact absurd rfl (hrest _ _ fits)
  | @cons f fs tail rest fits takes ih =>
      generalize hbytes : f.header ++ (f.value ++ tail) = bytes at h'
      cases h' with
      | nil => exact absurd hbytes.symm (hrest' _ _ fits)
      | cons fits' takes' =>
          obtain ⟨rfl, rfl⟩ := header_inj (hshort _ fits) (hshort _ fits') hbytes
          obtain ⟨rfl, rfl⟩ := ih takes' hrest
          exact ⟨rfl, rfl⟩

/-- Fields are taken off until no further one stands at the front. -/
theorem Takes.exists_rest (Fits : Field → Prop) (bytes : List (BitVec 8)) :
    ∃ fs rest, Takes Fits bytes fs rest ∧ ∀ f tail, Fits f → rest ≠ f.header ++ (f.value ++ tail) := by
  induction h : bytes.length using Nat.strong_induction_on generalizing bytes with
  | _ n ih =>
      by_cases hfront : ∃ f tail, Fits f ∧ bytes = f.header ++ (f.value ++ tail)
      · obtain ⟨f, tail, fits, rfl⟩ := hfront
        have hlt : (tail.drop f.padding).length < n := by
          rw [← h, List.length_append, List.length_append, List.length_drop, Field.header_length]
          omega
        obtain ⟨fs, rest, htakes, hrest⟩ := ih _ hlt (tail.drop f.padding) rfl
        exact ⟨f :: fs, rest, .cons fits htakes, hrest⟩
      · refine ⟨[], bytes, .nil bytes, fun f tail fits he => hfront ⟨f, tail, fits, he⟩⟩

end OFM.Lib
