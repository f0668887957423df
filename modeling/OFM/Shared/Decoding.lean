import OFM.Lib.Block
import OFM.Shared.Core

/-!
# Decoding a text in memory

`sdmbn_base64_decode` of `SDMBNCore.c` with its counter and its pointers, and what it reads and stores. The
loop has fuel, one unit for each round.
-/

namespace OFM.Shared
open OFM.Lib

/-- A string, as the bytes from a pointer on. What is behind its end is anything. -/
structure CString where
  memory : Nat → BitVec 8
  strlen : Nat
  ne_nul : ∀ i < strlen, memory i ≠ 0
  nul : memory strlen = 0

def CString.chars (blob : CString) : List (BitVec 8) := (List.range blob.strlen).map blob.memory

/-- The variables of the loop, with all offsets from the start of the string that have been read. -/
structure Decoding where
  size : Int
  ptrBlob : Nat
  ptrResult : Nat
  result : Block (BitVec 8)
  reads : List Nat

/-- The loop of `sdmbn_base64_decode`; nothing while it has not ended. -/
def decodeLoop (memory : Nat → BitVec 8) : Nat → Decoding → Option Decoding
  | fuel, d =>
      if d.size > 0 then
        match fuel with
        | 0 => none
        | fuel + 1 =>
            let lower := base64DecodeBits (memory d.ptrBlob)
            let upper := base64DecodeBits (memory (d.ptrBlob + 1))
            decodeLoop memory fuel
              { size := d.size - 2
                ptrBlob := d.ptrBlob + 2
                ptrResult := d.ptrResult + 1
                result := d.result.store d.ptrResult ((upper <<< 4) ||| lower)
                reads := d.reads ++ [d.ptrBlob, d.ptrBlob + 1] }
      else some d

/-- What a call returns: `NULL`, or the block it has allocated. -/
inductive Decoded
  | null
  | result (d : Decoding)

/-- `sdmbn_base64_decode`. The size is an `int`; `strlen` has read the string with its end. -/
def sdmbnBase64DecodeIn (fuel : Nat) : Option CString → Option Decoded
  | none => some .null
  | some blob =>
      let size := (BitVec.ofNat 32 blob.strlen).toInt
      match Block.malloc (BitVec 8) (size.tdiv 2) with
      | none => some .null
      | some result =>
          (decodeLoop blob.memory fuel ⟨size, 0, 0, result, List.range (blob.strlen + 1)⟩).map .result

/-! ## The loop -/

variable {memory : Nat → BitVec 8}

/-- The memory from an offset on holds a text and its end. -/
def TextAt (memory : Nat → BitVec 8) (offset : Nat) (text : List (BitVec 8)) : Prop :=
  (∀ i (h : i < text.length), memory (offset + i) = text[i]) ∧ memory (offset + text.length) = 0

theorem TextAt.tail {offset : Nat} {c : BitVec 8} {text : List (BitVec 8)}
    (h : TextAt memory offset (c :: text)) : TextAt memory (offset + 1) text := by
  obtain ⟨hchars, hnul⟩ := h
  constructor
  · intro i hi
    have hi' : i + 1 < (c :: text).length := Nat.succ_lt_succ hi
    rw [Nat.add_assoc, Nat.add_comm 1 i, hchars (i + 1) hi', List.getElem_cons_succ]
  · rw [Nat.add_assoc, Nat.add_comm 1]
    exact hnul

theorem TextAt.head {offset : Nat} {c : BitVec 8} {text : List (BitVec 8)}
    (h : TextAt memory offset (c :: text)) : memory offset = c :=
  h.1 0 (Nat.zero_lt_succ _)

theorem CString.textAt (blob : CString) : TextAt blob.memory 0 blob.chars := by
  constructor
  · intro i hi
    simp [CString.chars]
  · simp [CString.chars, blob.nul]

@[simp] theorem CString.chars_length (blob : CString) : blob.chars.length = blob.strlen := by
  simp [CString.chars]

/-- The rounds that a text takes. -/
def rounds (n : Nat) : Nat := (n + 1) / 2

theorem rounds_add_two (n : Nat) : rounds (n + 2) = rounds n + 1 := by
  rw [rounds, rounds]
  omega

theorem sdmbnBase64Decode_length (text : List (BitVec 8)) :
    (sdmbnBase64Decode text).length = rounds text.length := by
  induction text using sdmbnBase64Decode.induct with
  | case1 lower upper text ih =>
      rw [sdmbnBase64Decode, List.length_cons, ih, List.length_cons, List.length_cons, rounds_add_two]
  | case2 lower => simp [sdmbnBase64Decode, rounds]
  | case3 => rfl

theorem decodeLoop_done {fuel : Nat} {d : Decoding} (hsize : ¬ d.size > 0) :
    decodeLoop memory fuel d = some d := by
  cases fuel <;> rw [decodeLoop, if_neg hsize]

/-- No store makes the block longer. -/
theorem decodeLoop_length {fuel : Nat} {d d' : Decoding} (h : decodeLoop memory fuel d = some d') :
    d'.result.cells.length = d.result.cells.length := by
  induction fuel generalizing d with
  | zero =>
      rw [decodeLoop] at h
      split at h
      · cases h
      · cases h
        rfl
  | succ fuel ih =>
      rw [decodeLoop] at h
      split at h
      · rw [ih h, Block.store_length]
      · cases h
        rfl

/-- One round. -/
theorem decodeLoop_succ {fuel capacity offset : Nat} {size : Int} {bytes : List (BitVec 8)}
    {reads : List Nat} (hsize : 0 < size) :
    decodeLoop memory (fuel + 1) ⟨size, offset, bytes.length, Block.filled capacity bytes, reads⟩ =
      decodeLoop memory fuel
        { size := size - 2
          ptrBlob := offset + 2
          ptrResult := bytes.length + 1
          result := Block.filled capacity (bytes ++ [(base64DecodeBits (memory (offset + 1)) <<< 4) |||
            base64DecodeBits (memory offset)])
          reads := reads ++ [offset, offset + 1] } := by
  rw [decodeLoop, if_pos hsize]
  dsimp only
  rw [Block.filled_store]

/-- The loop ends after its rounds, two characters each, and has stored the bytes of the text one behind the
other. -/
theorem decodeLoop_eq {text : List (BitVec 8)} {capacity offset fuel : Nat} {bytes : List (BitVec 8)}
    {reads : List Nat} (htext : TextAt memory offset text) :
    decodeLoop memory fuel ⟨text.length, offset, bytes.length, Block.filled capacity bytes, reads⟩ =
      if rounds text.length ≤ fuel then
        some ⟨(text.length : Int) - 2 * rounds text.length, offset + 2 * rounds text.length,
          bytes.length + rounds text.length, Block.filled capacity (bytes ++ sdmbnBase64Decode text),
          reads ++ List.range' offset (2 * rounds text.length)⟩
      else none := by
  induction text using sdmbnBase64Decode.induct generalizing offset fuel bytes reads with
  | case1 lower upper text ih =>
      have hrounds : rounds (lower :: upper :: text).length = rounds text.length + 1 :=
        rounds_add_two text.length
      have hsize : (0 : Int) < ((lower :: upper :: text).length : Nat) := by simp; omega
      have hnext : (((lower :: upper :: text).length : Nat) : Int) - 2 = text.length := by simp; omega
      cases fuel with
      | zero =>
          rw [decodeLoop, if_pos hsize, if_neg (by omega)]
      | succ fuel =>
          rw [decodeLoop_succ hsize, htext.head, htext.tail.head, hnext]
          have hih := @ih (offset + 2) fuel (bytes ++ [(base64DecodeBits upper <<< 4) ||| base64DecodeBits lower])
            (reads ++ [offset, offset + 1]) htext.tail.tail
          rw [List.length_append, List.length_singleton] at hih
          rw [hih, hrounds]
          have hleft : ((lower :: upper :: text).length : Int) - 2 * (rounds text.length + 1 : Nat) =
              text.length - 2 * rounds text.length := by
            simp only [List.length_cons]
            omega
          have hreads : List.range' offset (2 * (rounds text.length + 1)) =
              [offset, offset + 1] ++ List.range' (offset + 2) (2 * rounds text.length) := by
            rw [Nat.mul_add, Nat.mul_one, List.range'_succ, List.range'_succ]
            rfl
          have hblob : offset + 1 + 1 + 2 * rounds text.length = offset + 2 * (rounds text.length + 1) := by
            omega
          have hresult : bytes.length + 1 + rounds text.length = bytes.length + (rounds text.length + 1) := by
            omega
          simp only [Nat.add_le_add_iff_right, hleft, hreads, hblob, hresult, sdmbnBase64Decode,
            List.append_assoc, List.singleton_append]
  | case2 lower =>
      cases fuel with
      | zero => rw [decodeLoop, if_pos (by simp), if_neg (by simp [rounds])]
      | succ fuel =>
          rw [List.length_singleton, decodeLoop_succ (by decide), htext.head]
          have hnul : memory (offset + 1) = 0 := htext.2
          rw [hnul, decodeLoop_done (by simp), if_pos (by simp [rounds])]
          rfl
  | case3 =>
      rw [List.length_nil, decodeLoop_done (by simp), if_pos (by simp [rounds])]
      simp [rounds, sdmbnBase64Decode]

end OFM.Shared
