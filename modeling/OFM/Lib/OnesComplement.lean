import Mathlib.Data.Nat.ModEq
import OFM.Lib.Framing

/-!
# Checksums in one's complement

The sum of the 16-bit words of a byte string, its carries folded in, and the checksum that makes such a
sum come to all ones. A checksum computed with one fold does so exactly when that fold leaves no carry.
-/

namespace OFM.Lib

variable {bytes bytes' : Bytes} {n : Nat}

/-! ## Sums of words -/

/-- The sum of the 16-bit words; a last odd byte is the upper half of one. -/
def wordSum : Bytes → Nat
  | [] => 0
  | [hi] => hi.toNat * 2 ^ 8
  | hi :: lo :: rest => hi.toNat * 2 ^ 8 + lo.toNat + wordSum rest

theorem wordSum_append (h : Even bytes.length) :
    wordSum (bytes ++ bytes') = wordSum bytes + wordSum bytes' := by
  induction bytes using wordSum.induct with
  | case1 => exact (Nat.zero_add _).symm
  | case2 hi => exact absurd h Nat.not_even_one
  | case3 hi lo rest ih =>
      have hrest : Even rest.length := by
        rw [List.length_cons, List.length_cons] at h
        grind
      rw [List.cons_append, List.cons_append, wordSum, wordSum, ih hrest, ← Nat.add_assoc]

theorem wordSum_wordBytes (word : BitVec 16) : wordSum (wordBytes 2 word) = word.toNat := by
  have hlt := word.isLt
  simp only [wordBytes, bigEndian, List.nil_append, List.cons_append, wordSum, UInt8.toNat_ofNat']
  omega

/-- A byte string has no more than a full word for each of its words. -/
theorem wordSum_le (bytes : Bytes) : wordSum bytes ≤ (2 ^ 16 - 1) * ((bytes.length + 1) / 2) := by
  induction bytes using wordSum.induct with
  | case1 => exact Nat.le_refl 0
  | case2 hi =>
      have hhi := hi.toNat_lt
      rw [wordSum, List.length_singleton]
      omega
  | case3 hi lo rest ih =>
      have hhi := hi.toNat_lt
      have hlo := lo.toNat_lt
      rw [wordSum, List.length_cons, List.length_cons]
      omega

/-! ## Folds -/

/-- The carries of a sum, added to its lower 16 bits. -/
def fold (n : Nat) : Nat := n / 2 ^ 16 + n % 2 ^ 16

/-- Folds until there is no carry. -/
def foldAll (n : Nat) : Nat := if n < 2 ^ 16 then n else foldAll (fold n)
termination_by n
decreasing_by
  rw [fold]
  omega

theorem fold_mod (n : Nat) : fold n % (2 ^ 16 - 1) = n % (2 ^ 16 - 1) := by
  rw [fold]
  omega

theorem fold_eq_zero_iff : fold n = 0 ↔ n = 0 := by
  rw [fold]
  omega

/-- What is left is all ones for a multiple of that other than zero, and the remainder otherwise. -/
theorem foldAll_eq (n : Nat) :
    foldAll n = if n = 0 then 0 else (n - 1) % (2 ^ 16 - 1) + 1 := by
  induction n using foldAll.induct with
  | case1 n h =>
      rw [foldAll, if_pos h]
      split <;> omega
  | case2 n h ih =>
      have hmod := fold_mod n
      have hzero := fold_eq_zero_iff (n := n)
      rw [foldAll, if_neg h, ih]
      split <;> split <;> omega

/-- The sum comes to all ones. -/
def Verifies (bytes : Bytes) : Prop := foldAll (wordSum bytes) = 2 ^ 16 - 1

theorem foldAll_eq_ones_iff : foldAll n = 2 ^ 16 - 1 ↔ 0 < n ∧ (2 ^ 16 - 1) ∣ n := by
  rw [foldAll_eq]
  split <;> omega

instance : DecidablePred Verifies := fun _ => decidable_of_iff _ foldAll_eq_ones_iff.symm

/-! ## Checksums -/

/-- The complement of a sum after one fold of its lower 32 bits. -/
def checksumOf (n : Nat) : BitVec 16 := ~~~ BitVec.ofNat 16 (n / 2 ^ 16 % 2 ^ 16 + n % 2 ^ 16)

theorem checksumOf_toNat (h : n < 2 ^ 32) :
    (checksumOf n).toNat = 2 ^ 16 - 1 - fold n % 2 ^ 16 := by
  have hcarry : n / 2 ^ 16 % 2 ^ 16 = n / 2 ^ 16 := Nat.mod_eq_of_lt (by omega)
  rw [checksumOf, BitVec.toNat_not, BitVec.toNat_ofNat, hcarry, fold]

/-- With its checksum the sum comes to all ones exactly when one fold has left no carry. -/
theorem foldAll_add_checksumOf (h : n < 2 ^ 32) :
    foldAll (n + (checksumOf n).toNat) = 2 ^ 16 - 1 ↔ fold n < 2 ^ 16 := by
  have hlt : fold n % 2 ^ 16 < 2 ^ 16 := Nat.mod_lt _ (by decide)
  have hsum := Nat.div_add_mod n (2 ^ 16)
  rw [foldAll_eq_ones_iff, checksumOf_toNat h]
  rw [fold] at hlt ⊢
  constructor
  · rintro ⟨-, c, hc⟩
    omega
  · intro hcarry
    rw [Nat.mod_eq_of_lt hcarry]
    exact ⟨by omega, n / 2 ^ 16 + 1, by omega⟩

/-- A string of bytes with a word in it, which is even where it starts. -/
theorem wordSum_insert {before after : Bytes} (h : Even before.length) (word : BitVec 16) :
    wordSum (before ++ wordBytes 2 word ++ after) = wordSum (before ++ wordBytes 2 0 ++ after) + word.toNat := by
  have heven : ∀ word : BitVec 16, Even (before ++ wordBytes 2 word).length := fun word => by
    rw [List.length_append, wordBytes_length]
    exact h.add even_two
  rw [wordSum_append (heven word), wordSum_append (heven 0), wordSum_append h, wordSum_append h,
    wordSum_wordBytes, wordSum_wordBytes]
  have hzero : (0 : BitVec 16).toNat = 0 := rfl
  omega

end OFM.Lib
