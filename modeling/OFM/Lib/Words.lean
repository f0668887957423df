import Mathlib.Data.BitVec
import Mathlib.Tactic.SplitIfs

/-!
# Words

Two words agree on a prefix when their first bits are equal, the most significant bit being the first. Words in
memory are read with their most significant byte first or last; there are shifts that C leaves undefined.
-/

namespace OFM.Lib

/-! ## Prefixes -/

section Prefixes

variable {w : Nat}

def SamePrefix (p : Nat) (a b : BitVec w) : Prop := ∀ i < p, a.getMsbD i = b.getMsbD i

namespace SamePrefix

variable {p q : Nat} {a b c : BitVec w}

instance : Decidable (SamePrefix p a b) := inferInstanceAs (Decidable (∀ i < p, _))

theorem refl (p : Nat) (a : BitVec w) : SamePrefix p a a := fun _ _ => rfl

theorem symm (h : SamePrefix p a b) : SamePrefix p b a := fun i hi => (h i hi).symm

theorem trans (h : SamePrefix p a b) (h' : SamePrefix p b c) : SamePrefix p a c :=
  fun i hi => (h i hi).trans (h' i hi)

theorem of_le (h : SamePrefix q a b) (hpq : p ≤ q) : SamePrefix p a b :=
  fun i hi => h i (Nat.lt_of_lt_of_le hi hpq)

end SamePrefix

variable {p q : Nat} {a b : BitVec w}

@[simp] theorem samePrefix_zero : SamePrefix 0 a b := fun _ hi => absurd hi (Nat.not_lt_zero _)

/-- The whole word. -/
theorem samePrefix_iff_eq (h : w ≤ p) : SamePrefix p a b ↔ a = b := by
  constructor
  · exact fun hp => BitVec.eq_of_getMsbD_eq fun i hi => hp i (Nat.lt_of_lt_of_le hi h)
  · rintro rfl
    exact .refl p a

/-- A mask of ones followed by zeros. -/
theorem samePrefix_iff_and (h : p ≤ w) :
    SamePrefix p a b ↔
      a &&& (BitVec.allOnes w <<< (w - p)) = b &&& (BitVec.allOnes w <<< (w - p)) := by
  have hmask : ∀ i, (BitVec.allOnes w <<< (w - p)).getMsbD i = decide (i < p) := by
    intro i
    rw [BitVec.getMsbD_shiftLeft, BitVec.getMsbD_allOnes]
    exact decide_eq_decide.mpr (by omega)
  constructor
  · intro hp
    refine BitVec.eq_of_getMsbD_eq fun i _ => ?_
    rw [BitVec.getMsbD_and, BitVec.getMsbD_and, hmask]
    by_cases hi : i < p
    · rw [hp i hi]
    · rw [decide_eq_false hi, Bool.and_false, Bool.and_false]
  · intro he i hi
    have hbit := congrArg (fun x => x.getMsbD i) he
    simpa [hmask, hi] using hbit

/-- A word that differs from another one in one bit only. -/
theorem exists_differs_at (a : BitVec w) (hp : p < w) :
    ∃ b, SamePrefix p a b ∧ ¬ SamePrefix (p + 1) a b := by
  have hbit : ∀ i, i < w → (a ^^^ BitVec.twoPow w (w - 1 - p)).getMsbD i =
      (a.getMsbD i ^^ decide (i = p)) := by
    intro i hi
    rw [BitVec.getMsbD_xor, BitVec.getMsbD_eq_getLsbD (BitVec.twoPow w _), BitVec.getLsbD_twoPow]
    have he : (decide (i < w) && (decide (w - 1 - p < w) && decide (w - 1 - p = w - 1 - i))) =
        decide (i = p) := by
      rw [← Bool.decide_and, ← Bool.decide_and]
      exact decide_eq_decide.mpr (by omega)
    rw [he]
  refine ⟨a ^^^ BitVec.twoPow w (w - 1 - p), fun i hi => ?_, fun h => ?_⟩
  · rw [hbit i (hi.trans hp), decide_eq_false (Nat.ne_of_lt hi), Bool.xor_false]
  · have hp' := h p (Nat.lt_succ_self p)
    rw [hbit p hp, decide_eq_true rfl, Bool.xor_true] at hp'
    exact absurd hp'.symm (Bool.not_ne_self _)

/-- Prefixes of different lengths are told apart by some word. -/
theorem eq_of_samePrefix_iff (a : BitVec w) (hp : p ≤ w) (hq : q ≤ w)
    (h : ∀ b, SamePrefix p a b ↔ SamePrefix q a b) : p = q := by
  rcases Nat.lt_trichotomy p q with hlt | rfl | hlt
  · obtain ⟨b, hsame, hdiff⟩ := exists_differs_at a (Nat.lt_of_lt_of_le hlt hq)
    exact absurd (((h b).mp hsame).of_le hlt) hdiff
  · rfl
  · obtain ⟨b, hsame, hdiff⟩ := exists_differs_at a (Nat.lt_of_lt_of_le hlt hp)
    exact absurd (((h b).mpr hsame).of_le hlt) hdiff

end Prefixes

/-! ## Byte order -/

/-- What a pointer points to. -/
abbrev Memory := Nat → BitVec 8

variable (mem : Memory) (i : Nat)

/-- Most significant byte first, as on the wire. -/
def be16 : BitVec 16 := mem i ++ mem (i + 1)

def be32 : BitVec 32 := mem i ++ mem (i + 1) ++ mem (i + 2) ++ mem (i + 3)

/-- Least significant byte first, as the machine reads it. -/
def le16 : BitVec 16 := mem (i + 1) ++ mem i

def le32 : BitVec 32 := mem (i + 3) ++ mem (i + 2) ++ mem (i + 1) ++ mem i

/-- The bytes of a word, from the last to the first. -/
def swap16 (x : BitVec 16) : BitVec 16 := x.extractLsb' 0 8 ++ x.extractLsb' 8 8

def swap32 (x : BitVec 32) : BitVec 32 :=
  x.extractLsb' 0 8 ++ x.extractLsb' 8 8 ++ x.extractLsb' 16 8 ++ x.extractLsb' 24 8

variable {mem i}

theorem getLsbD_swap16 (x : BitVec 16) {j : Nat} (hj : j < 16) :
    (swap16 x).getLsbD j = x.getLsbD (if j < 8 then j + 8 else j - 8) := by
  simp only [swap16, BitVec.getLsbD_append, BitVec.getLsbD_extractLsb']
  grind

theorem getLsbD_swap32 (x : BitVec 32) {j : Nat} (hj : j < 32) :
    (swap32 x).getLsbD j = x.getLsbD
      (if j < 8 then j + 24 else if j < 16 then j + 8 else if j < 24 then j - 8 else j - 24) := by
  simp only [swap32, BitVec.getLsbD_append, BitVec.getLsbD_extractLsb']
  grind

@[simp] theorem swap16_swap16 (x : BitVec 16) : swap16 (swap16 x) = x := by
  refine BitVec.eq_of_getLsbD_eq fun j hj => ?_
  rw [getLsbD_swap16 _ hj, getLsbD_swap16 _ (by split <;> omega)]
  congr 1
  split <;> split <;> omega

@[simp] theorem swap32_swap32 (x : BitVec 32) : swap32 (swap32 x) = x := by
  refine BitVec.eq_of_getLsbD_eq fun j hj => ?_
  have hj' : (if j < 8 then j + 24 else if j < 16 then j + 8 else if j < 24 then j - 8 else j - 24) <
      32 := by
    split_ifs <;> omega
  rw [getLsbD_swap32 _ hj, getLsbD_swap32 _ hj']
  congr 1
  split_ifs <;> omega

theorem swap32_inj {x y : BitVec 32} : swap32 x = swap32 y ↔ x = y :=
  ⟨fun h => by rw [← swap32_swap32 x, h, swap32_swap32], fun h => h ▸ rfl⟩

@[simp] theorem swap16_le16 : swap16 (le16 mem i) = be16 mem i := by
  refine BitVec.eq_of_getLsbD_eq fun j hj => ?_
  rw [getLsbD_swap16 _ hj]
  simp only [le16, be16, BitVec.getLsbD_append]
  grind

@[simp] theorem swap32_le32 : swap32 (le32 mem i) = be32 mem i := by
  refine BitVec.eq_of_getLsbD_eq fun j hj => ?_
  rw [getLsbD_swap32 _ hj]
  simp only [le32, be32, BitVec.getLsbD_append]
  grind

/-- A shift to the left by less than the width; the rest is undefined. -/
def shiftLeft (undefined : BitVec 32 → BitVec 32) (x count : BitVec 32) : BitVec 32 :=
  if count.toNat < 32 then x <<< count.toNat else undefined count

end OFM.Lib
