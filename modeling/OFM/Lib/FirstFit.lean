import Mathlib.Algebra.BigOperators.Intervals
import Mathlib.Algebra.Order.Field.Basic
import Mathlib.Tactic.Linarith

/-!
# First fit

Items go to bins, the last item first: each to the first bin where it fits, with the later items that are there. In
every bin one item is due, the one with the number of the bin: it goes there even where it does not fit, as long as
each item before it goes to the bin of its own number.
-/

namespace OFM.Lib

/-- So many items with their sizes, and the bins with what is in them before. -/
structure Packing (G : Type*) where
  items : Nat
  size : Nat → G
  load : Nat → G
  limit : G

namespace Packing

variable {G : Type*}

section Group

variable [AddCommGroup G]

/-- What is in a bin when the items from a number on have been looked at. -/
def filled (p : Packing G) (goes : Nat → Nat → Bool) (k r : Nat) : G :=
  p.load k + ∑ f ∈ Finset.Ico r p.items with goes k f, p.size f

/-- The item is due in the bin. -/
def Due (goes : Nat → Nat → Bool) (k f : Nat) : Prop := f = k ∧ ∀ g < k, goes g g

instance (goes : Nat → Nat → Bool) (k f : Nat) : Decidable (Due goes k f) := inferInstanceAs (Decidable (_ ∧ _))

variable [LinearOrder G]

/-- Which item goes to which bin. -/
def FirstFit (p : Packing G) (goes : Nat → Nat → Bool) : Prop :=
  ∀ k f, f < p.items → (goes k f ↔ (∀ j < k, ¬ goes j f) ∧
    (p.filled goes k (f + 1) + p.size f < p.limit ∨ Due goes k f))

/-! ## There is such a packing -/

theorem sub_lt_of_mem_Ico {n f g : Nat} (hg : g ∈ Finset.Ico (f + 1) n) : n - g < n - f := by
  rw [Finset.mem_Ico] at hg
  omega

/-- Bin by bin, and in a bin from the last item on. -/
def place (p : Packing G) (k f : Nat) : Bool :=
  decide ((∀ j : Fin k, p.place j f = false) ∧
    (p.load k + (∑ g ∈ (Finset.Ico (f + 1) p.items).attach, if p.place k g.1 then p.size g.1 else 0) + p.size f <
      p.limit ∨ f = k ∧ ∀ g : Fin k, p.place g g = true))
termination_by (k, p.items - f)
decreasing_by
  all_goals first
  | exact Prod.Lex.left _ _ (Fin.is_lt _)
  | exact Prod.Lex.right _ (sub_lt_of_mem_Ico (Subtype.property _))

theorem firstFit_place (p : Packing G) : p.FirstFit p.place := by
  intro k f hf
  have hsum : p.filled p.place k (f + 1) = p.load k +
      ∑ g ∈ (Finset.Ico (f + 1) p.items).attach, if p.place k g.1 then p.size g.1 else 0 := by
    rw [filled, Finset.sum_filter, ← Finset.sum_attach]
  rw [place, decide_eq_true_eq, hsum, Due]
  simp [Fin.forall_iff]

end Group

/-! ## What is in a bin -/

section Filled

variable {p : Packing G} {goes : Nat → Nat → Bool} {k f : Nat}

/-- What is kept where one more item is looked at. -/
theorem forall_looked {P : Nat → Prop} (h₀ : P p.items) (hstep : ∀ f < p.items, P (f + 1) → P f) :
    ∀ r ≤ p.items, P r := by
  intro r hr
  induction hr using Nat.decreasingInduction with
  | self => exact h₀
  | of_succ f hf ih => exact hstep f hf ih

variable [AddCommGroup G]

theorem filled_start (p : Packing G) (goes : Nat → Nat → Bool) (k : Nat) : p.filled goes k p.items = p.load k := by
  simp [filled]

theorem filled_step (hf : f < p.items) :
    p.filled goes k f = p.filled goes k (f + 1) + if goes k f then p.size f else 0 := by
  rw [filled, filled, Finset.sum_filter, Finset.sum_filter, Finset.sum_eq_sum_Ico_succ_bot hf, add_assoc,
    add_comm (∑ g ∈ _, _)]

end Filled

section FirstFit

variable [AddCommGroup G] [LinearOrder G] {p : Packing G} {goes : Nat → Nat → Bool} {j k f : Nat}

theorem FirstFit.unique (h : p.FirstFit goes) (hf : f < p.items) (hj : goes j f) (hk : goes k f) : j = k := by
  rcases Nat.lt_trichotomy j k with hlt | heq | hlt
  · exact absurd hj (((h k f hf).mp hk).1 j hlt)
  · exact heq
  · exact absurd hk (((h j f hf).mp hj).1 k hlt)

/-- Before the item that is due has been looked at a bin is not above the limit. -/
theorem FirstFit.filled_le_or (h : p.FirstFit goes) (hload : p.load k ≤ p.limit) :
    ∀ r ≤ p.items, p.filled goes k r ≤ p.limit ∨ r ≤ k := by
  refine forall_looked (Or.inl ((filled_start p goes k).trans_le hload)) fun f hf ih => ?_
  rw [filled_step hf]
  by_cases hgoes : goes k f
  · rw [if_pos hgoes]
    rcases ((h k f hf).mp hgoes).2 with hfits | ⟨rfl, -⟩
    · exact Or.inl hfits.le
    · exact Or.inr le_rfl
  · rw [if_neg hgoes, add_zero]
    exact ih.imp_right (Nat.le_of_succ_le)

/-- An item comes to a bin that is not above the limit. -/
theorem FirstFit.filled_le [IsOrderedAddMonoid G] (h : p.FirstFit goes) (hload : p.load k ≤ p.limit)
    (hf : f < p.items) (hsize : 0 ≤ p.size f) (hgoes : goes k f) : p.filled goes k (f + 1) ≤ p.limit := by
  rcases ((h k f hf).mp hgoes).2 with hfits | ⟨rfl, -⟩
  · exact (le_add_of_nonneg_right hsize).trans hfits.le
  · exact (h.filled_le_or hload (f + 1) hf).resolve_right (Nat.not_succ_le_self f)

end FirstFit

/-- What an item adds to the square of a bin, if it comes to one that is at the limit. -/
def square [Mul G] [Add G] (p : Packing G) (f : Nat) : G := p.size f * (p.limit + p.limit + p.size f)

section Squares

variable [CommRing G] [LinearOrder G] [IsStrictOrderedRing G] {p : Packing G} {goes : Nat → Nat → Bool} {k : Nat}

theorem FirstFit.sq_filled_le (h : p.FirstFit goes) (hload : p.load k ≤ p.limit)
    (hsize : ∀ f < p.items, 0 ≤ p.size f) : ∀ r ≤ p.items,
      p.filled goes k r ^ 2 ≤ p.load k ^ 2 + ∑ f ∈ Finset.Ico r p.items with goes k f, p.square f := by
  refine forall_looked (by simp [filled_start]) fun f hf ih => ?_
  rw [Finset.sum_filter, Finset.sum_eq_sum_Ico_succ_bot hf, ← Finset.sum_filter, filled_step hf]
  by_cases hgoes : goes k f
  · rw [if_pos hgoes, if_pos hgoes, square]
    have hle := h.filled_le hload hf (hsize f hf) hgoes
    have hmul := mul_le_mul_of_nonneg_left hle (hsize f hf)
    linarith [add_sq (p.filled goes k (f + 1)) (p.size f)]
  · rw [if_neg hgoes, if_neg hgoes, add_zero, zero_add]
    exact ih

end Squares

/-! ## The item that is due, by a counter -/

section Counts

/-- A counter that goes on where the item at it goes to the bin: it is behind the items that are in the bins of their
numbers, and stays at one that has gone to an earlier bin, or behind the last item. -/
def Counts (n : Nat) (goes : Nat → Nat → Bool) (k r last : Nat) : Prop :=
  let due := if r ≤ k then k + 1 else k
  (last = due ∧ ∀ g < last, goes g g) ∨ (last < due ∧ ¬ goes last last ∧ ∃ j < last, goes j last) ∨
    (last ≤ due ∧ n ≤ last)

variable [AddCommGroup G] [LinearOrder G] {p : Packing G} {goes : Nat → Nat → Bool} {n k f last : Nat}

theorem counts_start (n : Nat) (goes : Nat → Nat → Bool) : Counts n goes 0 n 0 := by
  rcases Nat.eq_zero_or_pos n with rfl | hn
  · exact Or.inr (Or.inr ⟨Nat.zero_le _, le_rfl⟩)
  · exact Or.inl ⟨(if_neg hn.not_ge).symm, fun g hg => absurd hg (Nat.not_lt_zero g)⟩

theorem Counts.next (h : Counts n goes k 0 last) : Counts n goes (k + 1) n last := by
  have hdue : k + 1 ≤ if n ≤ k + 1 then k + 1 + 1 else k + 1 := by split <;> omega
  simp only [Counts, Nat.zero_le, if_true] at h
  rcases h with ⟨rfl, hall⟩ | ⟨hlt, hstop⟩ | ⟨hle, hn⟩
  · by_cases hn : n ≤ k + 1
    · exact Or.inr (Or.inr ⟨hdue, hn⟩)
    · exact Or.inl ⟨(if_neg hn).symm, hall⟩
  · exact Or.inr (Or.inl ⟨hlt.trans_le hdue, hstop⟩)
  · exact Or.inr (Or.inr ⟨hle.trans hdue, hn⟩)

/-- An item that is in no earlier bin is at the counter if it is due. -/
theorem Counts.due_iff (h : Counts n goes k (f + 1) last) (hf : f < n) (hnone : ∀ j < k, ¬ goes j f) :
    f = last ↔ Due goes k f := by
  rcases h with ⟨hlast, hall⟩ | ⟨hlt, hstop, j, hj, hearlier⟩ | ⟨hle, hn⟩
  · split at hlast
    · exact ⟨by omega, fun hdue => absurd hdue.1 (by omega)⟩
    · subst hlast
      exact ⟨fun heq => ⟨heq, hall⟩, fun hdue => hdue.1⟩
  · constructor
    · rintro rfl
      refine absurd hearlier (hnone j ?_)
      split at hlt <;> omega
    · rintro ⟨rfl, hall⟩
      rw [if_neg (Nat.not_succ_le_self f)] at hlt
      exact absurd (hall last hlt) hstop
  · constructor
    · omega
    · rintro ⟨rfl, -⟩
      rw [if_neg (Nat.not_succ_le_self f)] at hle
      omega

/-- One more item has been looked at. -/
theorem Counts.step (h : Counts p.items goes k (f + 1) last) (hfit : p.FirstFit goes) (hf : f < p.items) :
    Counts p.items goes k f (if goes k f ∧ f = last then last + 1 else last) := by
  have hdue : (if f + 1 ≤ k then k + 1 else k) ≤ if f ≤ k then k + 1 else k := by split <;> split <;> omega
  have hsame : f ≠ k → (if f ≤ k then k + 1 else k) = if f + 1 ≤ k then k + 1 else k := by
    intro hne
    split <;> split <;> omega
  have hkept := h
  rcases h with ⟨hlast, hall⟩ | ⟨hlt, hstop, j, hj, hearlier⟩ | ⟨hle, hn⟩
  · by_cases hfk : f = k
    · subst hfk
      rw [if_neg (Nat.not_succ_le_self f)] at hlast
      subst hlast
      by_cases hgoes : goes last last
      · rw [if_pos ⟨hgoes, rfl⟩]
        refine Or.inl ⟨(if_pos le_rfl).symm, fun g hg => ?_⟩
        rcases Nat.lt_succ_iff_lt_or_eq.mp hg with hg | rfl
        · exact hall g hg
        · exact hgoes
      · -- It has gone to an earlier bin, or it would be due.
        rw [if_neg fun h => hgoes h.1]
        have hearlier : ∃ j < last, goes j last := by
          by_contra hnone
          push Not at hnone
          exact hgoes ((hfit last last hf).mpr ⟨hnone, Or.inr ((hkept.due_iff hf hnone).mp rfl)⟩)
        exact Or.inr (Or.inl ⟨by simp, hgoes, hearlier⟩)
    · have hne : f ≠ last := by
        rw [hlast]
        split <;> omega
      rw [if_neg fun h => hne h.2]
      exact Or.inl ⟨hlast.trans (hsame hfk).symm, hall⟩
  · have hne : ¬ (goes k f ∧ f = last) := by
      rintro ⟨hgoes, rfl⟩
      have heq := hfit.unique hf hearlier hgoes
      split at hlt <;> omega
    rw [if_neg hne]
    exact Or.inr (Or.inl ⟨hlt.trans_le hdue, hstop, j, hj, hearlier⟩)
  · rw [if_neg fun h => by omega]
    exact Or.inr (Or.inr ⟨hle.trans hdue, hn⟩)

end Counts

end Packing

end OFM.Lib
