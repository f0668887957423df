import Mathlib.Algebra.BigOperators.Intervals
import Mathlib.Data.List.Basic
import Mathlib.Data.List.Nodup
import Mathlib.Data.List.Sublists

/-!
# Parts of lists

What is left of a list when the elements at some positions are gone, and the removal of one more. An enumeration of
the sublists of a length, and how one is made of those of the list without its last element.
-/

namespace OFM.Lib

/-! ## Without some positions -/

section Positions

universe u

variable {α : Type u} {l : List α} {gone gone' : Nat → Bool} {k : Nat}

/-- The elements at the positions that are not gone. -/
def without (gone : Nat → Bool) : List α → List α
  | [] => []
  | a :: l => if gone 0 then without (fun n => gone (n + 1)) l else a :: without (fun n => gone (n + 1)) l

theorem without_congr (h : ∀ n < l.length, gone n = gone' n) : without gone l = without gone' l := by
  induction l generalizing gone gone' with
  | nil => rfl
  | cons a l ih =>
      rw [without, without, h 0 (Nat.succ_pos _), ih fun n hn => h (n + 1) (Nat.succ_lt_succ hn)]

theorem without_none (h : ∀ n < l.length, gone n = false) : without gone l = l := by
  induction l generalizing gone with
  | nil => rfl
  | cons a l ih =>
      rw [without, h 0 (Nat.succ_pos _), if_neg Bool.false_ne_true,
        ih fun n hn => h (n + 1) (Nat.succ_lt_succ hn)]

/-- Up to the first position that is gone nothing has moved. -/
theorem getElem?_without (h : ∀ n ≤ k, gone n = false) : (without gone l)[k]? = l[k]? := by
  induction l generalizing gone k with
  | nil => rfl
  | cons a l ih =>
      rw [without, h 0 (Nat.zero_le k), if_neg Bool.false_ne_true]
      cases k with
      | zero => rfl
      | succ k => exact ih fun n hn => h (n + 1) (Nat.succ_le_succ hn)

/-- The element at a position before all that are gone goes as well. -/
theorem eraseIdx_without (h : ∀ n ≤ k, gone n = false) :
    (without gone l).eraseIdx k = without (fun n => n = k || gone n) l := by
  induction l generalizing gone k with
  | nil => rfl
  | cons a l ih =>
      rw [without, h 0 (Nat.zero_le k), if_neg Bool.false_ne_true, without]
      cases k with
      | zero =>
          rw [List.eraseIdx_cons_zero, decide_eq_true rfl, Bool.true_or, if_pos rfl]
          exact without_congr fun n _ => by simp
      | succ k =>
          have hzero : ((decide (0 = k + 1)) || gone 0) = false := by
            rw [h 0 (Nat.zero_le _)]
            simp
          rw [List.eraseIdx_cons_succ, ih fun n hn => h (n + 1) (Nat.succ_le_succ hn), hzero,
            if_neg Bool.false_ne_true]
          exact congrArg (a :: ·) (without_congr fun n _ => by simp)

/-- The sum over what is left. -/
theorem sum_map_without {M : Type*} [AddCommMonoid M] (f : α → M) (gone : Nat → Bool) (l : List α) :
    ((without gone l).map f).sum =
      ∑ i ∈ (Finset.range l.length).filter (fun i => gone i = false), (l[i]?.map f).getD 0 := by
  induction l generalizing gone with
  | nil => rfl
  | cons a l ih =>
      have hsucc : ∑ i ∈ (Finset.range l.length).filter (fun i => gone (i + 1) = false), (l[i]?.map f).getD 0 =
          ∑ i ∈ Finset.range l.length, if gone (i + 1) = false then ((a :: l)[i + 1]?.map f).getD 0 else 0 := by
        rw [Finset.sum_filter]
        rfl
      rw [without, Finset.sum_filter, List.length_cons, Finset.sum_range_succ', ← hsucc, ← ih]
      cases hgone : gone 0 with
      | true => simp
      | false => simp [add_comm]

end Positions

/-! ## Combinations -/

section Combinations

variable {α : Type*} {source front choice : List α} {last : α} {num : Nat} {choices withLast withoutLast : List (List α)}

theorem sublist_snoc_iff :
    choice.Sublist (front ++ [last]) ↔ choice.Sublist front ∨ ∃ c, choice = c ++ [last] ∧ c.Sublist front := by
  constructor
  · intro h
    obtain ⟨c, tail, rfl, hc, htail⟩ := List.sublist_append_iff.mp h
    rcases List.sublist_singleton.mp htail with rfl | rfl
    · left
      simpa using hc
    · exact Or.inr ⟨c, rfl, hc⟩
  · intro h
    rcases h with h | ⟨c, rfl, hc⟩
    · exact h.trans (List.sublist_append_left ..)
    · exact hc.append_right _

/-- Those with the last element, and those without it. -/
theorem mem_snoc_iff (h₁ : ∀ choice, choice ∈ withLast ↔ choice.Sublist front ∧ choice.length = num)
    (h₂ : ∀ choice, choice ∈ withoutLast ↔ choice.Sublist front ∧ choice.length = num + 1) (choice : List α) :
    choice ∈ withLast.map (· ++ [last]) ++ withoutLast ↔
      choice.Sublist (front ++ [last]) ∧ choice.length = num + 1 := by
  rw [List.mem_append, List.mem_map, h₂, sublist_snoc_iff]
  constructor
  · intro h
    rcases h with ⟨c, hc, rfl⟩ | ⟨hsub, hlength⟩
    · obtain ⟨hsub, hlength⟩ := (h₁ c).mp hc
      exact ⟨Or.inr ⟨c, rfl, hsub⟩, by simp [hlength]⟩
    · exact ⟨Or.inl hsub, hlength⟩
  · intro h
    obtain ⟨hsub | ⟨c, rfl, hsub⟩, hlength⟩ := h
    · exact Or.inr ⟨hsub, hlength⟩
    · exact Or.inl ⟨c, (h₁ c).mpr ⟨hsub, by simpa using hlength⟩, rfl⟩

/-- The sublists of a length, each once if the elements are different. -/
structure Enumerates (source : List α) (num : Nat) (choices : List (List α)) : Prop where
  mem : ∀ choice, choice ∈ choices ↔ choice.Sublist source ∧ choice.length = num
  nodup : source.Nodup → choices.Nodup

theorem enumerates_self (source : List α) : Enumerates source source.length [source] where
  mem choice := by
    rw [List.mem_singleton]
    exact ⟨fun h => h ▸ ⟨List.Sublist.refl _, rfl⟩, fun h => h.1.eq_of_length h.2⟩
  nodup _ := List.nodup_singleton _

theorem enumerates_one (source : List α) : Enumerates source 1 (source.map fun a => [a]) where
  mem choice := by
    rw [List.mem_map]
    constructor
    · intro h
      obtain ⟨a, ha, rfl⟩ := h
      exact ⟨List.singleton_sublist.mpr ha, rfl⟩
    · intro h
      obtain ⟨a, rfl⟩ := List.length_eq_one_iff.mp h.2
      exact ⟨a, List.singleton_sublist.mp h.1, rfl⟩
  nodup h := h.map fun a b hab => List.cons.inj hab |>.1

theorem Enumerates.snoc (h₁ : Enumerates front num withLast) (h₂ : Enumerates front (num + 1) withoutLast) :
    Enumerates (front ++ [last]) (num + 1) (withLast.map (· ++ [last]) ++ withoutLast) where
  mem := mem_snoc_iff h₁.mem h₂.mem
  nodup h := by
    obtain ⟨hfront, -, hlast⟩ := List.nodup_append'.mp h
    apply List.nodup_append'.mpr
    refine ⟨(h₁.nodup hfront).map fun c c' hcc => List.append_cancel_right hcc, h₂.nodup hfront, ?_⟩
    -- Only the former contain the last element.
    intro choice hchoice hchoice'
    obtain ⟨c, -, rfl⟩ := List.mem_map.mp hchoice
    have hmem := ((h₂.mem _).mp hchoice').1.subset (List.mem_append_right c (List.mem_singleton_self last))
    exact hlast hmem (List.mem_singleton_self last)

end Combinations

end OFM.Lib
