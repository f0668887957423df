import Mathlib.Data.List.Nodup

/-!
# Tallies

How often a value is what the elements of a list stand for, where an element need not stand for any value, and
what changes of one element do to it.
-/

namespace OFM.Lib

variable {α β : Type*} [DecidableEq β]

/-- The share of one element. -/
def share (o : Option β) (b : β) : Nat := if o = some b then 1 else 0

def tally (f : α → Option β) (l : List α) (b : β) : Nat := l.countP fun x => f x = some b

variable {f g : α → Option β} {l l' : List α} {x : α} {b : β}

@[simp] theorem share_none : share none b = 0 := rfl

theorem tally_middle : tally f (l ++ x :: l') b = share (f x) b + tally f (l ++ l') b := by
  simp only [tally, share, List.countP_append, List.countP_cons, decide_eq_true_eq]
  omega

theorem share_le_tally (hx : x ∈ l) : share (f x) b ≤ tally f l b := by
  obtain ⟨pre, post, rfl⟩ := List.append_of_mem hx
  rw [tally_middle]
  exact Nat.le_add_right ..

theorem tally_concat : tally f (l ++ [x]) b = tally f l b + share (f x) b := by
  rw [tally_middle, List.append_nil, Nat.add_comm]

theorem tally_congr (h : ∀ x ∈ l, g x = f x) : tally g l b = tally f l b := by
  refine List.countP_congr fun x hx => ?_
  rw [h x hx]

/-- One element stands for something else. -/
theorem tally_update (hl : l.Nodup) (hx : x ∈ l) (h : ∀ y ∈ l, y ≠ x → g y = f y) :
    tally g l b + share (f x) b = tally f l b + share (g x) b := by
  obtain ⟨pre, post, rfl⟩ := List.append_of_mem hx
  rw [List.nodup_middle, List.nodup_cons] at hl
  have hrest : tally g (pre ++ post) b = tally f (pre ++ post) b := by
    refine tally_congr fun y hy => h y ?_ fun he => hl.1 (he ▸ hy)
    rcases List.mem_append.mp hy with hy | hy
    · exact List.mem_append_left _ hy
    · exact List.mem_append_right _ (List.mem_cons_of_mem x hy)
  rw [tally_middle, tally_middle, hrest]
  omega

theorem tally_mono (h : ∀ x ∈ l, g x = f x ∨ g x = none) : tally g l b ≤ tally f l b := by
  refine List.countP_mono_left fun x hx hb => ?_
  rcases h x hx with he | he
  · rwa [he] at hb
  · rw [he] at hb
    cases of_decide_eq_true hb

/-- Where elements can only come to stand for nothing, the tallies are the same only if none does. -/
theorem tally_eq_iff (h : ∀ x ∈ l, g x = f x ∨ g x = none) :
    (∀ b, tally g l b = tally f l b) ↔ ∀ x ∈ l, g x = f x := by
  refine ⟨fun heq x hx => ?_, fun hsame b => tally_congr hsame⟩
  rcases h x hx with he | hnone
  · exact he
  cases hf : f x with
  | none => exact hnone
  | some b =>
      obtain ⟨pre, post, rfl⟩ := List.append_of_mem hx
      have hone : share (f x) b = 1 := if_pos hf
      have hmono : tally g (pre ++ post) b ≤ tally f (pre ++ post) b := by
        refine tally_mono fun y hy => h y ?_
        rcases List.mem_append.mp hy with hy | hy
        · exact List.mem_append_left _ hy
        · exact List.mem_append_right _ (List.mem_cons_of_mem x hy)
      have hcount := heq b
      rw [tally_middle, tally_middle, hnone, hone, share_none] at hcount
      omega

/-- A value is the only one that has a share of it. -/
theorem share_eq_iff {o o' : Option β} : (∀ b, share o b = share o' b) ↔ o = o' := by
  refine ⟨fun h => ?_, fun h b => by rw [h]⟩
  cases o with
  | none =>
      cases o' with
      | none => rfl
      | some b =>
          have hb := h b
          simp [share] at hb
  | some b =>
      have hb := h b
      rw [share, if_pos rfl, share] at hb
      split at hb
      · exact Eq.symm ‹_›
      · cases hb

end OFM.Lib
