import Mathlib.Data.List.Nodup
import Mathlib.Data.List.Basic

/-!
# Work lists

A list that grows at its end with what its elements lead to, until all of them have been looked at. What an
element leads to may not be defined, and the walk has fuel.
-/

namespace OFM.Lib.Worklist

variable {α : Type*} [DecidableEq α]

/-- What is not there yet is put at the end. -/
def assign (xs : List α) (y : α) : List α := if y ∈ xs then xs else xs ++ [y]

/-- The first `i` elements have been looked at. -/
def visit (next : α → Option (List α)) : Nat → Nat → List α → Option (List α)
  | 0, _, _ => none
  | fuel + 1, i, xs =>
      match xs[i]? with
      | none => some xs
      | some x => (next x).bind fun ys => visit next fuel (i + 1) (ys.foldl assign xs)

variable {next : α → Option (List α)} {xs xs' ys : List α} {fuel i : Nat}

/-! ## New elements -/

theorem prefix_assign (xs : List α) (y : α) : xs <+: assign xs y := by
  rw [assign]
  split
  · exact List.prefix_rfl
  · exact List.prefix_append ..

theorem mem_assign {x y : α} : x ∈ assign xs y ↔ x ∈ xs ∨ x = y := by
  rw [assign]
  split
  · rename_i h
    constructor
    · exact Or.inl
    · rintro (hx | rfl)
      · exact hx
      · exact h
  · simp

theorem nodup_assign {y : α} (h : xs.Nodup) : (assign xs y).Nodup := by
  rw [assign]
  split
  · exact h
  · rename_i hy
    rw [List.nodup_append]
    refine ⟨h, List.nodup_singleton y, ?_⟩
    rintro a ha b hb rfl
    exact hy (List.mem_singleton.mp hb ▸ ha)

theorem prefix_assigns (ys xs : List α) : xs <+: ys.foldl assign xs := by
  induction ys generalizing xs with
  | nil => exact List.prefix_rfl
  | cons y ys ih => exact (prefix_assign xs y).trans (ih _)

theorem mem_assigns {x : α} : x ∈ ys.foldl assign xs ↔ x ∈ xs ∨ x ∈ ys := by
  induction ys generalizing xs with
  | nil => simp
  | cons y ys ih => simp [ih, mem_assign, or_assoc]

theorem nodup_assigns (h : xs.Nodup) : (ys.foldl assign xs).Nodup := by
  induction ys generalizing xs with
  | nil => exact h
  | cons y ys ih => exact ih (nodup_assign h)

/-! ## The walk -/

theorem prefix_visit (h : visit next fuel i xs = some xs') : xs <+: xs' := by
  induction fuel generalizing i xs with
  | zero => cases h
  | succ fuel ih =>
      rw [visit] at h
      split at h
      · cases h
        exact List.prefix_rfl
      · obtain ⟨ys, -, h⟩ := Option.bind_eq_some_iff.mp h
        exact (prefix_assigns ys xs).trans (ih h)

theorem nodup_visit (hnd : xs.Nodup) (h : visit next fuel i xs = some xs') : xs'.Nodup := by
  induction fuel generalizing i xs with
  | zero => cases h
  | succ fuel ih =>
      rw [visit] at h
      split at h
      · cases h
        exact hnd
      · obtain ⟨ys, -, h⟩ := Option.bind_eq_some_iff.mp h
        exact ih (nodup_assigns hnd) h

/-- At the end everything that an element leads to is there. -/
theorem closed_visit (hdone : ∀ x ∈ xs.take i, ∃ ys, next x = some ys ∧ ys ⊆ xs)
    (h : visit next fuel i xs = some xs') : ∀ x ∈ xs', ∃ ys, next x = some ys ∧ ys ⊆ xs' := by
  induction fuel generalizing i xs with
  | zero => cases h
  | succ fuel ih =>
      rw [visit] at h
      split at h
      · rename_i hnone
        cases h
        rwa [List.take_of_length_le (List.getElem?_eq_none_iff.mp hnone)] at hdone
      · rename_i x hx
        obtain ⟨ys, hys, h⟩ := Option.bind_eq_some_iff.mp h
        apply ih _ h
        obtain ⟨hi, rfl⟩ := List.getElem?_eq_some_iff.mp hx
        have hpre := prefix_assigns ys xs
        have htake : (ys.foldl assign xs).take (i + 1) = xs.take i ++ [xs[i]] := by
          obtain ⟨zs, hzs⟩ := hpre
          rw [← hzs, List.take_append_of_le_length hi, List.take_append_getElem hi]
        intro x hx
        rw [htake, List.mem_append, List.mem_singleton] at hx
        rcases hx with hx | rfl
        · obtain ⟨zs, hzs, hsub⟩ := hdone x hx
          exact ⟨zs, hzs, fun z hz => hpre.subset (hsub hz)⟩
        · exact ⟨ys, hys, fun z hz => mem_assigns.mpr (Or.inr hz)⟩

/-- A property of the first elements that is kept on the way holds of all. -/
theorem forall_visit {P : α → Prop} (hstep : ∀ x ys, P x → next x = some ys → ∀ y ∈ ys, P y)
    (hxs : ∀ x ∈ xs, P x) (h : visit next fuel i xs = some xs') : ∀ x ∈ xs', P x := by
  induction fuel generalizing i xs with
  | zero => cases h
  | succ fuel ih =>
      rw [visit] at h
      split at h
      · cases h
        exact hxs
      · rename_i x hx
        obtain ⟨ys, hys, h⟩ := Option.bind_eq_some_iff.mp h
        apply ih _ h
        intro y hy
        rcases mem_assigns.mp hy with hy | hy
        · exact hxs y hy
        · exact hstep x ys (hxs x (List.mem_of_getElem? hx)) hys y hy

/-- The walk ends where only so many elements have the property. -/
theorem visit_isSome {P : α → Prop} {n : Nat} (hnext : ∀ x, P x → ∃ ys, next x = some ys ∧ ∀ y ∈ ys, P y)
    (hbound : ∀ l : List α, l.Nodup → (∀ x ∈ l, P x) → l.length ≤ n) (hxs : ∀ x ∈ xs, P x)
    (hnd : xs.Nodup) (hi : i ≤ xs.length) (hfuel : n < fuel + i) : (visit next fuel i xs).isSome := by
  induction fuel generalizing i xs with
  | zero =>
      have hlen := hbound xs hnd hxs
      omega
  | succ fuel ih =>
      rw [visit]
      split
      · rfl
      · rename_i x hx
        obtain ⟨ys, hys, hP⟩ := hnext x (hxs x (List.mem_of_getElem? hx))
        obtain ⟨hlt, -⟩ := List.getElem?_eq_some_iff.mp hx
        rw [hys, Option.bind_some]
        apply ih
        · intro y hy
          rcases mem_assigns.mp hy with hy | hy
          · exact hxs y hy
          · exact hP y hy
        · exact nodup_assigns hnd
        · exact Nat.le_trans hlt (prefix_assigns ys xs).length_le
        · omega

end OFM.Lib.Worklist
