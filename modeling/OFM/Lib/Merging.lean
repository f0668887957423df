import Mathlib.Algebra.BigOperators.Group.Finset.Basic
import Mathlib.Algebra.BigOperators.Pi
import Mathlib.Data.Finset.SDiff

/-!
# Merging

Parties with loads are merged one into another. What has been merged away keeps its load and is not looked at
again.
-/

namespace OFM.Lib.Merging

variable {ι G : Type*} [DecidableEq ι] [AddCommMonoid G]

/-- The load of the first one is added to that of the second one. -/
def merge (load : ι → G) (m : ι × ι) : ι → G := Function.update load m.2 (load m.2 + load m.1)

def run (load : ι → G) (merges : List (ι × ι)) : ι → G := merges.foldl merge load

variable {load : ι → G} {all gone : Finset ι} {merges pre post : List (ι × ι)} {m : ι × ι} {i j : ι}

theorem run_cons : run load (m :: merges) = run (merge load m) merges := rfl

/-- Two are merged that are still there. -/
theorem sum_merge (hi : i ∈ all \ gone) (hj : j ∈ all \ gone) (hij : i ≠ j) :
    ∑ x ∈ all \ insert i gone, merge load (i, j) x = ∑ x ∈ all \ gone, load x := by
  have hrest : all \ insert i gone = (all \ gone).erase i := Finset.sdiff_insert ..
  have hmem : j ∈ (all \ gone).erase i := Finset.mem_erase.mpr ⟨hij.symm, hj⟩
  calc ∑ x ∈ all \ insert i gone, merge load (i, j) x
      = load j + load i + ∑ x ∈ (all \ gone).erase i \ {j}, load x := by
        rw [hrest]
        exact Finset.sum_update_of_mem hmem ..
    _ = load i + ∑ x ∈ (all \ gone).erase i, load x := by
        rw [← Finset.erase_eq, ← Finset.add_sum_erase _ load hmem, ← add_assoc, add_comm (load j)]
    _ = ∑ x ∈ all \ gone, load x := Finset.add_sum_erase _ load hi

section Cap

variable [LE G] {cap : G}

/-- Merges of parties that are still there, none of which brings a load above the cap. -/
inductive Sound (cap : G) : Finset ι → (ι → G) → List (ι × ι) → Prop
  | nil {gone : Finset ι} {load : ι → G} : Sound cap gone load []
  | cons {gone : Finset ι} {load : ι → G} {i j : ι} {merges : List (ι × ι)} (source : i ∉ gone) (target : j ∉ gone)
      (other : i ≠ j) (safe : load j + load i ≤ cap) (rest : Sound cap (insert i gone) (merge load (i, j)) merges) :
      Sound cap gone load ((i, j) :: merges)

/-- Each is merged away once. -/
theorem Sound.once (h : Sound cap gone load merges) :
    (merges.map Prod.fst).Nodup ∧ ∀ i ∈ merges.map Prod.fst, i ∉ gone := by
  induction h with
  | nil => simp
  | @cons gone load i j merges source target other safe rest ih =>
      obtain ⟨hnodup, hgone⟩ := ih
      rw [List.map_cons]
      constructor
      · exact List.nodup_cons.mpr ⟨fun hmem => hgone i hmem (Finset.mem_insert_self ..), hnodup⟩
      · intro k hk
        cases hk with
        | head => exact source
        | tail _ hk => exact fun hmem => hgone k hk (Finset.mem_insert_of_mem hmem)

/-- A merge in the middle: the target is still there, and its load is below the cap. -/
theorem Sound.middle (h : Sound cap gone load (pre ++ (i, j) :: post)) :
    j ∉ gone ∧ j ∉ pre.map Prod.fst ∧ run load (pre ++ [(i, j)]) j ≤ cap := by
  induction pre generalizing gone load with
  | nil =>
      cases h with
      | cons source target other safe rest => simpa [run, merge] using ⟨target, safe⟩
  | cons m pre ih =>
      cases h with
      | cons source target other safe rest =>
          obtain ⟨hgone, hpre, hsafe⟩ := ih rest
          rw [Finset.mem_insert, not_or] at hgone
          refine ⟨hgone.2, ?_, hsafe⟩
          rw [List.map_cons, List.mem_cons, not_or]
          exact ⟨hgone.1, hpre⟩

/-- The loads of those that are left have the same sum as all. -/
theorem Sound.sum_run (h : Sound cap gone load merges) (hall : ∀ m ∈ merges, m.1 ∈ all ∧ m.2 ∈ all) :
    ∑ x ∈ all \ (gone ∪ (merges.map Prod.fst).toFinset), run load merges x = ∑ x ∈ all \ gone, load x := by
  induction h with
  | nil => simp [run]
  | @cons gone load i j merges source target other safe rest ih =>
      obtain ⟨⟨hi, hj⟩, hrest⟩ := List.forall_mem_cons.mp hall
      have hgone : gone ∪ (((i, j) :: merges).map Prod.fst).toFinset =
          insert i gone ∪ (merges.map Prod.fst).toFinset := by simp
      rw [hgone, run_cons, ih hrest]
      exact sum_merge (Finset.mem_sdiff.mpr ⟨hi, source⟩) (Finset.mem_sdiff.mpr ⟨hj, target⟩) other

end Cap

end OFM.Lib.Merging
