import Mathlib.Algebra.BigOperators.Group.List.Basic
import Mathlib.Algebra.BigOperators.Intervals
import Mathlib.Algebra.Order.Group.Defs
import Mathlib.Data.List.Nodup

/-!
# Greedy scans

A list is scanned once, with a load. An element that may be taken is taken unless the load would fall below a
floor without it.
-/

namespace OFM.Lib.Greedy

variable {α G : Type*} [AddCommGroup G]

/-- The load without some elements. -/
def left (size : α → G) (load : G) (taken : List α) : G := load - (taken.map size).sum

variable {size : α → G} {floor load : G} {l pre post taken : List α} {a : α}

@[simp] theorem left_nil : left size load [] = load := by simp [left]

@[simp] theorem left_cons : left size load (a :: taken) = left size (load - size a) taken := by
  simp [left, sub_sub]

theorem left_append : left size load (pre ++ post) = left size (left size load pre) post := by
  simp [left, sub_sub]

variable [LinearOrder G]

/-- What is taken. -/
def scan (may : α → Bool) (size : α → G) (floor load : G) : List α → List α
  | [] => []
  | a :: rest =>
      if may a ∧ floor ≤ load - size a then a :: scan may size floor (load - size a) rest
      else scan may size floor load rest

variable {may : α → Bool}

theorem scan_sublist : (scan may size floor load l).Sublist l := by
  induction l generalizing load with
  | nil => simp [scan]
  | cons a l ih =>
      rw [scan]
      split
      · exact ih.cons_cons a
      · exact ih.cons a

theorem may_of_mem_scan (h : a ∈ scan may size floor load l) : may a := by
  induction l generalizing load with
  | nil => simp [scan] at h
  | cons b l ih =>
      rw [scan] at h
      split at h
      · rename_i htake
        rcases List.mem_cons.mp h with rfl | h
        · exact htake.1
        · exact ih h
      · exact ih h

/-- The load stays above the floor. -/
theorem floor_le_scan (h : floor ≤ load) : floor ≤ left size load (scan may size floor load l) := by
  induction l generalizing load with
  | nil => simpa [scan]
  | cons a l ih =>
      rw [scan]
      split
      · rename_i htake
        rw [left_cons]
        exact ih htake.2
      · exact ih h

theorem scan_append : scan may size floor load (pre ++ post) = scan may size floor load pre ++
    scan may size floor (left size load (scan may size floor load pre)) post := by
  induction pre generalizing load with
  | nil => simp [scan]
  | cons a pre ih =>
      rw [List.cons_append, scan, scan]
      split
      · rw [ih, List.cons_append, left_cons]
      · exact ih

/-- The load at the moment when an element is looked at decides whether it is taken. -/
theorem mem_scan_iff (hnodup : (pre ++ a :: post).Nodup) : a ∈ scan may size floor load (pre ++ a :: post) ↔
    may a ∧ floor ≤ left size load (scan may size floor load pre) - size a := by
  obtain ⟨hpost, -⟩ := List.nodup_cons.mp (List.nodup_middle.mp hnodup)
  rw [List.mem_append, not_or] at hpost
  have hno : ∀ {load : G}, a ∉ scan may size floor load post := fun h => hpost.2 (scan_sublist.subset h)
  rw [scan_append, List.mem_append, scan]
  constructor
  · intro h
    rcases h with h | h
    · exact absurd (scan_sublist.subset h) hpost.1
    · split at h
      · assumption
      · exact absurd h hno
  · intro h
    right
    rw [if_pos h]
    exact List.mem_cons_self ..

theorem scan_map {β : Type*} (g : β → α) (l : List β) :
    scan may size floor load (l.map g) = (scan (may ∘ g) (size ∘ g) floor load l).map g := by
  induction l generalizing load with
  | nil => rfl
  | cons b l ih =>
      simp only [List.map_cons, scan, Function.comp_apply, ih]
      split <;> rfl

/-! ## By positions -/

section Positions

variable {n k : Nat} {mayAt : Nat → Bool} {sizeAt : Nat → G} {chosen : Nat → Bool}

/-- The load when the positions from one on have been looked at. -/
def leftFrom (sizeAt : Nat → G) (load : G) (n : Nat) (chosen : Nat → Bool) (r : Nat) : G :=
  load - ∑ k ∈ Finset.Ico r n with chosen k, sizeAt k

/-- The positions that are taken, where the last one is looked at first. -/
def Chosen (mayAt : Nat → Bool) (sizeAt : Nat → G) (floor load : G) (n : Nat) (chosen : Nat → Bool) : Prop :=
  ∀ k < n, (chosen k ↔ mayAt k ∧ floor ≤ leftFrom sizeAt load n chosen (k + 1) - sizeAt k)

omit [LinearOrder G] in
theorem leftFrom_step (hk : k < n) : leftFrom sizeAt load n chosen k =
    leftFrom sizeAt load n chosen (k + 1) - if chosen k then sizeAt k else 0 := by
  rw [leftFrom, leftFrom, Finset.sum_filter, Finset.sum_filter, Finset.sum_eq_sum_Ico_succ_bot hk, sub_sub,
    add_comm (∑ g ∈ _, _)]

omit [LinearOrder G] in
theorem leftFrom_congr {chosen' : Nat → Bool} {r : Nat} (h : ∀ k, r ≤ k → k < n → chosen k = chosen' k) :
    leftFrom sizeAt load n chosen r = leftFrom sizeAt load n chosen' r := by
  rw [leftFrom, leftFrom]
  refine congrArg (load - ·) (Finset.sum_congr (Finset.filter_congr fun k hk => ?_) fun _ _ => rfl)
  obtain ⟨hr, hn⟩ := Finset.mem_Ico.mp hk
  rw [h k hr hn]

/-- There is one such choice: it is made from the last position on. -/
theorem exists_chosen (mayAt : Nat → Bool) (sizeAt : Nat → G) (floor load : G) (n : Nat) :
    ∃ chosen, Chosen mayAt sizeAt floor load n chosen := by
  suffices h : ∀ r ≤ n, ∃ chosen : Nat → Bool, ∀ k, r ≤ k → k < n →
      (chosen k ↔ mayAt k ∧ floor ≤ leftFrom sizeAt load n chosen (k + 1) - sizeAt k) by
    obtain ⟨chosen, hchosen⟩ := h 0 (Nat.zero_le n)
    exact ⟨chosen, fun k hk => hchosen k (Nat.zero_le k) hk⟩
  intro r hr
  induction hr using Nat.decreasingInduction with
  | self => exact ⟨fun _ => false, fun k hle hlt => absurd hlt hle.not_gt⟩
  | of_succ r hr ih =>
      obtain ⟨chosen, hchosen⟩ := ih
      let chosen' := Function.update chosen r
        (decide (mayAt r ∧ floor ≤ leftFrom sizeAt load n chosen (r + 1) - sizeAt r))
      have hlater : ∀ k, r + 1 ≤ k → k < n → chosen' k = chosen k := fun k hk _ =>
        Function.update_of_ne (Nat.ne_of_gt hk) _ _
      refine ⟨chosen', fun k hk hn => ?_⟩
      rw [leftFrom_congr fun g hg => hlater g ((Nat.succ_le_succ hk).trans hg)]
      rcases hk.eq_or_lt with rfl | hk
      · simp [chosen']
      · rw [hlater k hk hn]
        exact hchosen k hk hn

/-- A scan from the last position down takes what is chosen. -/
theorem Chosen.scan_eq (h : Chosen mayAt sizeAt floor load n chosen) : ∀ r ≤ n,
    scan mayAt sizeAt floor (leftFrom sizeAt load n chosen r) (List.range r).reverse =
      ((List.range r).filter chosen).reverse := by
  intro r
  induction r with
  | zero => simp [scan]
  | succ r ih =>
      intro hr
      have hchosen := h r hr
      have hstep : leftFrom sizeAt load n chosen r = _ := leftFrom_step hr
      rw [List.range_succ, List.reverse_append, List.filter_append, List.reverse_append, List.reverse_singleton,
        List.singleton_append, scan]
      by_cases hr' : chosen r
      · rw [if_pos (hchosen.mp hr'), List.filter_singleton, hr', cond_true, List.reverse_singleton,
          List.singleton_append, ← ih (Nat.le_of_succ_le hr), hstep, if_pos hr']
      · rw [if_neg (mt hchosen.mpr hr'), List.filter_singleton, Bool.eq_false_iff.mpr hr', cond_false,
          List.reverse_nil, List.nil_append, ← ih (Nat.le_of_succ_le hr), hstep, if_neg hr', sub_zero]

end Positions

variable [IsOrderedAddMonoid G]

theorem left_le (hsize : ∀ a ∈ taken, 0 ≤ size a) : left size load taken ≤ load := by
  induction taken generalizing load with
  | nil => simp
  | cons a taken ih =>
      rw [left_cons]
      apply (ih fun b hb => hsize b (List.mem_cons_of_mem _ hb)).trans
      exact sub_le_self _ (hsize a (List.mem_cons_self ..))

/-- Nothing that has been left could be taken besides. -/
theorem left_lt_of_not_mem (hsize : ∀ b ∈ pre ++ a :: post, 0 ≤ size b) (hnodup : (pre ++ a :: post).Nodup)
    (hmay : may a) (hnot : a ∉ scan may size floor load (pre ++ a :: post)) :
    left size load (scan may size floor load pre) - size a < floor ∧
      left size load (scan may size floor load (pre ++ a :: post)) - size a < floor := by
  rw [mem_scan_iff hnodup, not_and, not_le] at hnot
  have hthen := hnot hmay
  refine ⟨hthen, lt_of_le_of_lt ?_ hthen⟩
  -- The load does not rise any more.
  rw [scan_append, left_append]
  apply sub_le_sub_right
  apply left_le
  intro b hb
  exact hsize b (List.mem_append_right _ (scan_sublist.subset hb))

end OFM.Lib.Greedy
