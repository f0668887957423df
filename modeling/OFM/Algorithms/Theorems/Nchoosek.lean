import OFM.Algorithms.Scaling
import OFM.Lib.Computations
import OFM.Lib.Objects
import OFM.Lib.Sublists

/-!
# Combinations without harmful aliasing

The lists that `nchoosek` adds to are never the one that it has got, nor one that it has added to before: the
first of the calls within it is never handed as many elements as it has to choose. So the lists hold the combinations,
each in a place of its own.
-/

namespace OFM.OFMAlgorithm
open OFM.Lib

variable {α : Type} {source num frames : Nat} {elements : List α} {lists lists' : List (List α)} {refs : List Nat}
  {choices : List (List α)}

/-! ## Adding the last element -/

theorem addLast_eq {last : α} {ref : Nat} (hsource : lists[source]? = some (elements ++ [last]))
    (href : ref < lists.length) : addLast source lists ref = .ok (lists.modify ref (· ++ [last])) := by
  have hlast : get (elements ++ [last]) ((elements ++ [last]).length - 1) = .ok last := by
    have hlength : ((elements ++ [last]).length - 1 : Int) = elements.length := by simp
    rw [hlength]
    exact get_eq (by simp)
  rw [addLast, get_eq (List.getElem?_eq_getElem href), get_eq hsource]
  simp only [ok_bind, hlast]
  rfl

/-- The last element is added to each of the lists, none of which is the one that it comes from. -/
theorem foldlM_addLast {last : α} (hsource : lists[source]? = some (elements ++ [last]))
    (hrefs : ∀ ref ∈ refs, ref < lists.length) (hother : source ∉ refs) :
    refs.foldlM (addLast source) lists = .ok (Objects.changeAll (· ++ [last]) refs lists) := by
  induction refs generalizing lists with
  | nil => rfl
  | cons ref refs ih =>
      rw [List.forall_mem_cons] at hrefs
      rw [List.mem_cons, not_or] at hother
      rw [List.foldlM_cons, addLast_eq hsource hrefs.1, ok_bind, Objects.changeAll_cons]
      apply ih
      · rw [List.getElem?_modify_ne _ _ (Ne.symm hother.1), hsource]
      · simpa using hrefs.2
      · exact hother.2

/-! ## What a call does -/

/-- What the lists hold that are returned, in their order. -/
inductive Yields : List α → Nat → List (List α) → Prop
  | whole (elements : List α) : Yields elements elements.length [elements]
  | single (elements : List α) (h : elements.length ≠ 1) : Yields elements 1 (elements.map fun i => [i])
  | split {front : List α} {last : α} {num : Nat} {withLast withoutLast : List (List α)} (hnum : 0 < num)
      (h : num < front.length) (h₁ : Yields front num withLast) (h₂ : Yields front (num + 1) withoutLast) :
      Yields (front ++ [last]) (num + 1) (withLast.map (· ++ [last]) ++ withoutLast)

theorem Yields.enumerates (h : Yields elements num choices) : Enumerates elements num choices := by
  induction h with
  | whole elements => exact enumerates_self elements
  | single elements => exact enumerates_one elements
  | split _ _ _ _ ih₁ ih₂ => exact ih₁.snoc ih₂

/-- The values are those of the function on values. -/
theorem Yields.nchoosek_eq {elements : List Nat} {choices : List (List Nat)} (h : Yields elements num choices) :
    nchoosek elements num = .ok choices := by
  induction h with
  | whole elements => rw [nchoosek, if_pos rfl]
  | single elements h => rw [nchoosek, if_neg h, if_neg (Nat.lt_irrefl 1)]
  | @split front last num withLast withoutLast hnum h _ _ ih₁ ih₂ =>
      have hne : front ++ [last] ≠ [] := by simp
      have hlength : (front ++ [last]).length ≠ num + 1 := by simpa using h.ne'
      rw [nchoosek, if_neg hlength, if_pos (Nat.succ_lt_succ hnum), dif_neg hne, List.dropLast_concat,
        List.getLast_concat, Nat.add_sub_cancel, ih₁, ih₂]
      rfl

/-- The lists after a call of `nchoosek`, and those it has returned. -/
structure Returned (source num : Nat) (elements : List α) (lists : List (List α)) (refs : List Nat)
    (lists' : List (List α)) (choices : List (List α)) : Prop where
  yields : Yields elements num choices
  holds : Objects.Holds lists' refs choices
  kept : lists <+: lists'
  nodup : refs.Nodup
  new : elements.length = num ∧ refs = [source] ∨ elements.length ≠ num ∧ ∀ ref ∈ refs, lists.length ≤ ref

theorem Returned.new_of_ne (h : Returned source num elements lists refs lists' choices) (hne : elements.length ≠ num) :
    ∀ ref ∈ refs, lists.length ≤ ref := by
  cases h.new with
  | inl hwhole => exact absurd hwhole.1 hne
  | inr hnew => exact hnew.2

/-- Both calls on a list without its last element, which has been added between them to the lists of the first. -/
theorem Returned.split {front : List α} {last : α} {refs₁ refs₂ : List Nat} {lists₁ lists₂ : List (List α)}
    {withLast withoutLast : List (List α)} (hnum : 0 < num) (hlt : num < front.length)
    (h₁ : Returned lists.length num front (lists ++ [front]) refs₁ lists₁ withLast)
    (h₂ : Returned lists.length (num + 1) front (Objects.changeAll (· ++ [last]) refs₁ lists₁) refs₂ lists₂
      withoutLast) :
    Returned source (num + 1) (front ++ [last]) lists (refs₁ ++ refs₂) lists₂
      (withLast.map (· ++ [last]) ++ withoutLast) := by
  have hnew₁ := h₁.new_of_ne hlt.ne'
  have hlt₁ := h₁.holds.lt
  rw [List.length_append, List.length_singleton] at hnew₁
  -- Those of the second call are the list it has got, or newer than those of the first.
  have hnew₂ : ∀ ref ∈ refs₂, ref = lists.length ∨ lists₁.length ≤ ref := by
    intro ref href
    cases h₂.new with
    | inl hwhole =>
        left
        simpa [hwhole.2] using href
    | inr hnew =>
        right
        simpa using hnew.2 ref href
  have hkept₁ : lists <+: Objects.changeAll (· ++ [last]) refs₁ lists₁ := by
    apply Objects.prefix_changeAll
    · exact (List.prefix_append lists [front]).trans h₁.kept
    · intro ref href
      have := hnew₁ ref href
      omega
  have hlength : lists.length < lists₁.length := by
    have := h₁.kept.length_le
    rw [List.length_append, List.length_singleton] at this
    omega
  exact {
    yields := Yields.split hnum hlt h₁.yields h₂.yields
    holds := by
      apply Objects.Holds.append
      · exact (h₁.holds.changeAll h₁.nodup).mono h₂.kept
      · exact h₂.holds
    kept := hkept₁.trans h₂.kept
    nodup := by
      apply List.nodup_append'.mpr
      refine ⟨h₁.nodup, h₂.nodup, ?_⟩
      intro ref href href'
      have hge := hnew₁ ref href
      have hless := hlt₁ ref href
      cases hnew₂ ref href' <;> omega
    new := by
      right
      refine ⟨by simpa using hlt.ne', ?_⟩
      intro ref href
      cases List.mem_append.mp href with
      | inl href =>
          have := hnew₁ ref href
          omega
      | inr href => cases hnew₂ ref href <;> omega }

/-- With a frame for each element, `nchoosek` returns. -/
theorem nchoosekIn_returns (hsource : lists[source]? = some elements) (hnum : 0 < num)
    (hle : num ≤ elements.length) (hframes : elements.length ≤ frames) :
    ∃ refs lists' choices, nchoosekIn frames source num lists = .ok (refs, lists') ∧
      Returned source num elements lists refs lists' choices := by
  induction frames generalizing source num elements lists with
  | zero => omega
  | succ frames ih =>
      rw [nchoosekIn, get_eq hsource]
      simp only [ok_bind]
      by_cases hwhole : elements.length = num
      · rw [if_pos hwhole]
        subst hwhole
        refine ⟨[source], lists, [elements], rfl, Yields.whole elements, ?_, List.prefix_rfl, ?_, Or.inl ⟨rfl, rfl⟩⟩
        · exact List.Forall₂.cons hsource List.Forall₂.nil
        · simp
      · rw [if_neg hwhole]
        by_cases hlarge : 1 < num
        · rw [if_pos hlarge]
          obtain ⟨num, rfl⟩ : ∃ n, num = n + 1 := ⟨num - 1, by omega⟩
          have hne : elements ≠ [] := by
            rintro rfl
            simp at hle
          obtain ⟨front, last, rfl⟩ : ∃ front last, elements = front ++ [last] :=
            ⟨_, _, (List.dropLast_append_getLast hne).symm⟩
          rw [List.length_append, List.length_singleton] at hwhole hle hframes
          have hlt : num < front.length := by omega
          have hparam : (lists ++ [front])[lists.length]? = some front := by simp
          rw [List.dropLast_concat, Nat.add_sub_cancel]
          obtain ⟨refs₁, lists₁, withLast, heq₁, h₁⟩ := @ih _ num _ _ hparam (by omega) (by omega) (by omega)
          have hnew₁ := h₁.new_of_ne hlt.ne'
          rw [List.length_append, List.length_singleton] at hnew₁
          -- The list that the last element is read from, and the one that is handed on, are none of these.
          have hadd : refs₁.foldlM (addLast source) lists₁ = .ok (Objects.changeAll (· ++ [last]) refs₁ lists₁) := by
            apply foldlM_addLast
            · exact Objects.getElem?_of_prefix ((List.prefix_append lists [front]).trans h₁.kept) hsource
            · exact h₁.holds.lt
            · intro hmem
              have hold := (List.getElem?_eq_some_iff.mp hsource).1
              have := hnew₁ _ hmem
              omega
          have hparam₂ : (Objects.changeAll (· ++ [last]) refs₁ lists₁)[lists.length]? = some front := by
            rw [Objects.changeAll_other]
            · exact Objects.getElem?_of_prefix h₁.kept hparam
            · intro hmem
              have := hnew₁ _ hmem
              omega
          obtain ⟨refs₂, lists₂, withoutLast, heq₂, h₂⟩ := ih hparam₂ hnum (by omega) (by omega)
          refine ⟨_, _, _, ?_, Returned.split (by omega) hlt h₁ h₂⟩
          simp only [heq₁, ok_bind, hadd, heq₂]
          rfl
        · rw [if_neg hlarge]
          obtain rfl : num = 1 := by omega
          refine ⟨_, _, _, rfl, Yields.single elements hwhole, ?_, List.prefix_append .., List.nodup_range', ?_⟩
          · have hnew := Objects.holds_append lists (elements.map fun i => [i])
            rwa [List.length_map] at hnew
          · right
            refine ⟨hwhole, fun ref href => ?_⟩
            exact (List.mem_range'_1.mp href).1

/-- What the lists hold is what the function on values yields, which `ScaleOutBest` goes through. -/
theorem nchoosekIn_nchoosek {elements : List Nat} {lists : List (List Nat)} (hsource : lists[source]? = some elements)
    (hnum : 0 < num) (hle : num ≤ elements.length) (hframes : elements.length ≤ frames) :
    ∃ refs lists' choices, nchoosekIn frames source num lists = .ok (refs, lists') ∧
      Objects.Holds lists' refs choices ∧ nchoosek elements num = .ok choices := by
  obtain ⟨refs, lists', choices, heq, h⟩ := nchoosekIn_returns hsource hnum hle hframes
  exact ⟨refs, lists', choices, heq, h.holds, h.yields.nchoosek_eq⟩

/-! ## The combinations -/

/-- What `nchoosek` has returned. -/
structure Combinations (source num : Nat) (elements : List α) (lists : List (List α)) (refs : List Nat)
    (lists' : List (List α)) (choices : List (List α)) : Prop where
  /-- The lists that are returned, in their order. -/
  holds : Objects.Holds lists' refs choices
  /-- The sublists of the length, in the order of the elements. -/
  each : ∀ choice, choice ∈ choices ↔ choice.Sublist elements ∧ choice.length = num
  once : choices.Nodup
  /-- The argument, and any other list there was, is as it was. -/
  kept : ∀ (ref : Nat) (list : List α), lists[ref]? = some list → lists'[ref]? = some list
  /-- The argument is returned only where all is chosen, and is then the only list. -/
  aliased : source ∈ refs ↔ elements.length = num
  only : source ∈ refs → refs = [source]
  /-- Every other list that is returned is a new one. -/
  new : ∀ ref ∈ refs, ref ≠ source → lists.length ≤ ref
  /-- Whatever is done to one of the lists that are returned, the others and the argument stay. -/
  apart : ∀ (i ref j ref' : Nat) (change : List α → List α), refs[i]? = some ref → refs[j]? = some ref' → i ≠ j →
    (lists'.modify ref change)[ref']? = lists'[ref']?
  argument : ∀ ref ∈ refs, ref ≠ source → ∀ change : List α → List α,
    (lists'.modify ref change)[source]? = some elements

theorem Returned.combinations (h : Returned source num elements lists refs lists' choices) (hnodup : elements.Nodup)
    (hsource : lists[source]? = some elements) : Combinations source num elements lists refs lists' choices := by
  have hold := (List.getElem?_eq_some_iff.mp hsource).1
  have hkept : ∀ (ref : Nat) (list : List α), lists[ref]? = some list → lists'[ref]? = some list :=
    fun _ _ => Objects.getElem?_of_prefix h.kept
  have hwhole : source ∈ refs → elements.length = num ∧ refs = [source] := by
    intro hmem
    cases h.new with
    | inl hwhole => exact hwhole
    | inr hnew => exact absurd (hnew.2 source hmem) (Nat.not_le.mpr hold)
  exact {
    holds := h.holds
    each := h.yields.enumerates.mem
    once := h.yields.enumerates.nodup hnodup
    kept := hkept
    aliased := by
      constructor
      · exact fun hmem => (hwhole hmem).1
      · intro hlength
        cases h.new with
        | inl hwhole => simp [hwhole.2]
        | inr hnew => exact absurd hlength hnew.1
    only := fun hmem => (hwhole hmem).2
    new := by
      intro ref href hne
      cases h.new with
      | inl hwhole =>
          rw [hwhole.2, List.mem_singleton] at href
          exact absurd href hne
      | inr hnew => exact hnew.2 ref href
    apart := by
      intro i ref j ref' change hi hj hij
      apply List.getElem?_modify_ne
      rintro rfl
      obtain ⟨hlt, hi⟩ := List.getElem?_eq_some_iff.mp hi
      obtain ⟨hlt', hj⟩ := List.getElem?_eq_some_iff.mp hj
      exact hij (h.nodup.getElem_inj_iff.mp (hi.trans hj.symm))
    argument := by
      intro ref href hne change
      rw [List.getElem?_modify_ne _ _ hne, hkept source elements hsource] }

theorem nchoosek_combinations (source num frames : Nat) (elements : List α) (lists : List (List α))
    (hsource : lists[source]? = some elements) (hnodup : elements.Nodup) (hnum : 1 ≤ num)
    (hle : num ≤ elements.length) (hframes : elements.length ≤ frames) :
    ∃ refs lists' choices, nchoosekIn frames source num lists = .ok (refs, lists') ∧
      Combinations source num elements lists refs lists' choices := by
  obtain ⟨refs, lists', choices, heq, h⟩ := nchoosekIn_returns hsource hnum hle hframes
  exact ⟨refs, lists', choices, heq, h.combinations hnodup hsource⟩

/-- Two of three, where the first call within is handed two elements to choose one of. -/
theorem nchoosek_combinations_two_of_three :
    ∃ refs lists' choices, nchoosekIn 3 1 2 [[0], [7, -2, 5]] = .ok (refs, lists') ∧
      Combinations 1 2 ([7, -2, 5] : List Int) [[0], [7, -2, 5]] refs lists' choices :=
  nchoosek_combinations 1 2 3 _ _ rfl (by decide) (by decide) (by decide) (by decide)

example : nchoosekIn 3 1 2 [[0], [7, -2, 5]] = .ok ([3, 4, 2], [[0], [7, -2, 5], [7, -2], [7, 5], [-2, 5]]) := by
  decide

end OFM.OFMAlgorithm
