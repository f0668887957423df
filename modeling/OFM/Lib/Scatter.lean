import Mathlib.Algebra.BigOperators.Group.Finset.Basic
import Mathlib.Algebra.Order.BigOperators.Group.Finset
import Mathlib.Data.Multiset.Bind
import Mathlib.Logic.Relation

/-!
# Rounds in which one party's items are put to all others

A source is asked for its items, class by class. Each item that it answers with arrives at a coordinator,
which puts it to every sink, and every sink acknowledges the key of an item it has read. Where all classes
have been answered and as many acks counted as the items make, nothing is on the way any more.
-/

namespace OFM.Lib

/-- What is on the way in a round, and what it has come to: `given` are the items the source has answered
with, and `arrived`, `put` and `acked` those that have gone so far. -/
structure Scatter (M C κ ι : Type*) where
  asking : Multiset C
  answered : Multiset C
  counted : Multiset C
  arriving : Multiset κ
  waiting : Multiset κ
  putting : M → Multiset κ
  acking : M → Multiset ι
  given : Multiset κ
  arrived : Multiset κ
  put : M → Multiset κ
  acked : M → Multiset ι

namespace Scatter

variable {M C κ ι : Type*}

/-- A round before the source has read anything. -/
def start (classes : Multiset C) : Scatter M C κ ι :=
  ⟨classes, 0, 0, 0, 0, fun _ => 0, fun _ => 0, 0, 0, fun _ => 0, fun _ => 0⟩

/-- Where the items are. -/
structure Conserved (cls : ι → C) (key : κ → ι) (classes : Multiset C) (sinks : Finset M)
    (x : Scatter M C κ ι) : Prop where
  asks : x.asking + x.answered + x.counted = classes
  gives : ∀ j ∈ sinks, x.arriving + x.arrived = x.given
  accepts : ∀ j ∈ sinks, x.waiting + x.put j = x.arrived
  puts : ∀ j ∈ sinks, (x.putting j).map key + x.acking j + x.acked j = (x.put j).map key
  none : ∀ j ∉ sinks, x.putting j = 0 ∧ x.acking j = 0 ∧ x.put j = 0 ∧ x.acked j = 0
  given_cls : ∀ a ∈ x.given, cls (key a) ∈ x.answered + x.counted
  nodup : (x.given.map key).Nodup

variable {cls : ι → C} {key : κ → ι} {classes : Multiset C} {sinks : Finset M}
  {x x' : Scatter M C κ ι}

theorem conserved_start (cls : ι → C) (key : κ → ι) (classes : Multiset C) (sinks : Finset M) :
    Conserved cls key classes sinks (start classes) where
  asks := by simp [start]
  gives _ _ := by simp [start]
  accepts _ _ := by simp [start]
  puts _ _ := by simp [start]
  none _ _ := ⟨rfl, rfl, rfl, rfl⟩
  given_cls a ha := absurd ha (Multiset.notMem_zero a)
  nodup := by simp [start]

/-! ## Steps -/

section

variable [DecidableEq M]

/-- The same item for every sink. -/
def spread (sinks : Finset M) (a : κ) (f : M → Multiset κ) : M → Multiset κ :=
  fun j => if j ∈ sinks then a ::ₘ f j else f j

/-- One thing that happens in a round; an item is of the class of its key. -/
inductive Step (cls : ι → C) (key : κ → ι) (sinks : Finset M) (x : Scatter M C κ ι) :
    Scatter M C κ ι → Prop
  | answer {c rest items} (h : x.asking = c ::ₘ rest) (hcls : ∀ a ∈ items, cls (key a) = c)
      (hnodup : (items.map key).Nodup) : Step cls key sinks x { x with
        asking := rest
        answered := c ::ₘ x.answered
        arriving := x.arriving + items
        given := x.given + items }
  | count {c rest} (h : x.answered = c ::ₘ rest) : Step cls key sinks x { x with
        answered := rest
        counted := c ::ₘ x.counted }
  | accept {a rest} (h : x.arriving = a ::ₘ rest) : Step cls key sinks x { x with
        arriving := rest
        waiting := a ::ₘ x.waiting
        arrived := a ::ₘ x.arrived }
  | hand {a rest} (h : x.waiting = a ::ₘ rest) : Step cls key sinks x { x with
        waiting := rest
        putting := spread sinks a x.putting
        put := spread sinks a x.put }
  | read {j a rest} (h : x.putting j = a ::ₘ rest) : Step cls key sinks x { x with
        putting := Function.update x.putting j rest
        acking := Function.update x.acking j (key a ::ₘ x.acking j) }
  | ack {j k rest} (h : x.acking j = k ::ₘ rest) : Step cls key sinks x { x with
        acking := Function.update x.acking j rest
        acked := Function.update x.acked j (k ::ₘ x.acked j) }

theorem spread_of_notMem {f : M → Multiset κ} {a : κ} {j : M} (h : j ∉ sinks) :
    spread sinks a f j = f j := if_neg h

theorem spread_of_mem {f : M → Multiset κ} {a : κ} {j : M} (h : j ∈ sinks) :
    spread sinks a f j = a ::ₘ f j := if_pos h

theorem Conserved.step (h : Conserved cls key classes sinks x) (hclasses : classes.Nodup)
    (hs : Step cls key sinks x x') : Conserved cls key classes sinks x' := by
  cases hs with
  | @answer c rest items hask hcls hnodup =>
      refine { h with asks := ?_, gives := fun j hj => ?_, given_cls := fun a ha => ?_, nodup := ?_ }
      · rw [← h.asks, hask]
        simp only [Multiset.cons_add, Multiset.add_cons]
      · show x.arriving + items + x.arrived = x.given + items
        rw [← h.gives j hj, add_right_comm]
      · show cls (key a) ∈ c ::ₘ x.answered + x.counted
        rw [Multiset.cons_add]
        rcases Multiset.mem_add.mp ha with ha | ha
        · exact Multiset.mem_cons_of_mem (h.given_cls a ha)
        · rw [hcls a ha]
          exact Multiset.mem_cons_self c _
      · -- The class that is answered has not been answered before.
        have hnew : c ∉ x.answered + x.counted := by
          have hnodup := h.asks ▸ hclasses
          rw [hask, add_assoc, Multiset.cons_add, Multiset.nodup_cons] at hnodup
          exact fun hc => hnodup.1 (Multiset.mem_add.mpr (Or.inr hc))
        show ((x.given + items).map key).Nodup
        rw [Multiset.map_add, Multiset.nodup_add]
        refine ⟨h.nodup, hnodup, Multiset.disjoint_left.mpr fun {k} hk hk' => hnew ?_⟩
        obtain ⟨a, ha, rfl⟩ := Multiset.mem_map.mp hk
        obtain ⟨b, hb, he⟩ := Multiset.mem_map.mp hk'
        rw [← hcls b hb, he]
        exact h.given_cls a ha
  | @count c rest hans =>
      refine { h with asks := ?_, given_cls := fun a ha => ?_ }
      · rw [← h.asks, hans]
        simp only [Multiset.cons_add, Multiset.add_cons]
      · have hmem := h.given_cls a ha
        rw [hans, Multiset.cons_add] at hmem
        show cls (key a) ∈ rest + c ::ₘ x.counted
        rwa [Multiset.add_cons]
  | @accept a rest harr =>
      refine { h with gives := fun j hj => ?_, accepts := fun j hj => ?_ }
      · show rest + a ::ₘ x.arrived = x.given
        rw [← h.gives j hj, harr, Multiset.cons_add, Multiset.add_cons]
      · show a ::ₘ x.waiting + x.put j = a ::ₘ x.arrived
        rw [← h.accepts j hj, Multiset.cons_add]
  | @hand a rest hwait =>
      refine { h with accepts := fun j hj => ?_, puts := fun j hj => ?_, none := fun j hj => ?_ }
      · show rest + spread sinks a x.put j = x.arrived
        rw [← h.accepts j hj, hwait, spread_of_mem hj, Multiset.cons_add, Multiset.add_cons]
      · show (spread sinks a x.putting j).map key + x.acking j + x.acked j =
          (spread sinks a x.put j).map key
        rw [spread_of_mem hj, spread_of_mem hj, Multiset.map_cons, Multiset.map_cons, ← h.puts j hj]
        simp only [Multiset.cons_add]
      · show spread sinks a x.putting j = 0 ∧ x.acking j = 0 ∧ spread sinks a x.put j = 0 ∧ x.acked j = 0
        rw [spread_of_notMem hj, spread_of_notMem hj]
        exact h.none j hj
  | @read i a rest hput =>
      have hi : i ∈ sinks := by
        by_contra hi
        rw [(h.none i hi).1] at hput
        exact Multiset.zero_ne_cons hput
      refine { h with puts := fun j hj => ?_, none := fun j hj => ?_ }
      · show (Function.update x.putting i rest j).map key +
          Function.update x.acking i (key a ::ₘ x.acking i) j + x.acked j = (x.put j).map key
        rw [← h.puts j hj]
        by_cases hji : j = i
        · subst hji
          rw [Function.update_self, Function.update_self, hput, Multiset.map_cons]
          simp only [Multiset.cons_add, Multiset.add_cons]
        · rw [Function.update_of_ne hji, Function.update_of_ne hji]
      · have hji : j ≠ i := fun he => hj (he ▸ hi)
        show Function.update x.putting i rest j = 0 ∧
          Function.update x.acking i (key a ::ₘ x.acking i) j = 0 ∧ x.put j = 0 ∧ x.acked j = 0
        rw [Function.update_of_ne hji, Function.update_of_ne hji]
        exact h.none j hj
  | @ack i k rest hack =>
      have hi : i ∈ sinks := by
        by_contra hi
        rw [(h.none i hi).2.1] at hack
        exact Multiset.zero_ne_cons hack
      refine { h with puts := fun j hj => ?_, none := fun j hj => ?_ }
      · show (x.putting j).map key + Function.update x.acking i rest j +
          Function.update x.acked i (k ::ₘ x.acked i) j = (x.put j).map key
        rw [← h.puts j hj]
        by_cases hji : j = i
        · subst hji
          rw [Function.update_self, Function.update_self, hack]
          simp only [Multiset.cons_add, Multiset.add_cons]
        · rw [Function.update_of_ne hji, Function.update_of_ne hji]
      · have hji : j ≠ i := fun he => hj (he ▸ hi)
        show x.putting j = 0 ∧ Function.update x.acking i rest j = 0 ∧ x.put j = 0 ∧
          Function.update x.acked i (k ::ₘ x.acked i) j = 0
        rw [Function.update_of_ne hji, Function.update_of_ne hji]
        exact h.none j hj

theorem Conserved.steps (h : Conserved cls key classes sinks x) (hclasses : classes.Nodup)
    (hs : Relation.ReflTransGen (Step cls key sinks) x x') : Conserved cls key classes sinks x' := by
  induction hs with
  | refl => exact h
  | tail _ hs ih => exact ih.step hclasses hs

end

/-! ## The end of a round -/

/-- Of the keys of the items, those that a sink has not acked yet. -/
def missing (key : κ → ι) (x : Scatter M C κ ι) (j : M) : Multiset ι :=
  x.arriving.map key + x.waiting.map key + (x.putting j).map key + x.acking j

theorem Conserved.missing_add_acked (h : Conserved cls key classes sinks x) {j : M} (hj : j ∈ sinks) :
    x.missing key j + x.acked j = x.given.map key := by
  rw [← h.gives j hj, ← h.accepts j hj, Multiset.map_add, Multiset.map_add, ← h.puts j hj, missing]
  simp only [add_assoc]

theorem missing_eq_zero {j : M} : x.missing key j = 0 ↔
    x.arriving = 0 ∧ x.waiting = 0 ∧ x.putting j = 0 ∧ x.acking j = 0 := by
  simp [missing, and_assoc]

/-- How many acks there are for keys with a property, from all sinks. -/
def acks (sinks : Finset M) (x : Scatter M C κ ι) (P : ι → Prop) [DecidablePred P] : ℕ :=
  ∑ j ∈ sinks, (x.acked j).countP P

section

variable (P : ι → Prop) [DecidablePred P]

theorem Conserved.acked_le (h : Conserved cls key classes sinks x) {j : M} (hj : j ∈ sinks) :
    (x.acked j).countP P ≤ (x.given.map key).countP P := by
  rw [← h.missing_add_acked hj, Multiset.countP_add]
  exact Nat.le_add_left _ _

/-- There are as many acks as there are items and sinks exactly if no sink misses any. -/
theorem Conserved.acks_eq_iff (h : Conserved cls key classes sinks x) :
    x.acks sinks P = sinks.card * (x.given.map key).countP P ↔
      ∀ j ∈ sinks, (x.missing key j).countP P = 0 := by
  have hsum : sinks.card * (x.given.map key).countP P = ∑ _j ∈ sinks, (x.given.map key).countP P := by
    exact (Finset.sum_const_nat fun _ _ => rfl).symm
  rw [acks, hsum, Finset.sum_eq_sum_iff_of_le fun j hj => h.acked_le P hj]
  refine forall₂_congr fun j hj => ?_
  rw [← h.missing_add_acked hj, Multiset.countP_add]
  omega

theorem acks_ack [DecidableEq M] {j : M} {k : ι} (hj : j ∈ sinks) :
    acks sinks { x with acked := Function.update x.acked j (k ::ₘ x.acked j) } P =
      x.acks sinks P + if P k then 1 else 0 := by
  have hsum : ∀ y : Scatter M C κ ι, y.acks sinks P =
      (y.acked j).countP P + ∑ i ∈ sinks.erase j, (y.acked i).countP P :=
    fun y => (Finset.add_sum_erase sinks (fun i => (y.acked i).countP P) hj).symm
  have hrest : ∑ i ∈ sinks.erase j, (Function.update x.acked j (k ::ₘ x.acked j) i).countP P =
      ∑ i ∈ sinks.erase j, (x.acked i).countP P := by
    refine Finset.sum_congr rfl fun i hi => ?_
    rw [Function.update_of_ne (Finset.ne_of_mem_erase hi)]
  rw [hsum, hsum]
  dsimp only
  rw [hrest, Function.update_self, Multiset.countP_cons]
  omega

end

variable [DecidableEq C]

/-- When all classes have been counted, and as many acks as their items make, the round is over. -/
theorem Conserved.over (h : Conserved cls key classes sinks x) (hclasses : classes.Nodup)
    (hcounted : ∀ c ∈ classes, c ∈ x.counted)
    (hacks : ∀ c ∈ classes, x.acks sinks (fun k => cls k = c) =
      sinks.card * (x.given.map key).countP fun k => cls k = c) :
    x.asking = 0 ∧ x.answered = 0 ∧ ∀ j ∈ sinks, x.missing key j = 0 := by
  have hle : classes ≤ x.counted := (Multiset.le_iff_subset hclasses).mpr fun c hc => hcounted c hc
  have hcard := congrArg Multiset.card h.asks
  have hcard' := Multiset.card_le_card hle
  simp only [Multiset.card_add] at hcard
  refine ⟨Multiset.card_eq_zero.mp (by omega), Multiset.card_eq_zero.mp (by omega), fun j hj => ?_⟩
  refine Multiset.eq_zero_of_forall_notMem fun k hk => ?_
  have hgiven : k ∈ x.given.map key := by
    rw [← h.missing_add_acked hj]
    exact Multiset.mem_add.mpr (Or.inl hk)
  obtain ⟨a, ha, rfl⟩ := Multiset.mem_map.mp hgiven
  have hc : cls (key a) ∈ classes := by
    rw [← h.asks, add_assoc]
    exact Multiset.mem_add.mpr (Or.inr (h.given_cls a ha))
  have hnone := (h.acks_eq_iff fun k => cls k = cls (key a)).mp (hacks _ hc) j hj
  exact Multiset.countP_eq_zero.mp hnone _ hk rfl

end Scatter

end OFM.Lib
