import Mathlib.Data.List.Nodup
import Mathlib.Data.List.Basic

/-!
# Queues whose elements come back

A queue is worked off from its head. What is tried gets through, goes to the end of the queue, or is lost, and
this may be different at each attempt. When everything gets through in the order in which it stands.
-/

namespace OFM.Lib.Rotation

inductive Fate where
  | through
  | again
  | lost
  deriving DecidableEq

variable {α : Type*}

section Drain

variable (fate : Nat → α → Fate)

/-- What gets through until the queue is empty; attempts are numbered from `k`, and there is fuel. -/
def drain : Nat → Nat → List α → Option (List α)
  | 0, _, _ => none
  | _ + 1, _, [] => some []
  | fuel + 1, k, a :: as =>
      match fate k a with
      | .through => (drain fuel (k + 1) as).map (a :: ·)
      | .again => drain fuel (k + 1) (as ++ [a])
      | .lost => drain fuel (k + 1) as

/-- All elements go to the end, one after the other. -/
def Round (k : Nat) : List α → Prop
  | [] => True
  | a :: as => fate k a = .again ∧ Round (k + 1) as

/-- Each element gets through when it is at the head, after rounds of all that are left. -/
inductive InTurn : Nat → List α → Prop where
  | nil {k} : InTurn k []
  | through {k a as} (h : fate k a = .through) (hs : InTurn (k + 1) as) : InTurn k (a :: as)
  | round {k as} (h : Round fate k as) (hs : InTurn (k + as.length) as) : InTurn k as

end Drain

variable {fate : Nat → α → Fate} {fuel k : Nat} {a : α} {as bs out : List α}

theorem drain_through (h : fate k a = .through) :
    drain fate (fuel + 1) k (a :: as) = (drain fate fuel (k + 1) as).map (a :: ·) := by
  rw [drain, h]

theorem drain_again (h : fate k a = .again) :
    drain fate (fuel + 1) k (a :: as) = drain fate fuel (k + 1) (as ++ [a]) := by
  rw [drain, h]

theorem drain_lost (h : fate k a = .lost) :
    drain fate (fuel + 1) k (a :: as) = drain fate fuel (k + 1) as := by
  rw [drain, h]

/-- Nothing gets through that has not been in the queue. -/
theorem mem_of_drain {x : α} (h : drain fate fuel k as = some out) (hx : x ∈ out) : x ∈ as := by
  induction fuel generalizing k as out with
  | zero => cases h
  | succ fuel ih =>
      cases as with
      | nil =>
          cases h
          exact hx
      | cons a as =>
          cases hf : fate k a with
          | through =>
              rw [drain_through hf] at h
              obtain ⟨rest, hrest, rfl⟩ := Option.map_eq_some_iff.mp h
              rcases List.mem_cons.mp hx with rfl | hx
              · exact List.mem_cons_self
              · exact List.mem_cons_of_mem a (ih hrest hx)
          | again =>
              rw [drain_again hf] at h
              have hmem := ih h hx
              rw [List.mem_append, List.mem_singleton] at hmem
              exact List.mem_cons.mpr hmem.symm
          | lost =>
              rw [drain_lost hf] at h
              exact List.mem_cons_of_mem a (ih h hx)

/-! ## Whole rounds -/

/-- A round costs one attempt for each element. -/
theorem drain_round (fuel : Nat) (bs : List α) (h : Round fate k as) :
    drain fate (fuel + as.length) k (as ++ bs) = drain fate fuel (k + as.length) (bs ++ as) := by
  induction as generalizing k bs with
  | nil => simp
  | cons a as ih =>
      obtain ⟨ha, has⟩ := h
      have hlength : k + (as.length + 1) = k + 1 + as.length := by omega
      rw [List.length_cons, ← Nat.add_assoc, List.cons_append, drain_again ha, List.append_assoc, ih _ has,
        List.append_assoc, hlength]
      rfl

/-- When all that is left comes out in the order in which it was at first, what is tried first is let through,
or a round is made. -/
theorem inTurn_of_drain (bs as : List α) (hd : (bs ++ as).Nodup) (hne : bs = [] → as = [])
    (h : drain fate fuel k (as ++ bs) = some (bs ++ as)) :
    Round fate k as ∧ InTurn fate (k + as.length) (bs ++ as) := by
  induction fuel generalizing k bs as with
  | zero => cases h
  | succ fuel ih =>
      cases as with
      | nil =>
          refine ⟨trivial, ?_⟩
          rw [List.append_nil] at h hd ⊢
          cases bs with
          | nil => exact .nil
          | cons b bs =>
              rw [List.nil_append] at h
              cases hf : fate k b with
              | through =>
                  rw [drain_through hf] at h
                  obtain ⟨rest, hrest, hout⟩ := Option.map_eq_some_iff.mp h
                  cases hout
                  have hrec := ih bs [] (by simpa using hd.of_cons) (fun _ => rfl)
                    (by simpa using hrest)
                  exact .through hf (by simpa using hrec.2)
              | again =>
                  rw [drain_again hf] at h
                  have hrec := ih [b] bs hd (by simp) h
                  refine InTurn.round ⟨hf, hrec.1⟩ ?_
                  have hlength : k + (b :: bs).length = k + 1 + bs.length := by
                    rw [List.length_cons]
                    omega
                  have hend := hrec.2
                  rw [← hlength] at hend
                  exact hend
              | lost =>
                  rw [drain_lost hf] at h
                  exact absurd (mem_of_drain h List.mem_cons_self) (List.nodup_cons.mp hd).1
      | cons a as =>
          obtain ⟨b, bs, rfl⟩ : ∃ b bs', bs = b :: bs' := by
            cases bs with
            | nil => cases hne rfl
            | cons b bs => exact ⟨b, bs, rfl⟩
          have hab : a ∉ b :: bs := fun hmem =>
            (List.disjoint_of_nodup_append hd hmem) List.mem_cons_self
          rw [List.cons_append] at h
          cases hf : fate k a with
          | through =>
              rw [drain_through hf] at h
              obtain ⟨rest, -, hout⟩ := Option.map_eq_some_iff.mp h
              cases hout
              exact absurd List.mem_cons_self hab
          | again =>
              rw [drain_again hf, List.append_assoc] at h
              have hrec := ih (b :: bs ++ [a]) as (by simpa using hd) (by simp) (by simpa using h)
              have hlength : k + (a :: as).length = k + 1 + as.length := by
                rw [List.length_cons]
                omega
              refine ⟨⟨hf, hrec.1⟩, ?_⟩
              rw [hlength]
              simpa using hrec.2
          | lost =>
              rw [drain_lost hf] at h
              have hmem := mem_of_drain (x := a) h (by simp)
              rw [List.mem_append] at hmem
              rcases hmem with hmem | hmem
              · exact absurd hmem (List.nodup_cons.mp (List.nodup_append.mp hd).2.1).1
              · exact absurd hmem hab

theorem drain_of_inTurn (h : InTurn fate k as) : ∃ fuel, drain fate fuel k as = some as := by
  induction h with
  | nil => exact ⟨1, rfl⟩
  | through h _ ih =>
      obtain ⟨fuel, hfuel⟩ := ih
      exact ⟨fuel + 1, by rw [drain_through h, hfuel]; rfl⟩
  | @round k as h _ ih =>
      obtain ⟨fuel, hfuel⟩ := ih
      refine ⟨fuel + as.length, ?_⟩
      have hround := drain_round fuel [] h
      rw [List.append_nil, List.nil_append, hfuel] at hround
      exact hround

/-- Everything gets through, once and in its order, exactly when each element has its turn. -/
theorem drain_iff (hd : as.Nodup) : (∃ fuel, drain fate fuel k as = some as) ↔ InTurn fate k as := by
  constructor
  · rintro ⟨fuel, h⟩
    have hturn := inTurn_of_drain as [] (by simpa using hd) (fun _ => rfl) (by simpa using h)
    simpa using hturn.2
  · exact drain_of_inTurn

/-- What always comes back keeps the queue from becoming empty. -/
theorem drain_stuck (fuel k : Nat) (h : ∀ k, ∀ a ∈ as, fate k a = .again) (hne : as ≠ []) :
    drain fate fuel k as = none := by
  induction fuel generalizing k as with
  | zero => rfl
  | succ fuel ih =>
      cases as with
      | nil => exact absurd rfl hne
      | cons a as =>
          rw [drain_again (h k a List.mem_cons_self)]
          refine ih _ (fun k x hx => h k x ?_) (by simp)
          rw [List.mem_append, List.mem_singleton] at hx
          exact List.mem_cons.mpr hx.symm

end OFM.Lib.Rotation
