import Mathlib.Data.List.Basic
import Mathlib.Tactic.TypeStar

/-!
# Computations

What a computation that can fail comes to: a value with a property, or a failure that is allowed. One rule for each
way of putting computations together, and invariants for loops over a list. Besides, a value together with the list of
things emitted on the way to it.
-/

namespace OFM.Lib

/-! ## Computations that can fail -/

section Fallible

universe u v

variable {ε : Type u} {α β : Type v} {allowed : ε → Prop} {P Q : α → Prop}

/-- The computation ends with a value that satisfies the property or with a failure that is allowed. -/
def Ends (allowed : ε → Prop) (x : Except ε α) (P : α → Prop) : Prop :=
  match x with
  | .ok a => P a
  | .error e => allowed e

theorem ok_bind (a : α) (f : α → Except ε β) : (Except.ok a >>= f) = f a := rfl

/-- A sequence of two ends with a value if both of them do. -/
theorem bind_eq_ok {x : Except ε α} {f : α → Except ε β} {b : β} :
    (x >>= f) = .ok b ↔ ∃ a, x = .ok a ∧ f a = .ok b := by
  cases x with
  | error e => simp [Bind.bind, Except.bind]
  | ok a => simp [Bind.bind, Except.bind]

theorem map_eq_ok {x : Except ε α} {f : α → β} {b : β} : x.map f = .ok b ↔ ∃ a, x = .ok a ∧ f a = b := by
  cases x with
  | error e => simp [Except.map]
  | ok a => simp [Except.map]

namespace Ends

@[simp] theorem ok_iff {a : α} : Ends allowed (.ok a) P ↔ P a := Iff.rfl

@[simp] theorem pure_iff {a : α} : Ends allowed (pure a : Except ε α) P ↔ P a := Iff.rfl

@[simp] theorem error_iff {e : ε} : Ends allowed (.error e : Except ε α) P ↔ allowed e := Iff.rfl

theorem mono {x : Except ε α} (h : Ends allowed x P) (hPQ : ∀ a, P a → Q a) : Ends allowed x Q := by
  cases x with
  | ok a => exact hPQ a h
  | error e => exact h

theorem and {x : Except ε α} (h : Ends allowed x P) (h' : Ends allowed x Q) :
    Ends allowed x fun a => P a ∧ Q a := by
  cases x with
  | ok a => exact ⟨h, h'⟩
  | error e => exact h

/-- Nothing is said of any outcome. -/
theorem any (x : Except ε α) : Ends (fun _ => True) x fun _ => True := by
  cases x <;> trivial

/-- What holds of every value joins what is known besides. -/
theorem and_any {x : Except ε α} (h : Ends (fun _ => True) x P) (h' : Ends allowed x Q) :
    Ends allowed x fun a => P a ∧ Q a := by
  cases x with
  | ok a => exact ⟨h, h'⟩
  | error e => exact h'

/-- The value of a computation that has one. -/
theorem of_eq {x : Except ε α} {a : α} (h : Ends allowed x P) (hx : x = .ok a) : P a := by
  subst hx
  exact h

theorem of_toOption {x : Except ε α} {a : α} (h : Ends allowed x P) (hx : x.toOption = some a) : P a := by
  cases x with
  | ok b => exact Option.some.inj hx ▸ h
  | error e => cases hx

theorem bind {x : Except ε α} {f : α → Except ε β} {R : β → Prop} (h : Ends allowed x P)
    (hf : ∀ a, P a → Ends allowed (f a) R) : Ends allowed (x >>= f) R := by
  cases x with
  | ok a => exact hf a h
  | error e => exact h

theorem ite {c : Prop} [Decidable c] {x y : Except ε α} (hx : c → Ends allowed x P)
    (hy : ¬ c → Ends allowed y P) : Ends allowed (if c then x else y) P := by
  split
  · exact hx ‹_›
  · exact hy ‹_›

/-- A loop over a list keeps an invariant that speaks of the elements to come; each round begins where those
before it have led. -/
theorem foldlM_reached {f : β → α → Except ε β} (I : List α → β → Prop) {l : List α} {b : β} (h₀ : I l b)
    (hstep : ∀ pre a rest b', l = pre ++ a :: rest → pre.foldlM f b = .ok b' → I (a :: rest) b' →
      Ends allowed (f b' a) (I rest)) : Ends allowed (l.foldlM f b) (I []) := by
  suffices h : ∀ (rest pre : List α) (b' : β), l = pre ++ rest → pre.foldlM f b = .ok b' → I rest b' →
      Ends allowed (rest.foldlM f b') (I []) from h l [] b rfl rfl h₀
  intro rest
  induction rest with
  | nil => exact fun _ b _ _ h => h
  | cons a rest ih =>
      intro pre b' hl hpre h
      have hround := hstep pre a rest b' hl hpre h
      rw [List.foldlM_cons]
      cases hb : f b' a with
      | error e =>
          rw [hb] at hround
          exact hround
      | ok b'' =>
          rw [hb] at hround
          refine ih (pre ++ [a]) b'' ?_ ?_ hround
          · rw [hl, List.append_assoc, List.singleton_append]
          · rw [List.foldlM_append, hpre, ok_bind, List.foldlM_cons, hb]
            rfl

theorem foldlM {f : β → α → Except ε β} (I : List α → β → Prop) {l : List α} {b : β} (h₀ : I l b)
    (hstep : ∀ a rest b, (∃ pre, l = pre ++ a :: rest) → I (a :: rest) b →
      Ends allowed (f b a) (I rest)) : Ends allowed (l.foldlM f b) (I []) :=
  foldlM_reached I h₀ fun pre a rest b' hl _ h => hstep a rest b' ⟨pre, hl⟩ h

/-- One value for each element of a list. -/
theorem mapM {f : α → Except ε β} {R : α → β → Prop} {l : List α}
    (h : ∀ a ∈ l, Ends allowed (f a) (R a)) : Ends allowed (l.mapM f) (List.Forall₂ R l) := by
  induction l with
  | nil => exact List.Forall₂.nil
  | cons a l ih =>
      rw [List.mapM_cons]
      refine Ends.bind (h a (List.mem_cons_self ..)) fun b hb => ?_
      refine Ends.bind (ih fun a ha => h a (List.mem_cons_of_mem _ ha)) fun bs hbs => ?_
      exact List.Forall₂.cons hb hbs

/-- A loop over a list keeps an invariant that does not speak of the elements to come. -/
theorem foldlM_const {f : β → α → Except ε β} (I : β → Prop) {l : List α} {b : β} (h₀ : I b)
    (hstep : ∀ a ∈ l, ∀ b, I b → Ends allowed (f b a) I) : Ends allowed (l.foldlM f b) I := by
  refine foldlM (fun _ => I) h₀ ?_
  rintro a rest b ⟨pre, rfl⟩ h
  exact hstep a (List.mem_append_right _ (List.mem_cons_self ..)) b h

end Ends

end Fallible

/-! ## Computations that emit -/

@[ext]
structure Emit (ω α : Type) where
  val : α
  out : List ω
  deriving DecidableEq

namespace Emit

variable {ω α β : Type}

instance : Monad (Emit ω) where
  pure a := ⟨a, []⟩
  bind x f := ⟨(f x.val).val, x.out ++ (f x.val).out⟩

/-- Emits a list and leaves the value alone. -/
def emit (a : α) (out : List ω) : Emit ω α := ⟨a, out⟩

/-- The same computation, its value put another way. -/
def map (f : α → β) (x : Emit ω α) : Emit ω β := ⟨f x.val, x.out⟩

@[simp] theorem map_val (f : α → β) (x : Emit ω α) : (x.map f).val = f x.val := rfl

@[simp] theorem map_out (f : α → β) (x : Emit ω α) : (x.map f).out = x.out := rfl

@[simp] theorem pure_val (a : α) : (pure a : Emit ω α).val = a := rfl

@[simp] theorem pure_out (a : α) : (pure a : Emit ω α).out = [] := rfl

@[simp] theorem bind_val (x : Emit ω α) (f : α → Emit ω β) : (x >>= f).val = (f x.val).val := rfl

@[simp] theorem bind_out (x : Emit ω α) (f : α → Emit ω β) :
    (x >>= f).out = x.out ++ (f x.val).out := rfl

@[simp] theorem emit_val (a : α) (out : List ω) : (emit a out).val = a := rfl

@[simp] theorem emit_out (a : α) (out : List ω) : (emit a out).out = out := rfl

end Emit

end OFM.Lib
