import Mathlib.Data.List.Induction

/-!
# Labelled machines

A machine is a step function `σ → α → Option σ`: the state an action leads to, or nothing where the
action is not enabled. Runs, what holds after every run, what has held at some moment of one, and what its steps
add up to.
-/

namespace OFM.Lib.Machine

variable {σ α : Type*} {step : σ → α → Option σ} {s s' : σ} {a : α} {as bs : List α}

/-- The state after the actions, if each of them is enabled in turn. -/
def run (step : σ → α → Option σ) : σ → List α → Option σ
  | s, [] => some s
  | s, a :: as => (step s a).bind fun s' => run step s' as

@[simp] theorem run_nil : run step s [] = some s := rfl

@[simp] theorem run_cons : run step s (a :: as) = (step s a).bind fun s' => run step s' as := rfl

theorem run_append : run step s (as ++ bs) = (run step s as).bind fun s' => run step s' bs := by
  induction as generalizing s with
  | nil => rfl
  | cons a as ih =>
      simp only [List.cons_append, run_cons]
      cases step s a with
      | none => rfl
      | some t => exact ih

theorem run_append_eq_some :
    run step s (as ++ bs) = some s' ↔ ∃ t, run step s as = some t ∧ run step t bs = some s' := by
  rw [run_append, Option.bind_eq_some_iff]

theorem run_snoc_eq_some :
    run step s (as ++ [a]) = some s' ↔ ∃ t, run step s as = some t ∧ step t a = some s' := by
  rw [run_append_eq_some]
  simp

/-- Every step of the run meets `ok` in the state it is taken from. -/
def Along (step : σ → α → Option σ) (ok : σ → α → Prop) (s : σ) (as : List α) : Prop :=
  ∀ pre a suf t, as = pre ++ a :: suf → run step s pre = some t → ok t a

theorem along_nil {ok : σ → α → Prop} : Along step ok s [] := by
  intro pre a suf t he
  simp at he

theorem along_cons {ok : σ → α → Prop} :
    Along step ok s (a :: as) ↔ ok s a ∧ ∀ t, step s a = some t → Along step ok t as := by
  constructor
  · intro h
    refine ⟨h [] a as s rfl rfl, fun t ht pre b suf u he hr => ?_⟩
    exact h (a :: pre) b suf u (by rw [he]; rfl) (by rw [run_cons, ht]; exact hr)
  · rintro ⟨h₁, h₂⟩ pre b suf u he hr
    cases pre with
    | nil =>
        obtain ⟨rfl, rfl⟩ := List.cons.inj he
        cases hr; exact h₁
    | cons c pre =>
        obtain ⟨rfl, rfl⟩ := List.cons.inj he
        obtain ⟨t, ht, hr⟩ := Option.bind_eq_some_iff.mp hr
        exact h₂ t ht pre b suf u rfl hr

/-- A run can be looked at. -/
instance decidableAlong {ok : σ → α → Prop} [∀ s a, Decidable (ok s a)] :
    (s : σ) → (as : List α) → Decidable (Along step ok s as)
  | _, [] => .isTrue along_nil
  | s, a :: as =>
      match h : step s a with
      | none => decidable_of_iff (ok s a) (by simp [along_cons, h])
      | some t =>
          have : Decidable (Along step ok t as) := decidableAlong t as
          decidable_of_iff (ok s a ∧ Along step ok t as) (by simp [along_cons, h])

theorem Along.of_snoc {ok : σ → α → Prop} (h : Along step ok s (as ++ [a])) :
    Along step ok s as := by
  intro pre b suf t he hr
  exact h pre b (suf ++ [a]) t (by simp [he]) hr

theorem Along.last {ok : σ → α → Prop} {t : σ} (h : Along step ok s (as ++ [a]))
    (hr : run step s as = some t) : ok t a :=
  h as a [] t rfl hr

theorem along_snoc {ok : σ → α → Prop} :
    Along step ok s (as ++ [a]) ↔ Along step ok s as ∧ ∀ t, run step s as = some t → ok t a := by
  refine ⟨fun h => ⟨h.of_snoc, fun t ht => h.last ht⟩, ?_⟩
  rintro ⟨h, hlast⟩ pre b suf t he hr
  rcases List.eq_nil_or_concat suf with rfl | ⟨suf, c, rfl⟩
  · obtain ⟨rfl, he'⟩ := List.append_inj' he rfl
    obtain ⟨rfl, -⟩ := List.cons.inj he'
    exact hlast t hr
  · rw [List.concat_eq_append, ← List.cons_append, ← List.append_assoc] at he
    obtain ⟨he, -⟩ := List.append_inj' he rfl
    exact h pre b suf t he hr

/-- Where it is up to the action alone what is permitted. -/
theorem along_action_iff {ok : α → Prop} (hr : run step s as = some s') :
    Along step (fun _ => ok) s as ↔ ∀ a ∈ as, ok a := by
  constructor
  · intro h a ha
    obtain ⟨pre, suf, rfl⟩ := List.append_of_mem ha
    obtain ⟨t, ht, -⟩ := run_append_eq_some.mp hr
    exact h pre a suf t rfl ht
  · rintro h pre a suf t rfl -
    exact h a (List.mem_append_right pre List.mem_cons_self)

/-- A property of the start that every permitted step keeps holds after every permitted run. -/
theorem run_invariant {I : σ → Prop} {ok : σ → α → Prop} (h₀ : I s)
    (hstep : ∀ t a t', I t → ok t a → step t a = some t' → I t')
    (hok : Along step ok s as) (hr : run step s as = some s') : I s' := by
  induction as using List.reverseRecOn generalizing s' with
  | nil => simp only [run_nil, Option.some.injEq] at hr; exact hr ▸ h₀
  | append_singleton as a ih =>
      obtain ⟨t, ht, hs⟩ := run_snoc_eq_some.mp hr
      exact hstep t a s' (ih hok.of_snoc ht) (hok.last ht) hs

/-- The same when every step is permitted. -/
theorem run_invariant' {I : σ → Prop} (h₀ : I s) (hstep : ∀ t a t', I t → step t a = some t' → I t')
    (hr : run step s as = some s') : I s' := by
  have hok : Along step (fun _ _ => True) s as := fun _ _ _ _ _ _ => trivial
  exact run_invariant h₀ (fun t a t' h _ => hstep t a t' h) hok hr

/-- What the steps of a run add to a list, one after the other. -/
def gathered {β : Type*} (step : σ → α → Option σ) (adds : σ → α → List β) : σ → List α → List β
  | _, [] => []
  | s, a :: as =>
      match step s a with
      | none => adds s a
      | some s' => adds s a ++ gathered step adds s' as

theorem gathered_snoc {β : Type*} {adds : σ → α → List β} {t : σ} (hr : run step s as = some t) :
    gathered step adds s (as ++ [a]) = gathered step adds s as ++ adds t a := by
  induction as generalizing s with
  | nil =>
      obtain rfl : s = t := Option.some.inj hr
      cases hstep : step s a <;> simp [gathered, hstep]
  | cons b as ih =>
      obtain ⟨u, hu, hr⟩ := Option.bind_eq_some_iff.mp hr
      simp only [List.cons_append, gathered, hu, ih hr, List.append_assoc]

/-- An invariant that speaks of what has been added so far. -/
theorem run_gathered {β : Type*} {adds : σ → α → List β} {I : List β → σ → Prop} {ok : σ → α → Prop} (h₀ : I [] s)
    (hstep : ∀ l t a t', I l t → ok t a → step t a = some t' → I (l ++ adds t a) t')
    (hok : Along step ok s as) (hr : run step s as = some s') : I (gathered step adds s as) s' := by
  induction as using List.reverseRecOn generalizing s' with
  | nil =>
      cases hr
      exact h₀
  | append_singleton as a ih =>
      obtain ⟨t, ht, hs⟩ := run_snoc_eq_some.mp hr
      rw [gathered_snoc ht]
      exact hstep _ t a s' (ih hok.of_snoc ht) (hok.last ht) hs

/-- Where exactly the permitted steps keep a property, it holds all along a run exactly if every step is
permitted. -/
theorem always_iff_along {I : σ → Prop} {ok : σ → α → Prop} (h₀ : I s)
    (hstep : ∀ t a t', I t → step t a = some t' → (I t' ↔ ok t a)) (hr : run step s as = some s') :
    (∀ pre suf t, as = pre ++ suf → run step s pre = some t → I t) ↔ Along step ok s as := by
  constructor
  · intro h pre a suf t he ht
    obtain ⟨u, hu, hsuf⟩ := run_append_eq_some.mp (he ▸ hr)
    obtain rfl := Option.some.inj (ht.symm.trans hu)
    obtain ⟨t', ht', -⟩ := Option.bind_eq_some_iff.mp hsuf
    refine (hstep t a t' (h pre (a :: suf) t he ht) ht').mp (h (pre ++ [a]) suf t' ?_ ?_)
    · rw [he, List.append_assoc, List.singleton_append]
    · exact run_snoc_eq_some.mpr ⟨t, ht, ht'⟩
  · rintro hok pre suf t rfl ht
    refine run_invariant h₀ (fun t a t' h hoka hs => (hstep t a t' h hs).mpr hoka) ?_ ht
    intro pre' a suf' u he hu
    exact hok pre' a (suf' ++ suf) u (by rw [he, List.append_assoc, List.cons_append]) hu

/-- The same where the step is known about states with a further property only, which every step keeps. -/
theorem always_iff_along_of {I J : σ → Prop} {ok : σ → α → Prop} (hJ : J s)
    (hkeep : ∀ t a t', J t → step t a = some t' → J t') (h₀ : I s)
    (hstep : ∀ t a t', J t → I t → step t a = some t' → (I t' ↔ ok t a)) (hr : run step s as = some s') :
    (∀ pre suf t, as = pre ++ suf → run step s pre = some t → I t) ↔ Along step ok s as := by
  have hJs : ∀ pre t, run step s pre = some t → J t := fun pre t ht => run_invariant' hJ hkeep ht
  have hboth : ∀ t a t', J t ∧ I t → step t a = some t' → (J t' ∧ I t' ↔ ok t a) := by
    rintro t a t' ⟨hJt, hIt⟩ hs
    rw [← hstep t a t' hJt hIt hs]
    exact and_iff_right (hkeep t a t' hJt hs)
  rw [← always_iff_along ⟨hJ, h₀⟩ hboth hr]
  constructor
  · exact fun h pre suf t he ht => ⟨hJs pre t ht, h pre suf t he ht⟩
  · exact fun h pre suf t he ht => (h pre suf t he ht).2

/-- A permitted step keeps a state sound, any other step spoils it, and what is spoilt stays so: then the end
of a run is as it should be exactly if every step is permitted. -/
theorem end_iff_along {I J D : σ → Prop} {ok : σ → α → Prop} (h₀ : I s)
    (hkeep : ∀ t a t', I t → ok t a → step t a = some t' → I t')
    (hspoil : ∀ t a t', I t → ¬ ok t a → step t a = some t' → J t')
    (hstay : ∀ t a t', J t → step t a = some t' → J t')
    (hr : run step s as = some s') (hI : I s' → D s') (hJ : J s' → ¬ D s') : D s' ↔ Along step ok s as := by
  induction as generalizing s with
  | nil =>
      cases hr
      exact iff_of_true (hI h₀) along_nil
  | cons a as ih =>
      obtain ⟨t, ht, hr⟩ := Option.bind_eq_some_iff.mp hr
      rw [along_cons]
      by_cases hok : ok s a
      · rw [ih (hkeep s a t h₀ hok ht) hr]
        constructor
        · exact fun h => ⟨hok, fun t' ht' => Option.some.inj (ht.symm.trans ht') ▸ h⟩
        · exact fun h => h.2 t ht
      · have hspoilt : J s' := run_invariant' (hspoil s a t h₀ hok ht) hstay hr
        exact iff_of_false (hJ hspoilt) fun h => hok h.1

/-- `P` holds at some moment of the run, its start and its end included. -/
def Once (step : σ → α → Option σ) (P : σ → Prop) (s : σ) (as : List α) : Prop :=
  ∃ pre suf t, as = pre ++ suf ∧ run step s pre = some t ∧ P t

theorem Once.now {P : σ → Prop} (hr : run step s as = some s') (h : P s') : Once step P s as :=
  ⟨as, [], s', by simp, hr, h⟩

theorem Once.append {P : σ → Prop} (h : Once step P s as) (bs : List α) :
    Once step P s (as ++ bs) := by
  obtain ⟨pre, suf, t, he, hr, hP⟩ := h
  exact ⟨pre, suf ++ bs, t, by simp [he], hr, hP⟩

@[simp] theorem once_nil {P : σ → Prop} : Once step P s [] ↔ P s := by
  constructor
  · rintro ⟨pre, suf, t, he, hr, hP⟩
    obtain ⟨rfl, -⟩ := List.append_eq_nil_iff.mp he.symm
    cases hr; exact hP
  · exact fun h => ⟨[], [], s, rfl, rfl, h⟩

theorem once_cons {P : σ → Prop} :
    Once step P s (a :: as) ↔ P s ∨ ∃ t, step s a = some t ∧ Once step P t as := by
  constructor
  · rintro ⟨pre, suf, t, he, hr, hP⟩
    cases pre with
    | nil => cases hr; exact Or.inl hP
    | cons b pre =>
        obtain ⟨rfl, rfl⟩ := List.cons.inj he
        obtain ⟨u, hu, hr⟩ := Option.bind_eq_some_iff.mp hr
        exact Or.inr ⟨u, hu, pre, suf, t, rfl, hr, hP⟩
  · rintro (h | ⟨t, hs, pre, suf, u, rfl, hr, hP⟩)
    · exact ⟨[], a :: as, s, rfl, rfl, h⟩
    · exact ⟨a :: pre, suf, u, rfl, by rw [run_cons, hs]; exact hr, hP⟩

theorem once_snoc {P : σ → Prop} :
    Once step P s (as ++ [a]) ↔
      Once step P s as ∨ ∃ t, run step s (as ++ [a]) = some t ∧ P t := by
  constructor
  · rintro ⟨pre, suf, t, he, hr, hP⟩
    rcases List.eq_nil_or_concat suf with rfl | ⟨suf', b, rfl⟩
    · rw [List.append_nil] at he; exact Or.inr ⟨t, he ▸ hr, hP⟩
    · rw [List.concat_eq_append, ← List.append_assoc] at he
      obtain ⟨he, -⟩ := List.append_inj' he rfl
      exact Or.inl ⟨pre, suf', t, he, hr, hP⟩
  · rintro (h | ⟨t, hr, hP⟩)
    · exact h.append [a]
    · exact Once.now hr hP

end OFM.Lib.Machine
