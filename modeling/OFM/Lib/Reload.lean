import Mathlib.Algebra.BigOperators.Group.Finset.Basic
import Mathlib.Algebra.Order.BigOperators.Group.Finset
import Mathlib.Data.Finset.Basic
import Mathlib.Logic.Function.Basic
import Mathlib.Logic.Relation

/-!
# Objects that are loaded with what they point to

An object is made when a pointer to it is met first, and then its members are set in the order in which they
have been archived; pointers among them lead to other objects, which may point back. What is behind a pointer
that has been met before is not loaded again.
-/

namespace OFM.Lib.Reload

/-- One step of loading the object at `p`. -/
inductive Op {P : Type*} (O : P → Type*) (p : P) where
  /-- What the pointer leads to is loaded here unless it is known. -/
  | follow (q : P)
  /-- A member is set to what the archive has. -/
  | set (f : O p → O p)
  /-- A member is set by what the objects are now. -/
  | resolve (f : ((q : P) → Option (O q)) → O p → O p)

/-- The objects as they are when they have just been made, and the steps that load them. -/
structure Graph {P : Type*} (O : P → Type*) where
  fresh : (p : P) → O p
  ops : (p : P) → List (Op O p)

/-- The objects so far, what is left to do for each, and which are being loaded inside which. -/
structure State {P : Type*} (O : P → Type*) where
  objects : (p : P) → Option (O p)
  left : (p : P) → List (Op O p)
  stack : List P

variable {P : Type*} {O : P → Type*}

/-! ## What the steps make of an object -/

section Runs

variable (Q : (p : P) → ((q : P) → Option (O q)) → Prop)

/-- The object after the steps, where `Q` holds of the objects whenever a member is set by them. -/
def Runs (p : P) : List (Op O p) → O p → O p → Prop
  | [], o, o' => o' = o
  | .follow _ :: ops, o, o' => Runs p ops o o'
  | .set f :: ops, o, o' => Runs p ops (f o) o'
  | .resolve f :: ops, o, o' => ∃ objects, Q p objects ∧ Runs p ops (f objects o) o'

variable {Q} {p : P} {o o' : O p} {ops ops' : List (Op O p)}

theorem runs_append : Runs Q p (ops ++ ops') o o' ↔ ∃ o₁, Runs Q p ops o o₁ ∧ Runs Q p ops' o₁ o' := by
  induction ops generalizing o with
  | nil => simp [Runs]
  | cons op ops ih =>
      cases op with
      | follow q => exact ih
      | set f => exact ih
      | resolve f =>
          simp only [List.cons_append, Runs, ih]
          constructor
          · rintro ⟨objects, hQ, o₁, h, h'⟩
            exact ⟨o₁, ⟨objects, hQ, h⟩, h'⟩
          · rintro ⟨o₁, ⟨objects, hQ, h⟩, h'⟩
            exact ⟨objects, hQ, o₁, h, h'⟩

/-- What every step keeps. -/
theorem Runs.invariant {I : O p → Prop} (h : Runs Q p ops o o') (h₀ : I o)
    (hset : ∀ f, .set f ∈ ops → ∀ o, I o → I (f o))
    (hresolve : ∀ f, .resolve f ∈ ops → ∀ objects o, I o → I (f objects o)) : I o' := by
  induction ops generalizing o with
  | nil =>
      cases h
      exact h₀
  | cons op ops ih =>
      have hset' : ∀ f, .set f ∈ ops → ∀ o, I o → I (f o) :=
        fun f hf => hset f (List.mem_cons_of_mem _ hf)
      have hresolve' : ∀ f, .resolve f ∈ ops → ∀ objects o, I o → I (f objects o) :=
        fun f hf => hresolve f (List.mem_cons_of_mem _ hf)
      cases op with
      | follow q => exact ih h h₀ hset' hresolve'
      | set f => exact ih h (hset f List.mem_cons_self o h₀) hset' hresolve'
      | resolve f =>
          obtain ⟨objects, -, h⟩ := h
          exact ih h (hresolve f List.mem_cons_self objects o h₀) hset' hresolve'

end Runs

/-! ## Loading -/
namespace State

variable [DecidableEq P] (g : Graph O)

/-- The object at `p` as the step leaves it. -/
def modify (s : State O) (p : P) (f : O p → O p) : State O :=
  { s with objects := Function.update s.objects p ((s.objects p).map f) }

/-- What is behind a pointer that has not been met before. -/
def enter (s : State O) (q : P) : State O :=
  { s with objects := Function.update s.objects q (some (g.fresh q)), stack := q :: s.stack }

def perform (s : State O) (p : P) : Op O p → State O
  | .follow q => if (s.objects q).isSome then s else s.enter g q
  | .set f => s.modify p f
  | .resolve f => s.modify p (f s.objects)

/-- The step `op` of `p`, after which `ops` are left. -/
def take (s : State O) (p : P) (op : Op O p) (ops : List (Op O p)) : State O :=
  ({ s with left := Function.update s.left p ops } : State O).perform g p op

/-- The next step of the object that is loaded innermost. -/
def step (s : State O) : Option (State O) :=
  match s.stack with
  | [] => none
  | p :: below =>
      match s.left p with
      | [] => some { s with stack := below }
      | op :: ops => some (s.take g p op ops)

/-- The archive starts with a pointer to `root`. -/
def init (root : P) : State O := (⟨fun _ => none, g.ops, []⟩ : State O).enter g root

end State

variable [DecidableEq P] {g : Graph O} {s s' t : State O} {p q root : P} {op : Op O p} {ops done : List (Op O p)}
  {below : List P}

/-! ## Steps -/

namespace State

/-- The object that is loaded innermost is complete, or its next step is taken. -/
theorem step_cases (h : s.step g = some s') : ∃ p below, s.stack = p :: below ∧
    (s.left p = [] ∧ s' = { s with stack := below } ∨
      ∃ op ops, s.left p = op :: ops ∧ s' = s.take g p op ops) := by
  rw [step] at h
  split at h
  · cases h
  next p below hstack =>
    split at h
    next hleft =>
      cases h
      exact ⟨p, below, hstack, Or.inl ⟨hleft, rfl⟩⟩
    next op ops hleft =>
      cases h
      exact ⟨p, below, hstack, Or.inr ⟨op, ops, hleft, rfl⟩⟩

theorem take_left : (s.take g p op ops).left = Function.update s.left p ops := by
  cases op with
  | follow q =>
      rw [take, perform]
      split <;> rfl
  | set f => rfl
  | resolve f => rfl

/-- Only a pointer that is followed makes an object known. -/
theorem isSome_take : ((s.take g p op ops).objects q).isSome ↔ op = .follow q ∨ (s.objects q).isSome := by
  have hmodify : ∀ o : Option (O p), o.isSome = (s.objects p).isSome →
      (Function.update s.objects p o q).isSome = (s.objects q).isSome := by
    intro o ho
    by_cases h : q = p
    · subst h
      rw [Function.update_self, ho]
    · rw [Function.update_of_ne h]
  cases op with
  | follow r =>
      rw [take, perform]
      split
      next hr =>
        constructor
        · exact Or.inr
        · rintro (h | h)
          · cases h
            exact hr
          · exact h
      · rw [enter]
        by_cases h : q = r
        · subst h
          simp
        · simp [Function.update_of_ne h, Ne.symm h]
  | set f => simp [take, perform, modify, hmodify]
  | resolve f => simp [take, perform, modify, hmodify]

/-- The step of an object changes no other, and one that is new is as it is made. -/
theorem take_objects_of_ne (h : q ≠ p) : (s.take g p op ops).objects q = s.objects q ∨
    s.objects q = none ∧ (s.take g p op ops).objects q = some (g.fresh q) := by
  cases op with
  | follow r =>
      rw [take, perform]
      split
      · exact Or.inl rfl
      next hr =>
        by_cases hqr : q = r
        · subst hqr
          rw [Bool.not_eq_true, Option.isSome_eq_false_iff, Option.isNone_iff_eq_none] at hr
          exact Or.inr ⟨hr, by simp [enter]⟩
        · exact Or.inl (by simp [enter, Function.update_of_ne hqr])
  | set f => exact Or.inl (by simp [take, perform, modify, Function.update_of_ne h])
  | resolve f => exact Or.inl (by simp [take, perform, modify, Function.update_of_ne h])

theorem take_objects_self {o : O p} (h : s.objects p = some o) : (s.take g p op ops).objects p =
    some (match op with | .follow _ => o | .set f => f o | .resolve f => f s.objects o) := by
  cases op with
  | follow r =>
      rw [take, perform]
      split
      · exact h
      next hr =>
        have hpr : p ≠ r := by
          rintro rfl
          exact hr (by rw [h]; rfl)
        simp [enter, Function.update_of_ne hpr, h]
  | set f => simp [take, perform, modify, h]
  | resolve f => simp [take, perform, modify, h]

/-- An object that was not known is loaded inside this one. -/
theorem take_stack (g : Graph O) (s : State O) (p : P) (op : Op O p) (ops : List (Op O p)) :
    (s.take g p op ops).stack = s.stack ∧ (∀ q, op = .follow q → (s.objects q).isSome) ∨
    ∃ q, op = .follow q ∧ s.objects q = none ∧ (s.take g p op ops).stack = q :: s.stack := by
  cases op with
  | follow r =>
      rw [take, perform]
      split
      next hr => exact Or.inl ⟨rfl, fun q hq => by cases hq; exact hr⟩
      next hr =>
        rw [Bool.not_eq_true, Option.isSome_eq_false_iff, Option.isNone_iff_eq_none] at hr
        exact Or.inr ⟨r, rfl, hr, rfl⟩
  | set f => exact Or.inl ⟨rfl, fun q hq => by cases hq⟩
  | resolve f => exact Or.inl ⟨rfl, fun q hq => by cases hq⟩

end State

/-- What loading comes to. -/
def Loading (g : Graph O) (s s' : State O) : Prop := Relation.ReflTransGen (fun s s' => s.step g = some s') s s'

/-- What the archive has led to. -/
def Loaded (g : Graph O) (root : P) (s : State O) : Prop := Loading g (.init g root) s ∧ s.stack = []

theorem Loading.invariant {I : State O → Prop} (h : Loading g s s') (h₀ : I s)
    (hstep : ∀ t t', Loading g s t → I t → t.step g = some t' → I t') : I s' := by
  induction h with
  | refl => exact h₀
  | tail hreach hs ih => exact hstep _ _ hreach ih hs

/-! ## What holds all along -/

section Sound

variable (Q : (p : P) → ((q : P) → Option (O q)) → Prop)

/-- `q` is loaded inside `p`. -/
def Inside (g : Graph O) (s : State O) (q p : P) : Prop := ∃ done, g.ops p = done ++ .follow q :: s.left p

/-- What has been done for `p` has made it `o`. -/
structure Done (g : Graph O) (s : State O) (p : P) (done : List (Op O p)) (o : O p) : Prop where
  ops_eq : g.ops p = done ++ s.left p
  followed : ∀ q, .follow q ∈ done → (s.objects q).isSome
  runs : Runs Q p done (g.fresh p) o

/-- `Q` has held whenever a member was set by the objects. -/
structure Sound (g : Graph O) (root : P) (s : State O) : Prop where
  known : ∀ p o, s.objects p = some o → ∃ done, Done Q g s p done o
  unknown : ∀ p, s.objects p = none → s.left p = g.ops p
  start : (s.objects root).isSome
  isSome_of_mem : ∀ p ∈ s.stack, (s.objects p).isSome
  complete : ∀ p, (s.objects p).isSome → p ∉ s.stack → s.left p = []
  nodup : s.stack.Nodup
  chain : s.stack.IsChain (Inside g s)
  bottom : ∀ p, s.stack.getLast? = some p → p = root

variable {Q} {o o' : O p}

omit [DecidableEq P] in
/-- The steps of an object are left for later. -/
theorem Done.mono (h : Done Q g s p done o) (hleft : s'.left p = s.left p)
    (hknown : ∀ q, (s.objects q).isSome → (s'.objects q).isSome) : Done Q g s' p done o where
  ops_eq := by rw [hleft, h.ops_eq]
  followed q hq := hknown q (h.followed q hq)
  runs := h.runs

theorem Sound.init : Sound Q g root (.init g root) where
  known p o h := by
    by_cases hp : p = root
    · subst hp
      simp only [State.init, State.enter, Function.update_self, Option.some.injEq] at h
      refine ⟨[], rfl, fun q hq => absurd hq List.not_mem_nil, h.symm⟩
    · simp [State.init, State.enter, Function.update_of_ne hp] at h
  unknown p h := rfl
  start := by simp [State.init, State.enter]
  isSome_of_mem p hp := by
    obtain rfl := List.mem_singleton.mp hp
    simp [State.init, State.enter]
  complete p h hp := by
    refine absurd ?_ hp
    by_contra hne
    rw [State.init, State.enter, List.mem_singleton] at hne
    simp [State.init, State.enter, Function.update_of_ne hne] at h
  nodup := List.nodup_singleton root
  chain := List.isChain_singleton root
  bottom p h := by simpa [State.init, State.enter, eq_comm] using h

theorem Sound.pop (h : Sound Q g root s) (hstack : s.stack = p :: below) (hleft : s.left p = []) :
    Sound Q g root { s with stack := below } where
  known q o hq := by
    obtain ⟨done, hdone⟩ := h.known q o hq
    exact ⟨done, hdone.mono rfl fun _ => id⟩
  unknown := h.unknown
  start := h.start
  isSome_of_mem q hq := h.isSome_of_mem q (hstack ▸ List.mem_cons_of_mem p hq)
  complete q hq hbelow := by
    by_cases hqp : q = p
    · subst hqp
      exact hleft
    · apply h.complete q hq
      rw [hstack, List.mem_cons, not_or]
      exact ⟨hqp, hbelow⟩
  nodup := (List.nodup_cons.mp (hstack ▸ h.nodup)).2
  chain := (hstack ▸ h.chain).tail
  bottom q hq := by
    apply h.bottom q
    rw [hstack, List.getLast?_cons, hq]
    rfl

omit [DecidableEq P] in
theorem Done.snoc (h : Done Q g s p done o) (hleft : s.left p = op :: ops) (hleft' : s'.left p = ops)
    (hknown : ∀ q, (s.objects q).isSome → (s'.objects q).isSome)
    (hop : ∀ q, op = .follow q → (s'.objects q).isSome) (hruns : Runs Q p [op] o o') :
    Done Q g s' p (done ++ [op]) o' where
  ops_eq := by rw [hleft', h.ops_eq, hleft, List.append_assoc, List.singleton_append]
  followed q hq := by
    rcases List.mem_append.mp hq with hq | hq
    · exact hknown q (h.followed q hq)
    · exact hop q (List.mem_singleton.mp hq).symm
  runs := runs_append.mpr ⟨o, h.runs, hruns⟩

theorem Sound.take (h : Sound Q g root s) (hstack : s.stack = p :: below) (hleft : s.left p = op :: ops)
    (hQ : ∀ f, op = .resolve f → Q p s.objects) : Sound Q g root (s.take g p op ops) := by
  have hknown : ∀ q, (s.objects q).isSome → ((s.take g p op ops).objects q).isSome :=
    fun q hq => State.isSome_take.mpr (Or.inr hq)
  have hself : (s.take g p op ops).left p = ops := by rw [State.take_left, Function.update_self]
  have hother : ∀ q, q ≠ p → (s.take g p op ops).left q = s.left q :=
    fun q hq => by rw [State.take_left, Function.update_of_ne hq]
  have hp : (s.objects p).isSome := h.isSome_of_mem p (hstack ▸ List.mem_cons_self)
  obtain ⟨o, ho⟩ := Option.isSome_iff_exists.mp hp
  obtain ⟨done, hdone⟩ := h.known p o ho
  have hbelow : p ∉ below := (List.nodup_cons.mp (hstack ▸ h.nodup)).1
  -- What is loaded inside an object below `p` has not changed.
  have hchain : (p :: below).IsChain (Inside g (s.take g p op ops)) := by
    refine (hstack ▸ h.chain).imp_of_mem_tail_imp fun a b _ hb hab => ?_
    obtain ⟨done, hab⟩ := hab
    exact ⟨done, by rw [hother b (ne_of_mem_of_not_mem hb hbelow), hab]⟩
  have hnotMem : ∀ q, s.objects q = none → q ∉ p :: below := by
    intro q hq hmem
    have := h.isSome_of_mem q (hstack ▸ hmem)
    simp [hq] at this
  have hnext := State.take_stack g s p op ops
  rw [hstack] at hnext
  refine ⟨?_, ?_, hknown root h.start, ?_, ?_, ?_, ?_, ?_⟩
  · intro q o' ho'
    by_cases hqp : q = p
    · subst hqp
      rw [State.take_objects_self ho, Option.some.injEq] at ho'
      subst ho'
      refine ⟨done ++ [op], hdone.snoc hleft hself hknown (fun r hr => State.isSome_take.mpr (Or.inl hr)) ?_⟩
      cases op with
      | follow r => rfl
      | set f => rfl
      | resolve f => exact ⟨s.objects, hQ f rfl, rfl⟩
    · rcases State.take_objects_of_ne hqp with heq | ⟨hnone, heq⟩
      · obtain ⟨done, hdone⟩ := h.known q o' (heq ▸ ho')
        exact ⟨done, hdone.mono (hother q hqp) hknown⟩
      · rw [heq, Option.some.injEq] at ho'
        refine ⟨[], ?_, fun r hr => absurd hr List.not_mem_nil, ho'.symm⟩
        rw [hother q hqp, h.unknown q hnone, List.nil_append]
  · intro q hq
    have hnone : s.objects q = none := by
      by_contra hne
      have := hknown q (Option.isSome_iff_ne_none.mpr hne)
      simp [hq] at this
    have hqp : q ≠ p := by
      rintro rfl
      simp [hnone] at hp
    rw [hother q hqp, h.unknown q hnone]
  · intro q hq
    rcases hnext with ⟨hs, -⟩ | ⟨r, hr, -, hs⟩
    · exact hknown q (h.isSome_of_mem q (by rwa [hstack, ← hs]))
    · rw [hs] at hq
      rcases List.mem_cons.mp hq with rfl | hq
      · exact State.isSome_take.mpr (Or.inl hr)
      · exact hknown q (h.isSome_of_mem q (by rwa [hstack]))
  · intro q hq hmem
    rw [State.isSome_take] at hq
    have hmem' : q ∉ p :: below ∧ (s.objects q).isSome := by
      rcases hnext with ⟨hs, hold⟩ | ⟨r, rfl, -, hs⟩
      · exact ⟨hs ▸ hmem, hq.elim (hold q) id⟩
      · rw [hs, List.mem_cons, not_or] at hmem
        refine ⟨hmem.2, hq.resolve_left ?_⟩
        rw [Op.follow.injEq]
        exact Ne.symm hmem.1
    rw [hother q fun hqp => hmem'.1 (hqp ▸ List.mem_cons_self)]
    exact h.complete q hmem'.2 (hstack ▸ hmem'.1)
  · rcases hnext with ⟨hs, -⟩ | ⟨r, -, hnone, hs⟩
    · exact hs ▸ hstack ▸ h.nodup
    · rw [hs]
      exact List.nodup_cons.mpr ⟨hnotMem r hnone, hstack ▸ h.nodup⟩
  · rcases hnext with ⟨hs, -⟩ | ⟨r, rfl, -, hs⟩
    · exact hs ▸ hchain
    · rw [hs, List.isChain_cons_cons]
      exact ⟨⟨done, by rw [hself, hdone.ops_eq, hleft]⟩, hchain⟩
  · intro q hq
    apply h.bottom q
    rcases hnext with ⟨hs, -⟩ | ⟨r, -, -, hs⟩
    · rw [hstack, ← hs, hq]
    · rw [hstack, ← hq, hs, List.getLast?_cons_cons]

/-- Every step leaves the objects sound. -/
theorem Sound.step (h : Sound Q g root s) (hs : s.step g = some s')
    (hQ : ∀ p below f ops, s.stack = p :: below → s.left p = .resolve f :: ops → Q p s.objects) :
    Sound Q g root s' := by
  obtain ⟨p, below, hstack, ⟨hleft, rfl⟩ | ⟨op, ops, hleft, rfl⟩⟩ := State.step_cases hs
  · exact h.pop hstack hleft
  · refine h.take hstack hleft fun f hf => ?_
    subst hf
    exact hQ p below f ops hstack hleft

theorem Loading.sound (h : Loading g (.init g root) s)
    (hQ : ∀ t p below f ops, Loading g (.init g root) t → t.stack = p :: below →
      t.left p = .resolve f :: ops → Q p t.objects) : Sound Q g root s :=
  h.invariant Sound.init fun t _ ht hsound hs =>
    hsound.step hs fun p below f ops => hQ t p below f ops ht

omit [DecidableEq P] in
/-- Whoever is loaded inside the objects of a kind, one of them is loaded inside an object of another kind. -/
theorem Sound.exists_entry (h : Sound Q g root s) {I : P → Prop} (hroot : ¬ I root)
    (hstack : s.stack = p :: below) (hp : I p) : ∃ q r, I q ∧ ¬ I r ∧ r ∈ s.stack ∧ Inside g s q r := by
  have key : ∀ (l : List P) (p : P), (p :: l).IsChain (Inside g s) →
      (∀ q, (p :: l).getLast? = some q → q = root) → I p →
      ∃ q r, I q ∧ ¬ I r ∧ r ∈ p :: l ∧ Inside g s q r := by
    intro l
    induction l with
    | nil =>
        intro p _ hlast hp
        exact absurd (hlast p rfl ▸ hp) hroot
    | cons r l ih =>
        intro p hchain hlast hp
        rw [List.isChain_cons_cons] at hchain
        by_cases hr : I r
        · rw [List.getLast?_cons_cons] at hlast
          obtain ⟨q, r', hq, hr', hmem, hinside⟩ := ih r hchain.2 hlast hr
          exact ⟨q, r', hq, hr', List.mem_cons_of_mem p hmem, hinside⟩
        · exact ⟨p, r, hp, hr, by simp, hchain.1⟩
  rw [hstack]
  exact key below p (hstack ▸ h.chain) (hstack ▸ h.bottom) hp

omit [DecidableEq P] in
/-- Inside every object but the innermost another one is loaded. -/
theorem Sound.exists_inside (h : Sound Q g root s) (hstack : s.stack = p :: below) (hq : q ∈ below) :
    ∃ r, Inside g s r q ∧ (r = p ∨ ∃ r', Inside g s r' r) := by
  have key : ∀ (l : List P) (p : P), (p :: l).IsChain (Inside g s) → q ∈ l →
      ∃ r, Inside g s r q ∧ (r = p ∨ ∃ r', Inside g s r' r) := by
    intro l
    induction l with
    | nil =>
        intro p _ hq
        exact absurd hq List.not_mem_nil
    | cons r l ih =>
        intro p hchain hq
        rw [List.isChain_cons_cons] at hchain
        rcases List.mem_cons.mp hq with rfl | hq
        · exact ⟨p, hchain.1, Or.inl rfl⟩
        · obtain ⟨r', hinside, rfl | hr'⟩ := ih r hchain.2 hq
          · exact ⟨r', hinside, Or.inr ⟨p, hchain.1⟩⟩
          · exact ⟨r', hinside, Or.inr hr'⟩
  exact key below p (hstack ▸ h.chain) hq

/-- An object that points to no other. -/
def Leaf (g : Graph O) (p : P) : Prop := ∀ q, .follow q ∉ g.ops p

omit [DecidableEq P] in
theorem Sound.leaf_notMem_stack (h : Sound Q g root s) (hstack : s.stack = p :: below) (hleaf : Leaf g q)
    (hqp : q ≠ p) : q ∉ s.stack := by
  intro hq
  rw [hstack] at hq
  obtain ⟨r, ⟨done, hdone⟩, -⟩ := h.exists_inside hstack ((List.mem_cons.mp hq).resolve_left hqp)
  apply hleaf r
  rw [hdone]
  simp

omit [DecidableEq P] in
/-- Where an object is loaded inside, the pointer to it has been followed last. -/
theorem Done.eq_of_inside (h : Done Q g s p done o) (hinside : Inside g s q p) :
    ∃ done', done = done' ++ [.follow q] := by
  obtain ⟨done', hops⟩ := hinside
  rw [h.ops_eq, ← List.singleton_append, ← List.append_assoc] at hops
  exact ⟨done', (List.append_left_inj _).mp hops⟩

variable {before after : List (Op O p)}

omit [DecidableEq P] in
/-- The steps that come after all such pointers have not been taken. -/
theorem Done.prefix_of_inside (h : Done Q g s p done o) (hinside : Inside g s q p)
    (hops : g.ops p = before ++ after) (hafter : .follow q ∉ after) : done <+: before := by
  obtain ⟨done', hdone⟩ := h.eq_of_inside hinside
  have hdone' : done <+: g.ops p := ⟨s.left p, h.ops_eq.symm⟩
  rcases List.prefix_or_prefix_of_prefix hdone' ⟨after, hops.symm⟩ with hpre | ⟨rest, rfl⟩
  · exact hpre
  · rcases List.eq_nil_or_concat rest with rfl | ⟨rest, op, rfl⟩
    · rw [List.append_nil]
    · rw [List.concat_eq_append, ← List.append_assoc] at hdone
      obtain rfl := List.singleton_inj.mp (List.append_inj_right' hdone rfl)
      rw [h.ops_eq, List.append_assoc] at hops
      refine absurd ?_ hafter
      rw [← List.append_cancel_left hops]
      simp

omit [DecidableEq P] in
/-- Where the first pointers lead to leaves, what they lead to is loaded before anything else. -/
theorem Sound.exists_done {p' : P} {o : O p} (h : Sound Q g root s) (hstack : s.stack = p' :: below)
    (hpp' : p ≠ p') (ho : s.objects p = some o) (hops : g.ops p = before ++ after)
    (hbefore : ∀ r, .follow r ∈ before → Leaf g r ∧ r ≠ p') :
    ∃ done, Done Q g s p (before ++ done) o := by
  obtain ⟨done, hdone⟩ := h.known p o ho
  suffices hpre : before <+: done by
    obtain ⟨rest, rfl⟩ := hpre
    exact ⟨rest, hdone⟩
  by_cases hp : p ∈ s.stack
  · rw [hstack] at hp
    obtain ⟨r, hinside, hr⟩ := h.exists_inside hstack ((List.mem_cons.mp hp).resolve_left hpp')
    have hnotMem : .follow r ∉ before := by
      intro hmem
      obtain ⟨hleaf, hne⟩ := hbefore r hmem
      rcases hr with rfl | ⟨r', done', hr'⟩
      · exact hne rfl
      · apply hleaf r'
        rw [hr']
        simp
    obtain ⟨done', rfl⟩ := hdone.eq_of_inside hinside
    have hdone' : done' ++ [.follow r] <+: g.ops p := ⟨s.left p, hdone.ops_eq.symm⟩
    rcases List.prefix_or_prefix_of_prefix ⟨after, hops.symm⟩ hdone' with hpre | hpre
    · exact hpre
    · exact absurd (hpre.subset (by simp)) hnotMem
  · have hleft := h.complete p (by rw [ho]; rfl) hp
    have heq := hdone.ops_eq
    rw [hleft, List.append_nil] at heq
    exact ⟨after, hops.symm.trans heq⟩

end Sound

/-! ## What is loaded -/

/-- Nothing is asked of the objects. -/
theorem Loading.sound_true (h : Loading g (.init g root) s) : Sound (fun _ _ => True) g root s :=
  h.sound fun _ _ _ _ _ _ _ _ => trivial

/-- There is a way of pointers to `p`. -/
def Leads (g : Graph O) (root p : P) : Prop := Relation.ReflTransGen (fun p q => .follow q ∈ g.ops p) root p

theorem Loading.leads (h : Loading g (.init g root) s) : ∀ p, (s.objects p).isSome → Leads g root p := by
  refine h.invariant (I := fun t => ∀ p, (t.objects p).isSome → Leads g root p) ?_ fun t t' ht hleads hs => ?_
  · intro p hp
    by_cases hne : p = root
    · subst hne
      exact .refl
    · simp [State.init, State.enter, Function.update_of_ne hne] at hp
  · have hsound := ht.sound_true
    obtain ⟨p, below, hstack, ⟨hleft, rfl⟩ | ⟨op, ops, hleft, rfl⟩⟩ := State.step_cases hs
    · exact hleads
    · intro q hq
      rcases State.isSome_take.mp hq with rfl | hq
      · have hp := hsound.isSome_of_mem p (hstack ▸ List.mem_cons_self)
        obtain ⟨o, ho⟩ := Option.isSome_iff_exists.mp hp
        obtain ⟨done, hdone⟩ := hsound.known p o ho
        refine (hleads p hp).tail ?_
        rw [hdone.ops_eq, hleft]
        simp
      · exact hleads q hq

section Loaded

variable {Q : (p : P) → ((q : P) → Option (O q)) → Prop}

omit [DecidableEq P] in
/-- In the end all steps of an object have been taken. -/
theorem Sound.all_done (h : Sound Q g root s) (hstack : s.stack = []) {o : O p} (ho : s.objects p = some o) :
    Done Q g s p (g.ops p) o := by
  have hleft : s.left p = [] := by
    apply h.complete p (by rw [ho]; rfl)
    rw [hstack]
    exact List.not_mem_nil
  obtain ⟨done, hdone⟩ := h.known p o ho
  have hops := hdone.ops_eq
  rw [hleft, List.append_nil] at hops
  rwa [hops]

theorem Loaded.isSome_iff (h : Loaded g root s) : (s.objects p).isSome ↔ Leads g root p := by
  have hsound := h.1.sound_true
  constructor
  · exact h.1.leads p
  · intro hp
    induction hp with
    | refl => exact hsound.start
    | tail _ hfollow ih =>
        obtain ⟨o, ho⟩ := Option.isSome_iff_exists.mp ih
        exact (hsound.all_done h.2 ho).followed _ hfollow

/-- The number of steps that are left at most, where `dom` has all objects. -/
def State.weight (dom : Finset P) (s : State O) : Nat :=
  ∑ q ∈ dom, (s.left q).length + (dom.filter fun q => (s.objects q).isNone).card + s.stack.length

theorem sum_left {dom : Finset P} (hp : p ∈ dom) (hleft : s.left p = op :: ops) :
    ∑ q ∈ dom, (Function.update s.left p ops q).length + 1 = ∑ q ∈ dom, (s.left q).length := by
  rw [← Finset.add_sum_erase dom _ hp, ← Finset.add_sum_erase dom (fun q => (s.left q).length) hp]
  have hrest : ∑ q ∈ dom.erase p, (Function.update s.left p ops q).length =
      ∑ q ∈ dom.erase p, (s.left q).length := by
    refine Finset.sum_congr rfl fun q hq => ?_
    rw [Function.update_of_ne (Finset.ne_of_mem_erase hq)]
  rw [hrest, Function.update_self, hleft, List.length_cons]
  omega

/-- The unknown objects of the domain are fewer by one that has been met. -/
theorem card_unknown {dom : Finset P} (p : P) (ops : List (Op O p)) (hq : q ∈ dom) (hnone : s.objects q = none) :
    (dom.filter fun r => ((s.take g p (.follow q) ops).objects r).isNone).card + 1 ≤
      (dom.filter fun r => (s.objects r).isNone).card := by
  have hmem : q ∈ dom.filter fun r => (s.objects r).isNone := by
    rw [Finset.mem_filter, hnone]
    exact ⟨hq, rfl⟩
  rw [← Finset.card_erase_add_one hmem]
  refine Nat.add_le_add_right (Finset.card_le_card fun r hr => ?_) 1
  obtain ⟨hr, hnone'⟩ := Finset.mem_filter.mp hr
  rw [← Option.not_isSome, Bool.not_eq_true', Bool.eq_false_iff, ne_eq, State.isSome_take, not_or] at hnone'
  rw [Finset.mem_erase, Finset.mem_filter, ← Option.not_isSome, Bool.not_eq_true', Bool.eq_false_iff]
  exact ⟨fun hrq => hnone'.1 (hrq ▸ rfl), hr, hnone'.2⟩

theorem Loading.weight_lt {dom : Finset P} (hdom : ∀ p, Leads g root p → p ∈ dom)
    (h : Loading g (.init g root) s) (hs : s.step g = some s') : s'.weight dom < s.weight dom := by
  have hsound := h.sound_true
  have hmono : ∀ p op ops, (dom.filter fun q => ((s.take g p op ops).objects q).isNone).card ≤
      (dom.filter fun q => (s.objects q).isNone).card := by
    intro p op ops
    refine Finset.card_le_card fun q hq => ?_
    rw [Finset.mem_filter, ← Option.not_isSome, Bool.not_eq_true', Bool.eq_false_iff, ne_eq] at hq ⊢
    exact ⟨hq.1, fun hknown => hq.2 (State.isSome_take.mpr (Or.inr hknown))⟩
  have hs' : Loading g (.init g root) s' := h.tail hs
  obtain ⟨p, below, hstack, ⟨hleft, rfl⟩ | ⟨op, ops, hleft, rfl⟩⟩ := State.step_cases hs
  · simp [State.weight, hstack]
  · have hp : p ∈ dom := hdom p (h.leads p (hsound.isSome_of_mem p (hstack ▸ List.mem_cons_self)))
    have hsum := sum_left hp hleft
    rw [State.weight, State.weight, State.take_left]
    rcases State.take_stack g s p op ops with ⟨hs, -⟩ | ⟨q, rfl, hnone, hs⟩
    · have := hmono p op ops
      rw [hs]
      omega
    · have hq : q ∈ dom := hdom q (hs'.leads q (State.isSome_take.mpr (Or.inl rfl)))
      have := card_unknown (g := g) p ops hq hnone
      rw [hs, List.length_cons]
      omega

/-- Where finitely many objects are led to, loading them ends. -/
theorem exists_loaded (g : Graph O) (root : P) (dom : Finset P) (hdom : ∀ p, Leads g root p → p ∈ dom) :
    ∃ s, Loaded g root s := by
  have key : ∀ n s, Loading g (.init g root) s → s.weight dom = n → ∃ s, Loaded g root s := by
    intro n
    induction n using Nat.strong_induction_on with
    | _ n ih =>
        intro s h hn
        cases hstep : s.step g with
        | none =>
            refine ⟨s, h, ?_⟩
            rw [State.step] at hstep
            split at hstep
            · assumption
            · split at hstep <;> cases hstep
        | some s' =>
            exact ih (s'.weight dom) (hn ▸ h.weight_lt hdom hstep) s' (h.tail hstep) rfl
  exact key _ _ .refl rfl

/-- What is left to do for an object is done when it is the innermost one. -/
theorem Loading.exists_taken (h : Loading g s s') (hleft : s.left p = done ++ op :: ops) (hleft' : s'.left p = []) :
    ∃ t below, Loading g s t ∧ t.stack = p :: below ∧ t.left p = op :: ops := by
  induction h using Relation.ReflTransGen.head_induction_on generalizing done with
  | refl =>
      rw [hleft'] at hleft
      exact absurd hleft (by simp)
  | head hs _ ih =>
      obtain ⟨q, below, hstack, ⟨-, rfl⟩ | ⟨op', ops', hq, rfl⟩⟩ := State.step_cases hs
      · obtain ⟨t, below', ht, hrest⟩ := ih hleft
        exact ⟨t, below', ht.head hs, hrest⟩
      · by_cases hqp : q = p
        · subst hqp
          cases done with
          | nil => exact ⟨_, below, .refl, hstack, hleft⟩
          | cons op'' done =>
              rw [hq, List.cons_append, List.cons.injEq] at hleft
              obtain ⟨t, below', ht, hrest⟩ := ih (by rw [State.take_left, Function.update_self, hleft.2])
              exact ⟨t, below', ht.head hs, hrest⟩
        · obtain ⟨t, below', ht, hrest⟩ :=
            ih (by rw [State.take_left, Function.update_of_ne (Ne.symm hqp), hleft])
          exact ⟨t, below', ht.head hs, hrest⟩

/-- All steps of what has been loaded have been taken. -/
theorem Loaded.exists_taken (h : Loaded g root s) (hp : (s.objects p).isSome) (hops : g.ops p = done ++ op :: ops) :
    ∃ t below, Loading g (.init g root) t ∧ t.stack = p :: below ∧ t.left p = op :: ops := by
  have hleft : s.left p = [] := by
    apply h.1.sound_true.complete p hp
    rw [h.2]
    exact List.not_mem_nil
  exact h.1.exists_taken hops hleft

end Loaded

end OFM.Lib.Reload
