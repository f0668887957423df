import Mathlib.Data.List.Basic
import Mathlib.Data.List.Perm.Basic
import Mathlib.Order.Basic

/-!
# Relays

A relay takes items in, keeps each of them at one of several places, and lets them out. The items that
wait are held in one list, in the order in which they arrived; what waits at one place is the queue of
that place.
-/

namespace OFM.Lib

variable {π ε : Type*}

structure Relay (π ε : Type*) where
  arrived : List ε
  waiting : List (π × ε)
  out : List ε

namespace Relay

def empty : Relay π ε := ⟨[], [], []⟩

def arrive (r : Relay π ε) (p : π) (e : ε) : Relay π ε :=
  { r with arrived := r.arrived ++ [e], waiting := r.waiting ++ [(p, e)] }

/-- Lets `sent` out and keeps `kept`. -/
def serve (r : Relay π ε) (kept : List (π × ε)) (sent : List ε) : Relay π ε :=
  { r with waiting := kept, out := r.out ++ sent }

/-! ## Queues -/

variable [DecidableEq π]

/-- What waits at a place. -/
def queue (p : π) : List (π × ε) → List ε
  | [] => []
  | (q, e) :: rest => if q = p then e :: queue p rest else queue p rest

variable {p q : π} {e : ε} {l l' : List (π × ε)}

@[simp] theorem queue_nil : queue p ([] : List (π × ε)) = [] := rfl

@[simp] theorem queue_cons_self : queue p ((p, e) :: l) = e :: queue p l := by simp [queue]

theorem queue_cons_of_ne (h : q ≠ p) : queue p ((q, e) :: l) = queue p l := by simp [queue, h]

@[simp] theorem queue_append : queue p (l ++ l') = queue p l ++ queue p l' := by
  induction l with
  | nil => rfl
  | cons x l ih =>
      obtain ⟨q, e⟩ := x
      by_cases h : q = p
      · subst h; simp [ih]
      · simp [queue_cons_of_ne h, ih]

@[simp] theorem queue_map (es : List ε) : queue p (es.map fun e => (p, e)) = es := by
  induction es with
  | nil => rfl
  | cons e es ih => simp [ih]

theorem queue_map_of_ne (es : List ε) (h : q ≠ p) : queue p (es.map fun e => (q, e)) = [] := by
  induction es with
  | nil => rfl
  | cons e es ih => simp [queue_cons_of_ne h, ih]

theorem mem_queue : e ∈ queue p l ↔ (p, e) ∈ l := by
  induction l with
  | nil => simp
  | cons x l ih =>
      obtain ⟨q, d⟩ := x
      by_cases h : q = p
      · subst h; simp [ih]
      · simp [queue_cons_of_ne h, ih, Ne.symm h]

theorem queue_eq_nil : queue p l = [] ↔ ∀ e, (p, e) ∉ l := by
  simp only [← mem_queue, List.eq_nil_iff_forall_not_mem]

/-- What waits at other places. -/
def others (p : π) : List (π × ε) → List (π × ε)
  | [] => []
  | (q, e) :: rest => if q = p then others p rest else (q, e) :: others p rest

@[simp] theorem others_nil : others p ([] : List (π × ε)) = [] := rfl

@[simp] theorem others_cons_self : others p ((p, e) :: l) = others p l := by simp [others]

theorem others_cons_of_ne (h : q ≠ p) : others p ((q, e) :: l) = (q, e) :: others p l := by
  simp [others, h]

@[simp] theorem queue_others : queue p (others p l) = [] := by
  induction l with
  | nil => rfl
  | cons x l ih =>
      obtain ⟨r, d⟩ := x
      by_cases hr : r = p
      · subst hr; simp [ih]
      · simp [others_cons_of_ne hr, queue_cons_of_ne hr, ih]

theorem queue_others_of_ne (h : q ≠ p) : queue q (others p l) = queue q l := by
  induction l with
  | nil => rfl
  | cons x l ih =>
      obtain ⟨r, d⟩ := x
      by_cases hr : r = p
      · subst hr; simp [queue_cons_of_ne (Ne.symm h), ih]
      · by_cases hq : r = q
        · subst hq; simp [others_cons_of_ne hr, ih]
        · simp [others_cons_of_ne hr, queue_cons_of_ne hq, ih]

theorem others_of_queue_eq_nil (h : queue p l = []) : others p l = l := by
  induction l with
  | nil => rfl
  | cons x l ih =>
      obtain ⟨r, d⟩ := x
      by_cases hr : r = p
      · subst hr; simp at h
      · rw [queue_cons_of_ne hr] at h
        rw [others_cons_of_ne hr, ih h]

theorem perm_queue_append_others :
    ((queue p l).map (fun e => (p, e)) ++ others p l).Perm l := by
  induction l with
  | nil => exact .refl _
  | cons x l ih =>
      obtain ⟨q, d⟩ := x
      by_cases hq : q = p
      · subst hq
        simpa using ih.cons (q, d)
      · rw [queue_cons_of_ne hq, others_cons_of_ne hq]
        exact List.perm_middle.trans (ih.cons _)

/-- The items of the place have arrived before all others. -/
def Front (p : π) (l : List (π × ε)) : Prop :=
  l = (queue p l).map (fun e => (p, e)) ++ others p l

/-- Where items are numbered in the order of their arrival, the numbers tell. -/
theorem front_of_numbered {ι : Type*} [Preorder ι] {number : ε → ι}
    (hl : l.Pairwise fun x y => number x.2 < number y.2)
    (hp : ∀ e ∈ queue p l, ∀ x ∈ others p l, number e < number x.2) : Front p l := by
  induction l with
  | nil => rfl
  | cons x l ih =>
      obtain ⟨q, d⟩ := x
      rw [List.pairwise_cons] at hl
      by_cases hq : q = p
      · subst hq
        rw [queue_cons_self, others_cons_self] at hp
        have hf : Front q l := ih hl.2 fun e he => hp e (List.mem_cons_of_mem _ he)
        unfold Front at hf ⊢
        rw [queue_cons_self, others_cons_self, List.map_cons, List.cons_append, ← hf]
      · rw [queue_cons_of_ne hq, others_cons_of_ne hq] at hp
        have hnil : queue p l = [] := by
          rw [List.eq_nil_iff_forall_not_mem]
          intro e he
          have h₁ := hp e he (q, d) List.mem_cons_self
          have h₂ := hl.1 (p, e) (mem_queue.mp he)
          exact lt_irrefl _ (h₁.trans h₂)
        unfold Front
        rw [queue_cons_of_ne hq, others_cons_of_ne hq, hnil, others_of_queue_eq_nil hnil]
        rfl

theorem front_of_queue_eq_nil (h : queue p l = []) : Front p l := by
  rw [Front, h, others_of_queue_eq_nil h]
  rfl

theorem front_of_forall (h : ∀ x ∈ l, x.1 = p) : Front p l := by
  induction l with
  | nil => rfl
  | cons x l ih =>
      obtain ⟨q, d⟩ := x
      have hq : q = p := h (q, d) List.mem_cons_self
      subst hq
      have hf : Front q l := ih fun x hx => h x (List.mem_cons_of_mem _ hx)
      unfold Front at hf ⊢
      rw [queue_cons_self, others_cons_self, List.map_cons, List.cons_append, ← hf]

/-- A place in front of an item of another place is empty. -/
theorem queue_eq_nil_of_front (h : Front p ((q, e) :: l)) (hq : q ≠ p) :
    queue p ((q, e) :: l) = [] := by
  cases hp : queue p ((q, e) :: l) with
  | nil => rfl
  | cons d es =>
      rw [Front, hp] at h
      exact absurd (congrArg Prod.fst (List.cons.inj h).1) hq

/-- Serves the front place until `rest` is left of it. -/
def advance (r : Relay π ε) (p : π) (rest sent : List ε) : Relay π ε :=
  r.serve (rest.map (fun e => (p, e)) ++ others p r.waiting) sent

theorem queue_advance (r : Relay π ε) (p : π) (rest sent : List ε) (q : π) :
    queue q (r.advance p rest sent).waiting = if q = p then rest else queue q r.waiting := by
  by_cases hq : q = p
  · subst hq; simp [advance, serve]
  · simp [advance, serve, hq, queue_map_of_ne rest (Ne.symm hq), queue_others_of_ne hq]

theorem mem_of_mem_others {x : π × ε} (h : x ∈ others p l) : x ∈ l :=
  perm_queue_append_others.subset (List.mem_append_right _ h)

theorem mem_of_mem_advance {r : Relay π ε} {rest sent taken : List ε}
    (hq : queue p r.waiting = taken ++ rest) {x : π × ε}
    (h : x ∈ (r.advance p rest sent).waiting) : x ∈ r.waiting := by
  rcases List.mem_append.mp h with h | h
  · obtain ⟨e, he, rfl⟩ := List.mem_map.mp h
    exact mem_queue.mp (by rw [hq]; exact List.mem_append_right _ he)
  · exact mem_of_mem_others h

/-! ## In order, and exactly once -/

/-- What has been let out, and behind it what waits, is in the order of arrival. -/
def Ordered (r : Relay π ε) : Prop := (r.out ++ r.waiting.map Prod.snd).Sublist r.arrived

/-- Each item that arrived has been let out or waits, once. -/
def Accounted (r : Relay π ε) : Prop := (r.out ++ r.waiting.map Prod.snd).Perm r.arrived

variable {r : Relay π ε}

omit [DecidableEq π] in
theorem Ordered.arrive (h : r.Ordered) (p : π) (e : ε) : (r.arrive p e).Ordered := by
  simp only [Ordered, Relay.arrive, List.map_append, List.map_cons, List.map_nil,
    ← List.append_assoc]
  exact h.append (.refl _)

omit [DecidableEq π] in
/-- Serving a part of the front keeps the order, also when some of it is lost. -/
theorem Ordered.serve (h : r.Ordered) {taken kept : List (π × ε)} {sent : List ε}
    (hw : r.waiting = taken ++ kept) (hs : sent.Sublist (taken.map Prod.snd)) :
    (r.serve kept sent).Ordered := by
  have hsub : (r.out ++ sent ++ kept.map Prod.snd).Sublist (r.out ++ r.waiting.map Prod.snd) := by
    rw [hw, List.map_append, List.append_assoc]
    exact (List.Sublist.refl _).append (hs.append (.refl _))
  exact hsub.trans h

theorem Ordered.advance (h : r.Ordered) (hf : Front p r.waiting) {taken rest sent : List ε}
    (hq : queue p r.waiting = taken ++ rest) (hs : sent.Sublist taken) :
    (r.advance p rest sent).Ordered := by
  have hw : r.waiting = taken.map (fun e => (p, e)) ++
      (rest.map (fun e => (p, e)) ++ others p r.waiting) := by
    rw [← List.append_assoc, ← List.map_append, ← hq]
    exact hf
  refine h.serve hw ?_
  simpa [Function.comp_def] using hs

omit [DecidableEq π] in
theorem Ordered.out_sublist (h : r.Ordered) : r.out.Sublist r.arrived :=
  (List.sublist_append_left _ _).trans h

omit [DecidableEq π] in
theorem Accounted.arrive (h : r.Accounted) (p : π) (e : ε) : (r.arrive p e).Accounted := by
  simp only [Accounted, Relay.arrive, List.map_append, List.map_cons, List.map_nil,
    ← List.append_assoc]
  exact h.append_right _

omit [DecidableEq π] in
/-- Serving loses nothing when all that is taken is sent. -/
theorem Accounted.serve (h : r.Accounted) {taken kept : List (π × ε)} {sent : List ε}
    (hw : r.waiting.Perm (taken ++ kept)) (hs : sent.Perm (taken.map Prod.snd)) :
    (r.serve kept sent).Accounted := by
  have hperm : (r.out ++ sent ++ kept.map Prod.snd).Perm (r.out ++ r.waiting.map Prod.snd) := by
    rw [List.append_assoc]
    refine List.Perm.append_left _ ?_
    refine (hs.append_right _).trans ?_
    rw [← List.map_append]
    exact (hw.map _).symm
  exact hperm.trans h

end Relay

end OFM.Lib
