import Mathlib.Data.List.Nodup
import Mathlib.Logic.Function.Basic

/-!
# Doubly linked lists

Cells with a pointer either way in a memory of addresses, and the operations that push a cell, unlink one
and change the value of one. An operation that accesses memory which is not allocated has no result.
-/

namespace OFM.Lib

universe u

/-- A cell of a list. -/
structure Node (α : Type u) where
  prev : Option Nat
  next : Option Nat
  val : α

/-- What is allocated. -/
abbrev Heap (α : Type u) := Nat → Option (Node α)

namespace Heap

variable {α : Type u}

/-! ## Operations -/

def store (heap : Heap α) (a : Nat) (node : Node α) : Heap α := Function.update heap a (some node)

def free (heap : Heap α) (a : Nat) : Heap α := Function.update heap a none

/-- `if (cell) cell->prev = prev` -/
def setPrev (heap : Heap α) (cell prev : Option Nat) : Option (Heap α) :=
  match cell with
  | none => some heap
  | some a => (heap a).map fun node => heap.store a { node with prev := prev }

/-- `if (cell) cell->next = next` -/
def setNext (heap : Heap α) (cell next : Option Nat) : Option (Heap α) :=
  match cell with
  | none => some heap
  | some a => (heap a).map fun node => heap.store a { node with next := next }

/-- A new cell in front of the others: the memory, and the head. -/
def push (heap : Heap α) (head : Option Nat) (a : Nat) (v : α) : Option (Heap α × Option Nat) :=
  ((heap.store a ⟨none, head, v⟩).setPrev head (some a)).map fun heap => (heap, some a)

/-- The cells beside a cell are linked to each other; the cell stays as it is. -/
def unlink (heap : Heap α) (head : Option Nat) (a : Nat) : Option (Heap α × Option Nat) :=
  (heap a).bind fun node =>
    ((heap.setNext node.prev node.next).bind fun heap => heap.setPrev node.next node.prev).map fun heap =>
      (heap, if node.prev = none then node.next else head)

/-! ## Lists -/

/-- The cells from `head` on: `prev` is behind the first, `last` is the last or `prev` if there is none,
and `tail` is what comes after it. -/
inductive Seg (heap : Heap α) : Option Nat → Option Nat → List (Nat × α) → Option Nat → Option Nat → Prop
  | nil {prev head : Option Nat} : Seg heap prev head [] prev head
  | cons {prev next last tail : Option Nat} {a : Nat} {v : α} {cells : List (Nat × α)} :
      heap a = some ⟨prev, next, v⟩ → Seg heap (some a) next cells last tail →
        Seg heap prev (some a) ((a, v) :: cells) last tail

/-- A whole list. -/
def Linked (heap : Heap α) (head : Option Nat) (cells : List (Nat × α)) : Prop :=
  (cells.map Prod.fst).Nodup ∧ ∃ last, heap.Seg none head cells last none

variable {heap heap' : Heap α} {prev head last tail : Option Nat} {a : Nat} {v : α}
  {cells cells' : List (Nat × α)}

theorem seg_append : heap.Seg prev head (cells ++ cells') last tail ↔
    ∃ q n, heap.Seg prev head cells q n ∧ heap.Seg q n cells' last tail := by
  induction cells generalizing prev head with
  | nil =>
      constructor
      · exact fun h => ⟨prev, head, .nil, h⟩
      · rintro ⟨q, n, hnil, h⟩
        cases hnil
        exact h
  | cons cell cells ih =>
      constructor
      · intro h
        cases h with
        | cons hcell h =>
            obtain ⟨q, n, h, h'⟩ := ih.mp h
            exact ⟨q, n, .cons hcell h, h'⟩
      · rintro ⟨q, n, h, h'⟩
        cases h with
        | cons hcell h => exact .cons hcell (ih.mpr ⟨q, n, h, h'⟩)

/-- A list is about its own cells only. -/
theorem Seg.congr (h : heap.Seg prev head cells last tail)
    (hsame : ∀ a ∈ cells.map Prod.fst, heap' a = heap a) : heap'.Seg prev head cells last tail := by
  induction h with
  | nil => exact .nil
  | cons hcell _ ih =>
      simp only [List.map_cons, List.forall_mem_cons] at hsame
      exact .cons (hsame.1.trans hcell) (ih hsame.2)

theorem Seg.allocated (h : heap.Seg prev head cells last tail) :
    ∀ a ∈ cells.map Prod.fst, heap a ≠ none := by
  induction h with
  | nil => simp
  | cons hcell _ ih =>
      simp only [List.map_cons, List.forall_mem_cons]
      exact ⟨by simp [hcell], ih⟩

theorem Linked.congr (h : heap.Linked head cells) (hsame : ∀ a ∈ cells.map Prod.fst, heap' a = heap a) :
    heap'.Linked head cells := by
  obtain ⟨hnd, last, h⟩ := h
  exact ⟨hnd, last, h.congr hsame⟩

theorem Linked.allocated (h : heap.Linked head cells) : ∀ a ∈ cells.map Prod.fst, heap a ≠ none := by
  obtain ⟨-, last, h⟩ := h
  exact h.allocated

theorem linked_nil : heap.Linked none [] := ⟨List.nodup_nil, none, .nil⟩

/-- The cells are those that the pointers lead to. -/
theorem Seg.unique (h : heap.Seg prev head cells last none) {last' : Option Nat}
    (h' : heap.Seg prev head cells' last' none) : cells = cells' := by
  generalize htail : (none : Option Nat) = tail at h
  induction h generalizing cells' with
  | nil =>
      subst htail
      cases h'
      rfl
  | cons hcell _ ih =>
      cases h' with
      | cons hcell' h' =>
          rw [hcell] at hcell'
          cases hcell'
          rw [ih h' htail]

theorem Linked.unique (h : heap.Linked head cells) (h' : heap.Linked head cells') : cells = cells' := by
  obtain ⟨-, last, h⟩ := h
  obtain ⟨-, last', h'⟩ := h'
  exact h.unique h'

/-! ## What the operations leave -/

@[simp] theorem store_self (heap : Heap α) (a : Nat) (node : Node α) : heap.store a node a = some node :=
  Function.update_self ..

theorem store_of_ne (heap : Heap α) {a b : Nat} (h : b ≠ a) (node : Node α) :
    heap.store a node b = heap b := Function.update_of_ne h _ _

/-- The first cell is linked to what is before it. -/
theorem Seg.setPrev (h : heap.Seg prev head cells last none) (hnd : (cells.map Prod.fst).Nodup)
    (prev' : Option Nat) : ∃ heap' last', heap.setPrev head prev' = some heap' ∧
      heap'.Seg prev' head cells last' none ∧ ∀ a, a ∉ cells.map Prod.fst → heap' a = heap a := by
  cases h with
  | nil => exact ⟨heap, prev', rfl, .nil, fun _ _ => rfl⟩
  | @cons _ next _ _ a v cells hcell h =>
      obtain ⟨hnot, -⟩ := List.nodup_cons.mp hnd
      refine ⟨heap.store a ⟨prev', next, v⟩, last, by simp [Heap.setPrev, hcell], ?_, ?_⟩
      · refine .cons (store_self ..) (h.congr fun b hb => store_of_ne heap ?_ _)
        rintro rfl
        exact hnot hb
      · intro b hb
        refine store_of_ne heap ?_ _
        rintro rfl
        exact hb (List.mem_cons_self ..)

/-- The last cell is linked to what comes after it; where there is none, the head is. -/
theorem Seg.setNext (h : heap.Seg none head cells last tail) (hnd : (cells.map Prod.fst).Nodup)
    (tail' : Option Nat) : ∃ heap', heap.setNext last tail' = some heap' ∧
      heap'.Seg none (if last = none then tail' else head) cells last tail' ∧
      ∀ a, a ∉ cells.map Prod.fst → heap' a = heap a := by
  rcases List.eq_nil_or_concat cells with rfl | ⟨cells, ⟨a, v⟩, rfl⟩
  · cases h
    exact ⟨heap, rfl, .nil, fun _ _ => rfl⟩
  · rw [List.concat_eq_append] at h hnd ⊢
    obtain ⟨q, n, hinit, hlast⟩ := seg_append.mp h
    cases hlast with
    | cons hcell hnil =>
        cases hnil
        have hnot : a ∉ cells.map Prod.fst := by
          rw [List.map_append, List.nodup_append] at hnd
          intro ha
          exact hnd.2.2 a ha a (by simp) rfl
        refine ⟨heap.store a ⟨q, tail', v⟩, by simp [Heap.setNext, hcell], ?_, ?_⟩
        · rw [if_neg nofun]
          refine seg_append.mpr ⟨q, some a, ?_, .cons (store_self ..) .nil⟩
          refine hinit.congr fun b hb => store_of_ne heap ?_ _
          rintro rfl
          exact hnot hb
        · intro b hb
          refine store_of_ne heap ?_ _
          rintro rfl
          exact hb (by simp)

/-- A new cell comes first. -/
theorem Linked.push (h : heap.Linked head cells) (ha : heap a = none) (v : α) :
    ∃ heap', heap.push head a v = some (heap', some a) ∧ heap'.Linked (some a) ((a, v) :: cells) ∧
      ∀ b, b ∉ cells.map Prod.fst → b ≠ a → heap' b = heap b := by
  have hnot : a ∉ cells.map Prod.fst := fun hmem => h.allocated a hmem ha
  obtain ⟨hnd, last, hseg⟩ := h
  have hstored : (heap.store a ⟨none, head, v⟩).Seg none head cells last none := by
    refine hseg.congr fun b hb => store_of_ne heap ?_ _
    rintro rfl
    exact hnot hb
  obtain ⟨heap', last', hset, hseg', hframe⟩ := hstored.setPrev hnd (some a)
  refine ⟨heap', by simp [Heap.push, hset], ⟨List.nodup_cons.mpr ⟨hnot, hnd⟩, last', ?_⟩, ?_⟩
  · refine .cons ?_ hseg'
    rw [hframe a hnot, store_self]
  · intro b hb hba
    rw [hframe b hb, store_of_ne heap hba]

/-! ## On the way through a list -/

/-- A list has been read up to `curr`. -/
structure Cursor (heap : Heap α) (head : Option Nat) (pre : List (Nat × α)) (curr : Option Nat)
    (post : List (Nat × α)) : Prop where
  nodup : ((pre ++ post).map Prod.fst).Nodup
  segs : ∃ q last, heap.Seg none head pre q curr ∧ heap.Seg q curr post last none

variable {pre post : List (Nat × α)} {curr : Option Nat} {node : Node α}

theorem Linked.cursor (h : heap.Linked head cells) : heap.Cursor head [] head cells := by
  obtain ⟨hnd, last, h⟩ := h
  exact ⟨hnd, none, last, .nil, h⟩

theorem Linked.at (h : heap.Linked head (pre ++ (a, v) :: post)) :
    heap.Cursor head pre (some a) ((a, v) :: post) := by
  obtain ⟨hnd, last, h⟩ := h
  obtain ⟨q, n, hpre, hpost⟩ := seg_append.mp h
  cases hpost with
  | cons hcell hpost => exact ⟨hnd, q, last, hpre, .cons hcell hpost⟩

theorem Cursor.linked (h : heap.Cursor head pre curr post) : heap.Linked head (pre ++ post) := by
  obtain ⟨hnd, q, last, hpre, hpost⟩ := h
  exact ⟨hnd, last, seg_append.mpr ⟨q, curr, hpre, hpost⟩⟩

/-- At the end no cell is left. -/
theorem Cursor.done (h : heap.Cursor head pre none post) : post = [] := by
  obtain ⟨-, q, last, -, hpost⟩ := h
  cases hpost
  rfl

/-- Before the end there is a cell. -/
theorem Cursor.here (h : heap.Cursor head pre (some a) post) :
    ∃ node rest, heap a = some node ∧ post = (a, node.val) :: rest := by
  obtain ⟨-, q, last, -, hpost⟩ := h
  cases hpost with
  | cons hcell _ => exact ⟨_, _, hcell, rfl⟩

theorem Cursor.next (h : heap.Cursor head pre (some a) ((a, v) :: post)) (ha : heap a = some node) :
    heap.Cursor head (pre ++ [(a, v)]) node.next post := by
  obtain ⟨hnd, q, last, hpre, hpost⟩ := h
  cases hpost with
  | cons hcell hpost =>
      rw [hcell] at ha
      cases ha
      exact ⟨by simpa using hnd, some a, last, seg_append.mpr ⟨q, some a, hpre, .cons hcell .nil⟩, hpost⟩

/-- The cell has another value. -/
theorem Cursor.setVal (h : heap.Cursor head pre (some a) ((a, v) :: post)) (ha : heap a = some node)
    (w : α) : (heap.store a { node with val := w }).Cursor head pre (some a) ((a, w) :: post) := by
  obtain ⟨hnd, q, last, hpre, hpost⟩ := h
  cases hpost with
  | @cons _ next _ _ _ _ _ hcell hpost =>
      rw [hcell] at ha
      cases ha
      have hnd' := hnd
      rw [List.map_append, List.map_cons, List.nodup_append, List.nodup_cons] at hnd
      obtain ⟨-, ⟨hnotpost, -⟩, hdisjoint⟩ := hnd
      refine ⟨by simpa using hnd', q, last, ?_, .cons (store_self ..) ?_⟩
      · refine hpre.congr fun b hb => store_of_ne heap ?_ _
        rintro rfl
        exact hdisjoint b hb b (List.mem_cons_self ..) rfl
      · refine hpost.congr fun b hb => store_of_ne heap ?_ _
        rintro rfl
        exact hnotpost hb

/-- Two parts of a list are linked to each other. -/
theorem seg_link {q q' t n last : Option Nat} (hpre : heap.Seg none head pre q t)
    (hpost : heap.Seg q' n post last none) (hnd : ((pre ++ post).map Prod.fst).Nodup) :
    ∃ heap' last', ((heap.setNext q n).bind fun heap => heap.setPrev n q) = some heap' ∧
      heap'.Seg none (if q = none then n else head) pre q n ∧ heap'.Seg q n post last' none ∧
      ∀ b, b ∉ (pre ++ post).map Prod.fst → heap' b = heap b := by
  rw [List.map_append, List.nodup_append] at hnd
  obtain ⟨hndpre, hndpost, hdisjoint⟩ := hnd
  obtain ⟨heap₁, hset₁, hpre₁, hframe₁⟩ := hpre.setNext hndpre n
  have hpost₁ := hpost.congr fun b hb => hframe₁ b fun hb' => hdisjoint b hb' b hb rfl
  obtain ⟨heap₂, last₂, hset₂, hpost₂, hframe₂⟩ := hpost₁.setPrev hndpost q
  have hpre₂ := hpre₁.congr fun b hb => hframe₂ b fun hb' => hdisjoint b hb b hb' rfl
  refine ⟨heap₂, last₂, by rw [hset₁]; exact hset₂, hpre₂, hpost₂, fun b hb => ?_⟩
  rw [List.map_append, List.mem_append, not_or] at hb
  rw [hframe₂ b hb.2, hframe₁ b hb.1]

theorem Seg.head_eq (h : heap.Seg none head cells none tail) : head = tail := by
  rcases List.eq_nil_or_concat cells with rfl | ⟨cells, cell, rfl⟩
  · cases h
    rfl
  · rw [List.concat_eq_append] at h
    obtain ⟨q, n, -, hlast⟩ := seg_append.mp h
    cases hlast with
    | cons _ hnil => cases hnil

/-- A cell that has been taken out still says where it was. -/
structure Unlinked (heap : Heap α) (head : Option Nat) (pre : List (Nat × α)) (a : Nat) (node : Node α)
    (post : List (Nat × α)) : Prop where
  cell : heap a = some node
  notMem : a ∉ (pre ++ post).map Prod.fst
  nodup : ((pre ++ post).map Prod.fst).Nodup
  segs : ∃ last, heap.Seg none head pre node.prev node.next ∧
    heap.Seg node.prev node.next post last none

theorem Unlinked.cursor (h : heap.Unlinked head pre a node post) : heap.Cursor head pre node.next post := by
  obtain ⟨last, hpre, hpost⟩ := h.segs
  exact ⟨h.nodup, node.prev, last, hpre, hpost⟩

/-- A cell is taken out. -/
theorem Cursor.unlink (h : heap.Cursor head pre (some a) ((a, v) :: post)) (ha : heap a = some node) :
    ∃ heap' head', heap.unlink head a = some (heap', head') ∧ heap'.Unlinked head' pre a node post ∧
      ∀ b, b ∉ (pre ++ post).map Prod.fst → heap' b = heap b := by
  obtain ⟨hnd, q, last, hpre, hpost⟩ := h
  cases hpost with
  | @cons _ next _ _ _ _ _ hcell hpost =>
      rw [hcell] at ha
      cases ha
      rw [List.map_append, List.map_cons, List.nodup_middle, List.nodup_cons, ← List.map_append] at hnd
      obtain ⟨hnot, hnd⟩ := hnd
      obtain ⟨heap', last', hlink, hpre', hpost', hframe⟩ := seg_link hpre hpost hnd
      refine ⟨heap', _, ?_, ⟨?_, hnot, hnd, last', hpre', hpost'⟩, hframe⟩
      · simp only [Heap.unlink, hcell, Option.bind_some, hlink, Option.map_some]
      · rw [hframe a hnot, hcell]

/-- To take it out again changes nothing of the list. -/
theorem Unlinked.unlink (h : heap.Unlinked head pre a node post) :
    ∃ heap', heap.unlink head a = some (heap', head) ∧ heap'.Unlinked head pre a node post ∧
      ∀ b, b ∉ (pre ++ post).map Prod.fst → heap' b = heap b := by
  obtain ⟨hcell, hnot, hnd, last, hpre, hpost⟩ := h
  obtain ⟨heap', last', hlink, hpre', hpost', hframe⟩ := seg_link hpre hpost hnd
  have hhead : (if node.prev = none then node.next else head) = head := by
    split
    · rename_i hprev
      rw [hprev] at hpre
      exact hpre.head_eq.symm
    · rfl
  rw [hhead] at hpre'
  refine ⟨heap', ?_, ⟨?_, hnot, hnd, last', hpre', hpost'⟩, hframe⟩
  · simp only [Heap.unlink, hcell, Option.bind_some, hlink, Option.map_some, hhead]
  · rw [hframe a hnot, hcell]

/-- It can be freed then. -/
theorem Unlinked.free (h : heap.Unlinked head pre a node post) :
    (heap.free a).Cursor head pre node.next post := by
  have hother : ∀ b, b ≠ a → heap.free a b = heap b := fun b hb => Function.update_of_ne hb _ _
  have hne : ∀ b ∈ (pre ++ post).map Prod.fst, b ≠ a := by
    rintro b hb rfl
    exact h.notMem hb
  obtain ⟨hnd, q, last, hpre, hpost⟩ := h.cursor
  rw [List.map_append] at hne
  exact ⟨hnd, q, last, hpre.congr fun b hb => hother b (hne b (List.mem_append_left _ hb)),
    hpost.congr fun b hb => hother b (hne b (List.mem_append_right _ hb))⟩

end Heap

end OFM.Lib
