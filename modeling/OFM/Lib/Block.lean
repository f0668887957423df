import Mathlib.Data.List.Basic
import Mathlib.Data.List.Induction
import Mathlib.Data.List.ReduceOption

/-!
# Blocks of memory

A block that has been allocated, and what is stored at an offset from its start, inside it or not.
-/

namespace OFM.Lib

structure Block (α : Type*) where
  /-- What the block holds; nothing where nothing has been stored. -/
  cells : List (Option α)
  /-- The offsets of all stores so far. -/
  stores : List Nat

namespace Block

variable {α : Type*} {size offset : Nat} {a : α} {as bs : List α}

def alloc (α : Type*) (size : Nat) : Block α := ⟨List.replicate size none, []⟩

/-- `malloc` of a signed size: there is no memory for a negative one, which is a huge one without its sign. -/
def malloc (α : Type*) (size : Int) : Option (Block α) :=
  if size < 0 then none else some (alloc α size.toNat)

/-- A store outside the block changes no cell of it. -/
def store (b : Block α) (offset : Nat) (a : α) : Block α :=
  ⟨b.cells.set offset (some a), b.stores ++ [offset]⟩

/-- One value behind the other. -/
def storeAll (b : Block α) : Nat → List α → Block α
  | _, [] => b
  | offset, a :: as => (b.store offset a).storeAll (offset + 1) as

/-- Nothing has been stored outside the block. -/
def InBounds (b : Block α) : Prop := ∀ offset ∈ b.stores, offset < b.cells.length

/-- A block into which values have been stored from its start on. -/
def filled (size : Nat) (as : List α) : Block α := (alloc α size).storeAll 0 as

@[simp] theorem store_length (b : Block α) : (b.store offset a).cells.length = b.cells.length :=
  List.length_set

theorem storeAll_append (b : Block α) :
    b.storeAll offset (as ++ bs) = (b.storeAll offset as).storeAll (offset + as.length) bs := by
  induction as generalizing b offset with
  | nil => rfl
  | cons a as ih =>
      rw [List.cons_append, storeAll, ih, storeAll, List.length_cons, Nat.add_comm as.length 1,
        ← Nat.add_assoc]

@[simp] theorem filled_nil : filled size ([] : List α) = alloc α size := rfl

/-- What is stored at the end of the values goes on with them. -/
theorem filled_storeAll : (filled size as).storeAll as.length bs = filled size (as ++ bs) := by
  rw [filled, filled, storeAll_append, Nat.zero_add]

theorem filled_store : (filled size as).store as.length a = filled size (as ++ [a]) := by
  rw [← filled_storeAll, storeAll, storeAll]

/-! ## What is in a block -/

theorem filled_stores : (filled size as).stores = List.range as.length := by
  induction as using List.reverseRecOn with
  | nil => rfl
  | append_singleton as a ih =>
      rw [← filled_store, store, ih, List.length_append, List.length_singleton, List.range_succ]

/-- The values that have room. -/
theorem filled_cells :
    (filled size as).cells = (as.take size).map some ++ List.replicate (size - as.length) none := by
  induction as using List.reverseRecOn with
  | nil => simp [filled, storeAll, alloc]
  | append_singleton as a ih =>
      rw [← filled_store, store, ih, List.length_append, List.length_singleton]
      by_cases hroom : as.length < size
      · obtain ⟨k, rfl⟩ : ∃ k, size = as.length + (k + 1) := ⟨size - as.length - 1, by omega⟩
        have hfree : as.length + (k + 1) - as.length = k + 1 := by omega
        have hleft : as.length + (k + 1) - (as.length + 1) = k := by omega
        rw [List.take_of_length_le (by omega), List.take_of_length_le (by simp), hfree, hleft,
          List.set_append_right _ _ (by simp), List.length_map, Nat.sub_self, List.replicate_succ]
        simp
      · have hnone : size - as.length = 0 := by omega
        have hnone' : size - (as.length + 1) = 0 := by omega
        rw [hnone, hnone', List.take_append_of_le_length (by omega)]
        refine List.set_eq_of_length_le ?_
        rw [List.length_append, List.length_map, List.length_take, List.length_replicate]
        omega

theorem filled_reduceOption : (filled size as).cells.reduceOption = as.take size := by
  rw [filled_cells, List.reduceOption_append, List.reduceOption_replicate_none, List.append_nil,
    List.reduceOption, List.filterMap_map]
  exact List.filterMap_some

theorem filled_cells_length : (filled size as).cells.length = size := by
  rw [filled_cells, List.length_append, List.length_map, List.length_take, List.length_replicate]
  omega

theorem filled_inBounds_iff : (filled size as).InBounds ↔ as.length ≤ size := by
  simp only [InBounds, filled_stores, filled_cells_length, List.mem_range]
  constructor
  · intro h
    by_contra hlt
    exact Nat.lt_irrefl size (h size (by omega))
  · intro h offset hoffset
    omega

end Block

end OFM.Lib
