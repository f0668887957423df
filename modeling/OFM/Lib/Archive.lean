import Mathlib.Data.BitVec

/-!
# Archives

An archive is a list of items. What is saved adds items at the end; what is loaded takes items off the
front.
-/

namespace OFM.Lib

/-- A number or a block of bytes. -/
inductive Item where
  | number (n : Nat)
  | block (bytes : List (BitVec 8))
  deriving DecidableEq

/-- What is read off the front of an archive, if it fits. -/
abbrev Loader := StateT (List Item) Option

namespace Loader

def number : Loader Nat := fun
  | .number n :: rest => some (n, rest)
  | _ => none

def block : Loader (List (BitVec 8)) := fun
  | .block b :: rest => some (b, rest)
  | _ => none

/-- As many as are asked for. -/
def times {α : Type} (x : Loader α) : Nat → Loader (List α)
  | 0 => pure []
  | n + 1 => do
      let a ← x
      let as ← times x n
      return a :: as

/-- How many there are, and one after the other. -/
def list {α : Type} (x : Loader α) : Loader (List α) := do
  let n ← number
  times x n

variable {rest : List Item}

@[simp] theorem number_run {n : Nat} : number.run (.number n :: rest) = some (n, rest) := rfl

@[simp] theorem block_run {b : List (BitVec 8)} : block.run (.block b :: rest) = some (b, rest) := rfl

theorem times_run {α : Type} {x : Loader α} {f : α → List Item} :
    ∀ {l : List α}, (∀ a ∈ l, ∀ rest, x.run (f a ++ rest) = some (a, rest)) → ∀ rest,
      (times x l.length).run (l.flatMap f ++ rest) = some (l, rest)
  | [], _, _ => rfl
  | a :: l, h, rest => by
      have ih := times_run (fun b hb => h b (List.mem_cons_of_mem a hb)) rest
      rw [List.flatMap_cons, List.append_assoc, List.length_cons, times]
      simp [h a (List.mem_cons_self ..), ih]

/-- A list is loaded if its elements are. -/
theorem list_run {α : Type} {x : Loader α} {f : α → List Item} {l : List α}
    (h : ∀ a ∈ l, ∀ rest, x.run (f a ++ rest) = some (a, rest)) (rest : List Item) :
    (list x).run (.number l.length :: (l.flatMap f ++ rest)) = some (l, rest) := by
  simp [list, times_run h]

end Loader

/-- Loading what has been saved takes exactly its items and gives it back. -/
class Archived (α : Type) where
  save : α → List Item
  load : Loader α
  load_save : ∀ a rest, load.run (save a ++ rest) = some (a, rest)

export Archived (save load)

attribute [simp] Archived.load_save

namespace Archived

variable {α : Type} {w : Nat}

/-- What comes next is loaded from the rest. -/
theorem bind_run [Archived α] {β : Type} (f : α → Loader β) (a : α) (rest : List Item) :
    (load >>= f).run (save a ++ rest) = (f a).run rest := by simp

instance : Archived (BitVec w) where
  save x := [.number x.toNat]
  load := do
    let n ← Loader.number
    if n < 2 ^ w then pure (BitVec.ofNat w n) else failure
  load_save x rest := by
    have hx : x.toNat < 2 ^ w := x.isLt
    simp [hx]

instance : Archived Bool where
  save b := [.number b.toNat]
  load := do
    let n ← Loader.number
    if n < 2 then pure (n = 1) else failure
  load_save b rest := by cases b <;> simp

instance : Archived (List (BitVec 8)) where
  save b := [.block b]
  load := Loader.block
  load_save _ _ := rfl

/-- A pointer: whether there is an object, and the object. -/
instance [Archived α] : Archived (Option α) where
  save
    | none => save false
    | some a => save true ++ save a
  load := do
    if ← load (α := Bool) then return some (← load) else return none
  load_save o rest := by cases o <;> simp

end Archived

end OFM.Lib
