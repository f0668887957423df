import Mathlib.Algebra.BigOperators.Fin
import Mathlib.Algebra.Order.Ring.Cast
import Mathlib.Algebra.Order.Ring.Rat
import Mathlib.Logic.Equiv.Fin.Basic

/-!
# Linear programs

Columns with bounds, and rows with a coefficient for each column. Columns are counted from 1; of an array of
coefficients the element at 0 is not looked at. The columns may be the cells of a matrix, row by row.
-/

namespace OFM.Lib

/-! ## Programs -/

/-- What values a column may have. -/
structure Column where
  lower : ℚ
  upper : Option ℚ
  integer : Bool

inductive Relation
  | le
  | ge
  | eq

structure Row where
  coeff : List ℚ
  relation : Relation
  rhs : ℚ

structure Program where
  columns : Nat
  column : Nat → Column
  rows : List Row

structure Column.May (column : Column) (a : ℚ) : Prop where
  lower : column.lower ≤ a
  upper : ∀ u ∈ column.upper, a ≤ u
  integer : column.integer → ∃ z : Int, a = z

def Relation.Holds (a b : ℚ) : Relation → Prop
  | le => a ≤ b
  | ge => b ≤ a
  | eq => a = b

/-- What coefficients make of the values of the columns. -/
def valueOf (columns : Nat) (coeff : List ℚ) (v : Nat → ℚ) : ℚ :=
  ∑ j ∈ Finset.range columns, coeff[j + 1]?.getD 0 * v (j + 1)

namespace Program

variable {p : Program} {j columns n : Nat} {v : Nat → ℚ} {row : Row} {lower upper : ℚ}

structure Accepts (p : Program) (v : Nat → ℚ) : Prop where
  bounds : ∀ j, 1 ≤ j → j ≤ p.columns → (p.column j).May (v j)
  rows : ∀ row ∈ p.rows, row.relation.Holds (valueOf p.columns row.coeff v) row.rhs

/-- Columns that are not negative, and no rows. -/
def empty (columns : Nat) : Program := ⟨columns, fun _ => ⟨0, none, false⟩, []⟩

def setBounds (p : Program) (j : Nat) (lower upper : ℚ) : Program :=
  { p with column := Function.update p.column j { p.column j with lower := lower, upper := some upper } }

/-- A binary column is an integer one with the bounds 0 and 1. -/
def setBinary (p : Program) (j : Nat) : Program := { p with column := Function.update p.column j ⟨0, some 1, true⟩ }

def addConstraint (p : Program) (row : Row) : Program := { p with rows := p.rows ++ [row] }

@[simp] theorem columns_empty : (empty columns).columns = columns := rfl

@[simp] theorem columns_setBounds : (p.setBounds j lower upper).columns = p.columns := rfl

@[simp] theorem columns_setBinary : (p.setBinary j).columns = p.columns := rfl

@[simp] theorem columns_addConstraint : (p.addConstraint row).columns = p.columns := rfl

@[simp] theorem rows_empty : (empty columns).rows = [] := rfl

@[simp] theorem rows_setBounds : (p.setBounds j lower upper).rows = p.rows := rfl

@[simp] theorem rows_setBinary : (p.setBinary j).rows = p.rows := rfl

theorem accepts_addConstraint :
    (p.addConstraint row).Accepts v ↔ p.Accepts v ∧ row.relation.Holds (valueOf p.columns row.coeff v) row.rhs := by
  constructor
  · intro h
    constructor
    · exact ⟨h.bounds, fun row' hrow => h.rows row' (List.mem_append_left _ hrow)⟩
    · exact h.rows row (by simp [addConstraint])
  · intro h
    refine ⟨h.1.bounds, fun row' hrow => ?_⟩
    cases List.mem_append.mp hrow with
    | inl hrow => exact h.1.rows row' hrow
    | inr hrow =>
        rw [List.mem_singleton.mp hrow]
        exact h.2

end Program

/-! ## Columns of two values -/

theorem may_binary_iff {a : ℚ} : (Column.mk 0 (some 1) true).May a ↔ a = 0 ∨ a = 1 := by
  constructor
  · intro h
    obtain ⟨z, rfl⟩ := h.integer rfl
    have hlower : 0 ≤ z := Int.cast_nonneg_iff.mp h.lower
    have hupper : z ≤ 1 := by exact_mod_cast (h.upper 1 rfl : (z : ℚ) ≤ 1)
    obtain rfl | rfl : z = 0 ∨ z = 1 := by omega
    · simp
    · simp
  · intro h
    cases h with
    | inl h =>
        subst h
        exact ⟨le_refl _, by simp, fun _ => ⟨0, by simp⟩⟩
    | inr h =>
        subst h
        exact ⟨by simp, by simp, fun _ => ⟨1, by simp⟩⟩

theorem may_zero_iff {a : ℚ} : (Column.mk 0 (some 0) true).May a ↔ a = 0 := by
  constructor
  · exact fun h => le_antisymm (h.upper 0 rfl) h.lower
  · intro h
    subst h
    exact ⟨le_refl _, by simp, fun _ => ⟨0, by simp⟩⟩

/-! ## Matrices -/

section Matrix

variable {m n : Nat}

theorem cell_div {s d : Nat} (hd : d < n) : (s * n + d) / n = s := by
  rw [Nat.add_comm, Nat.add_mul_div_right _ _ (Nat.zero_lt_of_lt hd), Nat.div_eq_of_lt hd, Nat.zero_add]

theorem cell_mod {s d : Nat} (hd : d < n) : (s * n + d) % n = d := by
  rw [Nat.mul_add_mod_self_right, Nat.mod_eq_of_lt hd]

theorem cell_inj {s d s' d' : Nat} (hd : d < n) (hd' : d' < n) : s * n + d = s' * n + d' ↔ s = s' ∧ d = d' := by
  constructor
  · intro h
    have hs := congrArg (· / n) h
    have hd'' := congrArg (· % n) h
    simp only [cell_div hd, cell_div hd', cell_mod hd, cell_mod hd'] at hs hd''
    exact ⟨hs, hd''⟩
  · rintro ⟨rfl, rfl⟩
    rfl

theorem cell_lt {s d : Nat} (hs : s < m) (hd : d < n) : s * n + d < m * n := by
  have := Nat.mul_le_mul_right n (Nat.succ_le_of_lt hs)
  rw [Nat.succ_mul] at this
  omega

theorem forall_cells {P : Nat → Prop} :
    (∀ j, 1 ≤ j → j ≤ m * n → P j) ↔ ∀ (s : Fin m) (d : Fin n), P (s * n + d + 1) := by
  constructor
  · intro h s d
    exact h _ (Nat.succ_pos _) (cell_lt s.isLt d.isLt)
  · intro h j hpos hle
    obtain ⟨j, rfl⟩ : ∃ i, j = i + 1 := ⟨j - 1, by omega⟩
    have hn : 0 < n := Nat.pos_of_ne_zero fun hn => by simp [hn] at hle
    have hcell := h ⟨j / n, Nat.div_lt_of_lt_mul (by rwa [Nat.mul_comm])⟩ ⟨j % n, Nat.mod_lt j hn⟩
    rwa [Nat.div_add_mod'] at hcell

/-- What stands row by row is added up row by row. -/
theorem sum_cells {M : Type*} [AddCommMonoid M] (f : Nat → M) :
    ∑ j ∈ Finset.range (m * n), f j = ∑ s : Fin m, ∑ d : Fin n, f (s * n + d) := by
  rw [Finset.sum_range, ← finProdFinEquiv.sum_comp, Fintype.sum_prod_type]
  simp [add_comm, mul_comm]

/-- The columns have the values of a matrix of zeros and ones. -/
def Encodes (x : Fin m → Fin n → Bool) (v : Nat → ℚ) : Prop :=
  ∀ (s : Fin m) (d : Fin n), v (s * n + d + 1) = if x s d then 1 else 0

theorem exists_encodes (x : Fin m → Fin n → Bool) : ∃ v, Encodes x v := by
  let at' (p : Fin m × Fin n) : ℚ := if x p.1 p.2 then 1 else 0
  refine ⟨fun j => if h : j - 1 < m * n then at' (finProdFinEquiv.symm ⟨j - 1, h⟩) else 0, fun s d => ?_⟩
  have hlt : s * n + d < m * n := cell_lt s.isLt d.isLt
  have hcell : (⟨s * n + d, hlt⟩ : Fin (m * n)) = finProdFinEquiv (s, d) := by
    apply Fin.ext
    simp [add_comm, mul_comm]
  simp only [Nat.add_sub_cancel, dif_pos hlt, hcell, Equiv.symm_apply_apply]
  rfl

theorem exists_encodes_of_binary {v : Nat → ℚ} (h : ∀ (s : Fin m) (d : Fin n), v (s * n + d + 1) = 0 ∨ v (s * n + d + 1) = 1) :
    ∃ x : Fin m → Fin n → Bool, Encodes x v := by
  refine ⟨fun s d => decide (v (s * n + d + 1) = 1), fun s d => ?_⟩
  cases h s d with
  | inl h => simp [h]
  | inr h => simp [h]

/-- A row of a matrix of coefficients. -/
theorem valueOf_cells {x : Fin m → Fin n → Bool} {v : Nat → ℚ} {coeff : List ℚ} (hx : Encodes x v) :
    valueOf (m * n) coeff v = ∑ s : Fin m, ∑ d : Fin n, if x s d then coeff[s * n + d + 1]?.getD 0 else 0 := by
  rw [valueOf, sum_cells]
  simp only [hx _ _, mul_ite, mul_one, mul_zero]

end Matrix

end OFM.Lib
