import Mathlib.Algebra.Order.BigOperators.Group.Finset
import OFM.Algorithms.Lemmas.Choices
import OFM.Algorithms.Lemmas.Scaling
import OFM.Algorithms.ScaleIn

/-!
# The rows of `ScaleInCheck`

What stands in the arrays of coefficients when they are added as rows, and which matrices the program accepts.
-/

namespace OFM.OFMAlgorithm
open OFM.Lib

variable {σ : Type} {n : Nat} {a : List ℚ} {c : Nat → ℚ} {vnfs : List VNFinfo}

theorem succ_mem_range' {k : Nat} : k + 1 ∈ List.range' 1 n ↔ k < n := by
  rw [List.mem_range'_1]
  omega

theorem forall_range' {P : Nat → Prop} : (∀ k ∈ List.range' 1 n, P k) ↔ ∀ k < n, P (k + 1) := by
  constructor
  · exact fun h k hk => h (k + 1) (succ_mem_range'.mpr hk)
  · intro h k hk
    cases k with
    | zero => simp at hk
    | succ k => exact h k (succ_mem_range'.mp hk)

/-! ## Loops of stores -/

/-- An array with these coefficients for the cells of a matrix. -/
structure Coeffs (n : Nat) (c : Nat → ℚ) (a : List ℚ) : Prop where
  length : a.length = n * n + 1
  entry : ∀ j < n * n, a[j + 1]?.getD 0 = c j

theorem ends_store {i : Nat} {v : ℚ} (h : i < a.length) : Ends Never (store a i v) fun a' =>
    a'.length = a.length ∧ ∀ j, a'[j]?.getD 0 = if j = i then v else a[j]?.getD 0 := by
  rw [store, if_pos h, Ends.ok_iff]
  refine ⟨List.length_set, fun j => ?_⟩
  rw [List.getElem?_set]
  by_cases hj : i = j
  · subst hj
    simp [h]
  · simp [hj, Ne.symm hj]

/-- What is outside of the cells that are still to be written is as it is to be. -/
theorem ends_writes {body : List ℚ → σ → Except Fault (List ℚ)} {l : List σ} (writes : σ → Nat → Prop)
    (hlength : a.length = n * n + 1)
    (hbody : ∀ s ∈ l, ∀ a : List ℚ, a.length = n * n + 1 → Ends Never (body a s) fun a' =>
      a'.length = n * n + 1 ∧ ∀ j < n * n, a'[j + 1]?.getD 0 = c j ∨
        ¬ writes s j ∧ a'[j + 1]?.getD 0 = a[j + 1]?.getD 0)
    (hrest : ∀ j < n * n, (∀ s ∈ l, ¬ writes s j) → a[j + 1]?.getD 0 = c j) :
    Ends Never (l.foldlM body a) (Coeffs n c) := by
  have hloop := @Ends.foldlM _ _ _ Never body
    (fun rest a => a.length = n * n + 1 ∧ ∀ j < n * n, (∀ s ∈ rest, ¬ writes s j) → a[j + 1]?.getD 0 = c j) l a
    ⟨hlength, hrest⟩
  refine (hloop ?_).mono fun a h => ⟨h.1, fun j hj => h.2 j hj (by simp)⟩
  intro s rest a hmem h
  obtain ⟨pre, rfl⟩ := hmem
  apply (hbody s (by simp) a h.1).mono
  intro a' h'
  refine ⟨h'.1, fun j hj hnone => ?_⟩
  cases h'.2 j hj with
  | inl hc => exact hc
  | inr hsame =>
      rw [hsame.2]
      exact h.2 j hj (List.forall_mem_cons.mpr ⟨hsame.1, hnone⟩)

theorem ends_clear {m : Nat} (hm : m ≤ n * n + 1) (hlength : a.length = n * n + 1)
    (hrest : ∀ j, m ≤ j → j < n * n + 1 → a[j]?.getD 0 = 0) :
    Ends Never ((List.range m).foldlM (fun a i => store a i 0) a) (Coeffs n fun _ => 0) := by
  apply ends_writes (fun i j => j + 1 = i) hlength
  · intro i hi a ha
    rw [List.mem_range] at hi
    apply (ends_store (by omega)).mono
    intro a' h
    refine ⟨h.1.trans ha, fun j _ => ?_⟩
    rw [h.2]
    by_cases hij : j + 1 = i
    · simp [hij]
    · simp [hij]
  · intro j hj hnone
    apply hrest _ _ (by omega)
    by_contra hlt
    exact hnone (j + 1) (by simpa using hlt) rfl

/-! ## Rows -/

/-- The pairs that a network function is in. -/
def coeff3 (n i j : Nat) : ℚ := if j / n = i ∨ j % n = i then 1 else 0

/-- What the flows at `f` put on the buffer of a destination. -/
def coeff4 (vnfs : List VNFinfo) (d f j : Nat) : ℚ :=
  if j % vnfs.length = d then (vnfs[j / vnfs.length]?.map fun vnf => penaltyAt vnf.flow f).getD 0 else 0

/-- The load of the network function of the cell behind, if that cell is of the destination. -/
def coeff5 (vnfs : List VNFinfo) (d j : Nat) : ℚ :=
  if (j + 1) % vnfs.length = d then loadsOf vnfs ((j + 1) / vnfs.length) else 0

theorem ends_row3 {i : Nat} (hi : i < n) (hlength : a.length = n * n + 1) :
    Ends Never (row3 n (i + 1) a) (Coeffs n (coeff3 n i)) := by
  apply (ends_clear (Nat.le_refl _) hlength fun j h h' => absurd h' (Nat.not_lt.mpr h)).bind
  intro a hclear
  apply ends_writes (fun s j => j = i * n + (s - 1) ∨ j = (s - 1) * n + i) hclear.length
  · intro s hs a ha
    obtain ⟨hpos, hs⟩ := List.mem_range'_1.mp hs
    have hlt : i * n + (s - 1) < n * n := cell_lt hi (by omega)
    have hlt' : (s - 1) * n + i < n * n := cell_lt (by omega) hi
    have hindex : n * (s - 1) + (i + 1) = (s - 1) * n + i + 1 := by rw [Nat.mul_comm, Nat.add_assoc]
    rw [hindex, Nat.add_sub_cancel]
    apply (ends_store (by omega)).bind
    intro a₁ h₁
    apply (ends_store (by omega)).mono
    intro a₂ h₂
    refine ⟨by omega, fun j _ => ?_⟩
    rw [h₂.2, h₁.2]
    by_cases hj : j = (s - 1) * n + i
    · left
      simp [hj, coeff3, cell_mod hi]
    · by_cases hj' : j = i * n + (s - 1)
      · left
        have hdiv : j / n = i := by rw [hj', cell_div (by omega)]
        have hsame : j + 1 = i * n + s := by omega
        simp [coeff3, hdiv, hsame]
      · right
        have hne : j + 1 ≠ i * n + s := by omega
        simp [hj, hj', hne]
  · intro j hj hnone
    have hn : 0 < n := by omega
    have hdiv : j / n < n := Nat.div_lt_of_lt_mul hj
    have hmod : j % n < n := Nat.mod_lt j hn
    have hcell := Nat.div_add_mod' j n
    have hrow : j / n ≠ i := by
      intro h
      apply hnone (j % n + 1) (succ_mem_range'.mpr hmod)
      left
      rw [← h, Nat.add_sub_cancel, hcell]
    have hcolumn : j % n ≠ i := by
      intro h
      apply hnone (j / n + 1) (succ_mem_range'.mpr hdiv)
      right
      rw [← h, Nat.add_sub_cancel, hcell]
    simp [hclear.entry j hj, coeff3, hrow, hcolumn]

theorem ends_row4 {d f : Nat} (hd : d < vnfs.length) (hlength : a.length = vnfs.length * vnfs.length + 1) :
    Ends Never (row4 vnfs vnfs.length (d + 1) f a) (Coeffs vnfs.length (coeff4 vnfs d f)) := by
  have hcleared := ends_clear hlength.le hlength fun j h h' => absurd h' (Nat.not_lt.mpr (hlength ▸ h))
  apply hcleared.bind
  intro a hclear
  apply ends_writes (fun s j => j = (s - 1) * vnfs.length + d ∧ ∃ vnf, vnfs[s - 1]? = some vnf ∧ f < vnf.flow.length)
    hclear.length
  · rw [forall_range']
    intro s hs a ha
    have hvnf := List.getElem?_eq_getElem hs
    have hlt := cell_lt hs hd
    rw [Nat.add_sub_cancel, get_eq hvnf, ok_bind]
    apply Ends.ite
    · intro hfew
      refine ⟨ha, fun j _ => Or.inr ⟨?_, rfl⟩⟩
      intro h
      obtain ⟨-, vnf, hvnf', hf⟩ := h
      rw [hvnf] at hvnf'
      cases hvnf'
      omega
    · intro hmany
      have hflow := List.getElem?_eq_getElem (Nat.not_le.mp hmany)
      rw [get_eq hflow, ok_bind]
      have hindex : s * vnfs.length + (d + 1) < a.length := by omega
      rw [store, if_pos hindex, ok_bind, get_eq (List.getElem?_set_self hindex), ok_bind]
      apply (ends_store (by simpa using hindex)).mono
      intro a' h
      rw [List.length_set] at h
      refine ⟨h.1.trans ha, fun j _ => ?_⟩
      rw [h.2]
      by_cases hj : j = s * vnfs.length + d
      · left
        simp [hj, coeff4, cell_mod hd, cell_div hd, hvnf, penaltyAt, hflow, Nat.add_assoc]
      · right
        have hne : j + 1 ≠ s * vnfs.length + (d + 1) := by omega
        simp [hj, hne, List.getElem?_set_ne (Ne.symm hne)]
  · intro j hj hnone
    have hdiv : j / vnfs.length < vnfs.length := Nat.div_lt_of_lt_mul hj
    have hvnf := List.getElem?_eq_getElem hdiv
    rw [hclear.entry j hj, coeff4]
    by_cases hmod : j % vnfs.length = d
    · have hfew : vnfs[j / vnfs.length].flow.length ≤ f := by
        by_contra hmany
        apply hnone (j / vnfs.length + 1) (succ_mem_range'.mpr hdiv)
        rw [Nat.add_sub_cancel, ← hmod, Nat.div_add_mod']
        exact ⟨rfl, _, hvnf, Nat.not_le.mp hmany⟩
      simp [hmod, hvnf, penaltyAt, List.getElem?_eq_none hfew]
    · rw [if_neg hmod]

theorem ends_row5 {d : Nat} (hd : d < vnfs.length) (hlength : a.length = vnfs.length * vnfs.length + 1)
    (hlast : a[vnfs.length * vnfs.length]?.getD 0 = 0) :
    Ends Never (row5 vnfs vnfs.length (d + 1) a) (Coeffs vnfs.length (coeff5 vnfs d)) := by
  have hcleared := ends_clear (Nat.le_succ _) hlength fun j h h' => by
    obtain rfl : j = vnfs.length * vnfs.length := by omega
    exact hlast
  apply hcleared.bind
  intro a hclear
  apply ends_writes (fun s j => j + 1 = (s - 1) * vnfs.length + d) hclear.length
  · rw [forall_range']
    intro s hs a ha
    have hvnf := List.getElem?_eq_getElem hs
    have hlt := cell_lt hs hd
    have hindex : (s + 1 - 1) * vnfs.length + (d + 1) - 1 = s * vnfs.length + d := by simp
    rw [hindex, Nat.add_sub_cancel, get_eq hvnf, ok_bind]
    apply (ends_store (by omega)).mono
    intro a' h
    refine ⟨h.1.trans ha, fun j _ => ?_⟩
    rw [h.2]
    by_cases hj : j + 1 = s * vnfs.length + d
    · left
      simp [hj, coeff5, cell_mod hd, cell_div hd, loadsOf_eq hvnf]
    · right
      simp [hj]
  · intro j hj hnone
    rw [hclear.entry j hj, coeff5]
    by_cases hmod : (j + 1) % vnfs.length = d
    · -- The cell behind is one of a row that is not there.
      have hdiv : vnfs.length ≤ (j + 1) / vnfs.length := by
        by_contra hlt
        apply hnone ((j + 1) / vnfs.length + 1) (succ_mem_range'.mpr (Nat.not_le.mp hlt))
        rw [Nat.add_sub_cancel, ← hmod, Nat.div_add_mod']
      simp [hmod, loadsOf, List.getElem?_eq_none hdiv]
    · rw [if_neg hmod]

/-- The element that is not set to 0 again is never another. -/
theorem Coeffs.last {d : Nat} (h : Coeffs vnfs.length (coeff5 vnfs d) a) (hd : d < vnfs.length) :
    a[vnfs.length * vnfs.length]?.getD 0 = 0 := by
  have hpos : 0 < vnfs.length := Nat.zero_lt_of_lt hd
  have hcells := Nat.mul_pos hpos hpos
  have hentry := h.entry (vnfs.length * vnfs.length - 1) (by omega)
  rw [Nat.sub_add_cancel hcells] at hentry
  rw [hentry, coeff5, Nat.sub_add_cancel hcells, Nat.mul_div_cancel _ hpos]
  simp [loadsOf]

/-- What is saved when a network function is merged into another one. -/
def benefitOf (vnfs : List VNFinfo) (s : Nat) : ℚ :=
  (vnfs[s]?.map fun vnf => benefitVM - choiceCost vnf (List.range vnf.flowNum.toNat)).getD 0

theorem ends_rowObj (hcomplete : ∀ vnf ∈ vnfs, vnf.Complete) (hlength : a.length = vnfs.length * vnfs.length + 1) :
    Ends Never (rowObj vnfs vnfs.length a) (Coeffs vnfs.length fun j => benefitOf vnfs (j / vnfs.length)) := by
  apply ends_writes (fun s j => j / vnfs.length = s - 1) hlength
  · rw [forall_range']
    intro s hs a ha
    have hvnf := List.getElem?_eq_getElem hs
    have hflows : ∀ i ∈ List.range vnfs[s].flowNum.toNat, i < vnfs[s].flow.length :=
      fun i hi => (List.mem_range.mp hi).trans_le (hcomplete _ (List.getElem_mem hs))
    rw [Nat.add_sub_cancel, get_eq hvnf, ok_bind, costOf_choice hflows, ok_bind]
    -- The elements of the row of `s` are written, and no others.
    have hrow := @ends_writes _ vnfs.length a
      (fun j => if j / vnfs.length = s then benefitOf vnfs s else a[j + 1]?.getD 0)
      (fun a d => store a (s * vnfs.length + d) (benefitVM - choiceCost vnfs[s] (List.range vnfs[s].flowNum.toNat)))
      (List.range' 1 vnfs.length) (fun d j => j = s * vnfs.length + (d - 1)) ha ?_ ?_
    · apply hrow.mono
      intro a' h
      refine ⟨h.length, fun j hj => ?_⟩
      rw [h.entry j hj]
      by_cases hj' : j / vnfs.length = s
      · left
        rw [if_pos hj', hj']
      · right
        exact ⟨hj', if_neg hj'⟩
    · rw [forall_range']
      intro d hd a' ha'
      have hlt := cell_lt hs hd
      apply (ends_store (by omega)).mono
      intro a'' h
      refine ⟨h.1.trans ha', fun j _ => ?_⟩
      rw [h.2]
      by_cases hj : j = s * vnfs.length + d
      · left
        simp [hj, cell_div hd, benefitOf, hvnf, Nat.add_assoc]
      · right
        have hne : j + 1 ≠ s * vnfs.length + (d + 1) := by omega
        simp [hj, hne]
    · intro j hj hnone
      apply (if_neg _).symm
      intro hdiv
      have hmod : j % vnfs.length < vnfs.length := Nat.mod_lt j (Nat.zero_lt_of_lt hs)
      apply hnone (j % vnfs.length + 1) (succ_mem_range'.mpr hmod)
      rw [← hdiv, Nat.add_sub_cancel, Nat.div_add_mod']
  · intro j hj hnone
    have hdiv : j / vnfs.length < vnfs.length := Nat.div_lt_of_lt_mul hj
    exact absurd (Nat.add_sub_cancel _ 1).symm (hnone (j / vnfs.length + 1) (succ_mem_range'.mpr hdiv))

/-! ## Programs -/

section Programs

variable {lib : LpSolve} {problem : lib.Problem} {C C' : (Fin n → Fin n → Bool) → Prop}

/-- The matrices that a program accepts. -/
structure Stands (lib : LpSolve) (n : Nat) (problem : lib.Problem) (C : (Fin n → Fin n → Bool) → Prop) : Prop where
  columns : (lib.program problem).columns = n * n
  accepts : ∀ x v, Encodes x v → ((lib.program problem).Accepts v ↔ C x)
  matrix : ∀ v, (lib.program problem).Accepts v → ∃ x : Fin n → Fin n → Bool, Encodes x v

theorem Stands.congr (h : Stands lib n problem C) (hC : ∀ x, C x ↔ C' x) : Stands lib n problem C' where
  columns := h.columns
  accepts x v hx := (h.accepts x v hx).trans (hC x)
  matrix := h.matrix

/-- What coefficients make of a matrix. -/
def total (c : Nat → ℚ) (x : Fin n → Fin n → Bool) : ℚ :=
  ∑ s : Fin n, ∑ d : Fin n, if x s d then c (s * n + d) else 0

theorem Stands.valueOf_eq (h : Stands lib n problem C) (hcoeff : Coeffs n c a) {x : Fin n → Fin n → Bool}
    {v : Nat → ℚ} (hx : Encodes x v) : valueOf (lib.program problem).columns a v = total c x := by
  rw [h.columns, valueOf_cells hx, total]
  refine Finset.sum_congr rfl fun s _ => Finset.sum_congr rfl fun d _ => ?_
  rw [hcoeff.entry _ (cell_lt s.isLt d.isLt)]

theorem Stands.addConstraint (hlib : lib.Documented) (h : Stands lib n problem C) (hcoeff : Coeffs n c a) (rh : ℚ) :
    Stands lib n (lib.addConstraint problem a .le rh) fun x => C x ∧ total c x ≤ rh := by
  have hprogram := hlib.addConstraint problem a .le rh (by rw [hcoeff.length, h.columns])
  constructor
  · rw [hprogram]
    exact h.columns
  · intro x v hx
    rw [hprogram, Program.accepts_addConstraint, h.accepts x v hx, h.valueOf_eq hcoeff hx]
    rfl
  · intro v hv
    rw [hprogram, Program.accepts_addConstraint] at hv
    exact h.matrix v hv.1

/-- A loop that adds a condition in each round, and keeps what is to hold of the array. -/
theorem ends_rows {body : lib.Problem × List ℚ → σ → Except Fault (lib.Problem × List ℚ)} {items : List σ}
    (J : List ℚ → Prop) (row : σ → (Fin n → Fin n → Bool) → Prop) {st : lib.Problem × List ℚ}
    (hbody : ∀ i ∈ items, ∀ st C, Stands lib n st.1 C → J st.2 → Ends Never (body st i) fun st' =>
      Stands lib n st'.1 (fun x => C x ∧ row i x) ∧ J st'.2)
    (h : Stands lib n st.1 C) (hJ : J st.2) : Ends Never (items.foldlM body st) fun st' =>
      Stands lib n st'.1 (fun x => C x ∧ ∀ i ∈ items, row i x) ∧ J st'.2 := by
  induction items generalizing st C with
  | nil => exact ⟨h.congr (by simp), hJ⟩
  | cons i items ih =>
      rw [List.forall_mem_cons] at hbody
      rw [List.foldlM_cons]
      apply (hbody.1 st C h hJ).bind
      intro st' h'
      apply (ih hbody.2 h'.1 h'.2).mono
      intro st'' h''
      exact ⟨h''.1.congr fun x => by simp [and_assoc], h''.2⟩

theorem ends_addRow (hlib : lib.Documented) {row : List ℚ → Except Fault (List ℚ)} {rh : ℚ}
    {st : lib.Problem × List ℚ} (hrow : Ends Never (row st.2) (Coeffs n c)) (h : Stands lib n st.1 C) :
    Ends Never (addRow lib rh row st) fun st' =>
      Stands lib n st'.1 (fun x => C x ∧ total c x ≤ rh) ∧ Coeffs n c st'.2 := by
  rw [addRow]
  apply hrow.bind
  intro coeff hcoeff
  exact ⟨h.addConstraint hlib hcoeff rh, hcoeff⟩

/-! ## Bounds -/

theorem program_setBinary (hlib : lib.Documented) {l : List Nat}
    (hl : ∀ j ∈ l, 1 ≤ j ∧ j ≤ (lib.program problem).columns) :
    lib.program (l.foldl (fun problem i => lib.setBinary problem i true) problem) =
      { lib.program problem with
        column := fun j => if j ∈ l then ⟨0, some 1, true⟩ else (lib.program problem).column j } := by
  induction l generalizing problem with
  | nil => simp
  | cons i l ih =>
      rw [List.forall_mem_cons] at hl
      have hset := hlib.setBinary problem i hl.1.1 hl.1.2
      rw [List.foldl_cons, ih (by simpa [hset] using hl.2), hset]
      simp only [Program.setBinary, Function.update_apply, List.mem_cons]
      congr 1
      funext j
      by_cases hj : j = i
      · simp [hj]
      · simp [hj]

theorem program_setBounds (hlib : lib.Documented) {index : Nat → Nat} {l : List Nat}
    (hl : ∀ i ∈ l, 1 ≤ index i ∧ index i ≤ (lib.program problem).columns) :
    lib.program (l.foldl (fun problem i => lib.setBounds problem (index i) 0 0) problem) =
      { lib.program problem with
        column := fun j =>
          let column := (lib.program problem).column j
          if j ∈ l.map index then { column with lower := 0, upper := some 0 } else column } := by
  induction l generalizing problem with
  | nil => simp
  | cons i l ih =>
      rw [List.forall_mem_cons] at hl
      have hset := hlib.setBounds problem (index i) 0 0 hl.1.1 hl.1.2
      rw [List.foldl_cons, ih (by simpa [hset] using hl.2), hset]
      simp only [Program.setBounds, Function.update_apply, List.map_cons, List.mem_cons]
      congr 1
      funext j
      by_cases hj : j = index i
      · simp [hj]
      · simp [hj]

/-- All columns are binary, and those of the diagonal are 0. -/
theorem program_bounds (hlib : lib.Documented) (n : Nat) :
    (lib.program (bounds lib n)).columns = n * n ∧ (lib.program (bounds lib n)).rows = [] ∧
      ∀ s d : Fin n, (lib.program (bounds lib n)).column (s * n + d + 1) =
        if s = d then ⟨0, some 0, true⟩ else ⟨0, some 1, true⟩ := by
  have hmake := hlib.makeLp (n * n)
  have hbinary := @program_setBinary lib (lib.makeLp 0 (n * n)) hlib (List.range' 1 (n * n)) fun j hj => by
    rw [List.mem_range'_1] at hj
    rw [hmake, Program.columns_empty]
    omega
  have hdiagonal := @program_setBounds lib _ hlib (fun i => (i - 1) * n + i) (List.range' 1 n) fun i hi => by
    rw [hbinary, hmake]
    revert i
    rw [forall_range']
    intro i hi
    have hlt := cell_lt hi hi
    rw [Nat.add_sub_cancel]
    exact ⟨by omega, Nat.succ_le_of_lt hlt⟩
  rw [bounds, hdiagonal, hbinary, hmake]
  refine ⟨rfl, rfl, fun s d => ?_⟩
  have hlt := cell_lt s.isLt d.isLt
  have hmem : s * n + d + 1 ∈ List.range' 1 (n * n) := succ_mem_range'.mpr hlt
  have hmem' : s * n + d + 1 ∈ (List.range' 1 n).map (fun i => (i - 1) * n + i) ↔ s = d := by
    rw [List.mem_map]
    constructor
    · intro h
      obtain ⟨i, hi, heq⟩ := h
      obtain ⟨i, rfl⟩ : ∃ k, i = k + 1 := ⟨i - 1, by rw [List.mem_range'_1] at hi; omega⟩
      have hcell : i * n + i = s * n + d := Nat.succ_injective (by simpa [Nat.add_assoc] using heq)
      obtain ⟨hs, hd⟩ := (cell_inj (succ_mem_range'.mp hi) d.isLt).mp hcell
      exact Fin.ext (hs.symm.trans hd)
    · rintro rfl
      exact ⟨s + 1, succ_mem_range'.mpr s.isLt, by simp [Nat.add_assoc]⟩
  simp only [hmem, hmem', if_true]

theorem stands_bounds (hlib : lib.Documented) (n : Nat) :
    Stands lib n (bounds lib n) fun x => ∀ i, x i i = false := by
  obtain ⟨hcolumns, hrows, hcolumn⟩ := program_bounds hlib n
  constructor
  · exact hcolumns
  · intro x v hx
    have hmay : ∀ s d : Fin n, ((lib.program (bounds lib n)).column (s * n + d + 1)).May (v (s * n + d + 1)) ↔
        (s = d → x s d = false) := by
      intro s d
      rw [hcolumn, hx]
      by_cases hsd : s = d
      · rw [if_pos hsd, may_zero_iff]
        cases x s d <;> simp [hsd]
      · rw [if_neg hsd, may_binary_iff]
        cases x s d <;> simp [hsd]
    constructor
    · intro h i
      have hbounds := h.bounds
      rw [hcolumns, forall_cells] at hbounds
      exact (hmay i i).mp (hbounds i i) rfl
    · intro h
      constructor
      · rw [hcolumns, forall_cells]
        intro s d
        rw [hmay]
        rintro rfl
        exact h s
      · simp [hrows]
  · intro v hv
    have hbounds := hv.bounds
    rw [hcolumns, forall_cells] at hbounds
    apply exists_encodes_of_binary
    intro s d
    have hmay := hbounds s d
    rw [hcolumn] at hmay
    split at hmay
    · exact Or.inl (may_zero_iff.mp hmay)
    · exact may_binary_iff.mp hmay

/-! ## All rows -/

theorem coeffs_newCoeff (n : Nat) : Coeffs n (fun _ => 0) (newCoeff n) where
  length := List.length_replicate
  entry j hj := by simp [newCoeff, hj]

theorem forall_range'_fin {P : Nat → Prop} : (∀ k ∈ List.range' 1 n, P (k - 1)) ↔ ∀ k : Fin n, P k := by
  rw [forall_range', Fin.forall_iff]
  simp

theorem ends_constr3 (hlib : lib.Documented) (h : Stands lib n problem C) :
    Ends Never (constr3 lib n problem) fun problem' =>
      Stands lib n problem' fun x => C x ∧ ∀ i : Fin n, total (coeff3 n i) x ≤ 1 := by
  have hloop : Ends Never ((List.range' 1 n).foldlM (fun st i => addRow lib 1 (row3 n i) st) (problem, newCoeff n))
      fun st => Stands lib n st.1 (fun x => C x ∧ ∀ i ∈ List.range' 1 n, total (coeff3 n (i - 1)) x ≤ 1) ∧
        st.2.length = n * n + 1 := by
    apply ends_rows (fun a => a.length = n * n + 1) (fun i x => total (coeff3 n (i - 1)) x ≤ 1) _ h
      (coeffs_newCoeff n).length
    rw [forall_range']
    intro i hi st C hst hlength
    apply (ends_addRow hlib (ends_row3 hi hlength) hst).mono
    intro st' h'
    exact ⟨h'.1, h'.2.length⟩
  apply hloop.bind
  intro st hst
  exact hst.1.congr fun x => by rw [@forall_range'_fin n fun i => total (coeff3 n i) x ≤ 1]

theorem ends_constr4 (hlib : lib.Documented) {problem : lib.Problem}
    {C : (Fin vnfs.length → Fin vnfs.length → Bool) → Prop} (h : Stands lib vnfs.length problem C) :
    Ends Never (constr4 lib vnfs problem) fun problem' => Stands lib vnfs.length problem' fun x =>
      C x ∧ ∀ d : Fin vnfs.length, ∀ f < maxFlowNum vnfs, total (coeff4 vnfs d f) x ≤ bufferSize / sfmt := by
  have hloop : Ends Never ((List.range' 1 vnfs.length).foldlM (fun st d =>
      (List.range (maxFlowNum vnfs)).foldlM (fun st f =>
        addRow lib (bufferSize / sfmt) (row4 vnfs vnfs.length d f) st) st) (problem, newCoeff vnfs.length))
      fun st => Stands lib vnfs.length st.1 (fun x => C x ∧ ∀ d ∈ List.range' 1 vnfs.length,
        ∀ f ∈ List.range (maxFlowNum vnfs), total (coeff4 vnfs (d - 1) f) x ≤ bufferSize / sfmt) ∧
        st.2.length = vnfs.length * vnfs.length + 1 := by
    apply ends_rows (fun a => a.length = vnfs.length * vnfs.length + 1) (fun d x =>
      ∀ f ∈ List.range (maxFlowNum vnfs), total (coeff4 vnfs (d - 1) f) x ≤ bufferSize / sfmt) _ h
      (coeffs_newCoeff vnfs.length).length
    rw [forall_range']
    intro d hd st C hst hlength
    apply ends_rows (fun a => a.length = vnfs.length * vnfs.length + 1)
      (fun f x => total (coeff4 vnfs d f) x ≤ bufferSize / sfmt) _ hst hlength
    intro f _ st C hst hlength
    apply (ends_addRow hlib (ends_row4 hd hlength) hst).mono
    intro st' h'
    exact ⟨h'.1, h'.2.length⟩
  apply hloop.bind
  intro st hst
  refine hst.1.congr fun x => ?_
  rw [@forall_range'_fin vnfs.length fun d =>
    ∀ f ∈ List.range (maxFlowNum vnfs), total (coeff4 vnfs d f) x ≤ bufferSize / sfmt]
  simp

theorem ends_constr5 (hlib : lib.Documented) {problem : lib.Problem}
    {C : (Fin vnfs.length → Fin vnfs.length → Bool) → Prop} (h : Stands lib vnfs.length problem C) :
    Ends Never (constr5 lib vnfs problem) fun problem' => Stands lib vnfs.length problem' fun x =>
      C x ∧ ∀ d : Fin vnfs.length, total (coeff5 vnfs d) x ≤ thSafe - loadsOf vnfs d := by
  have hloop : Ends Never ((List.range' 1 vnfs.length).foldlM (fun (st : lib.Problem × List ℚ) d => do
      let coeff5 ← row5 vnfs vnfs.length d st.2
      let vnf ← get vnfs (d - 1 : Nat)
      return (lib.addConstraint st.1 coeff5 .le (thSafe - vnf.loadPercentage), coeff5))
      (problem, newCoeff vnfs.length))
      fun st => Stands lib vnfs.length st.1 (fun x => C x ∧ ∀ d ∈ List.range' 1 vnfs.length,
        total (coeff5 vnfs (d - 1)) x ≤ thSafe - loadsOf vnfs (d - 1)) ∧
        (st.2.length = vnfs.length * vnfs.length + 1 ∧ st.2[vnfs.length * vnfs.length]?.getD 0 = 0) := by
    apply ends_rows
      (fun a => a.length = vnfs.length * vnfs.length + 1 ∧ a[vnfs.length * vnfs.length]?.getD 0 = 0)
      (fun d x => total (coeff5 vnfs (d - 1)) x ≤ thSafe - loadsOf vnfs (d - 1)) _ h
    · exact ⟨(coeffs_newCoeff vnfs.length).length, by simp [newCoeff]⟩
    · rw [forall_range']
      intro d hd st C hst hJ
      have hvnf := List.getElem?_eq_getElem hd
      apply (ends_row5 hd hJ.1 hJ.2).bind
      intro coeff5 hcoeff
      rw [Nat.add_sub_cancel, get_eq hvnf, ok_bind, ← loadsOf_eq hvnf]
      exact ⟨hst.addConstraint hlib hcoeff _, hcoeff.length, hcoeff.last hd⟩
  apply hloop.bind
  intro st hst
  exact hst.1.congr fun x => by
    rw [@forall_range'_fin vnfs.length fun d => total (coeff5 vnfs d) x ≤ thSafe - loadsOf vnfs d]

/-- The program is written, and accepts the matrices that all its rows hold of. -/
theorem ends_scaleInProblem (hlib : lib.Documented) (vnfs : List VNFinfo) :
    Ends Never (scaleInProblem lib vnfs) fun problem => Stands lib vnfs.length problem fun x =>
      (((∀ i, x i i = false) ∧ ∀ i : Fin vnfs.length, total (coeff3 vnfs.length i) x ≤ 1) ∧
        ∀ d : Fin vnfs.length, ∀ f < maxFlowNum vnfs, total (coeff4 vnfs d f) x ≤ bufferSize / sfmt) ∧
        ∀ d : Fin vnfs.length, total (coeff5 vnfs d) x ≤ thSafe - loadsOf vnfs d := by
  apply (ends_constr3 hlib (stands_bounds hlib vnfs.length)).bind
  intro problem h
  apply (ends_constr4 hlib h).bind
  intro problem h
  exact ends_constr5 hlib h

end Programs

end OFM.OFMAlgorithm
