import Mathlib.Data.List.Forall2
import Mathlib.Data.List.Infix
import Mathlib.Data.List.Nodup

/-!
# Objects and references

What there is, as a list in which a reference is an index: new objects come at the end, and the objects at some
references are changed.
-/

namespace OFM.Lib.Objects

variable {α β : Type*} {objects objects' : List α} {refs refs' : List Nat} {as bs : List α} {change : α → α}
  {ref : Nat}

/-- Each of the objects at some references is changed. -/
def changeAll (change : α → α) (refs : List Nat) (objects : List α) : List α :=
  refs.foldl (fun objects ref => objects.modify ref change) objects

/-- The objects at some references. -/
def Holds (objects : List α) (refs : List Nat) (as : List α) : Prop :=
  List.Forall₂ (fun ref a => objects[ref]? = some a) refs as

/-! ## Changes -/

theorem changeAll_cons : changeAll change (ref :: refs) objects = changeAll change refs (objects.modify ref change) :=
  rfl

@[simp] theorem length_changeAll : (changeAll change refs objects).length = objects.length := by
  induction refs generalizing objects with
  | nil => rfl
  | cons ref refs ih => rw [changeAll_cons, ih, List.length_modify]

theorem changeAll_other (h : ref ∉ refs) : (changeAll change refs objects)[ref]? = objects[ref]? := by
  induction refs generalizing objects with
  | nil => rfl
  | cons ref' refs ih =>
      rw [List.mem_cons, not_or] at h
      rw [changeAll_cons, ih h.2, List.getElem?_modify_ne _ _ (Ne.symm h.1)]

/-- Behind different references, an object is changed once. -/
theorem changeAll_mem (hnodup : refs.Nodup) (h : ref ∈ refs) :
    (changeAll change refs objects)[ref]? = objects[ref]?.map change := by
  induction refs generalizing objects with
  | nil => cases h
  | cons ref' refs ih =>
      rw [List.nodup_cons] at hnodup
      rw [changeAll_cons]
      cases List.mem_cons.mp h with
      | inl h =>
          subst h
          rw [changeAll_other hnodup.1, List.getElem?_modify_eq]
          rfl
      | inr h =>
          have hne : ref' ≠ ref := fun he => hnodup.1 (he ▸ h)
          rw [ih hnodup.2 h, List.getElem?_modify_ne _ _ hne]

/-- The objects that were there before those that are changed. -/
theorem prefix_changeAll (h : objects <+: objects') (hnew : ∀ ref ∈ refs, objects.length ≤ ref) :
    objects <+: changeAll change refs objects' := by
  rw [List.prefix_iff_getElem?] at h ⊢
  intro i hi
  have hi' : i ∉ refs := fun hmem => Nat.not_lt.mpr (hnew i hmem) hi
  rw [changeAll_other hi', h i hi]

/-! ## What references hold -/

theorem getElem?_of_prefix {a : α} (h : objects <+: objects') (ha : objects[ref]? = some a) :
    objects'[ref]? = some a := by
  obtain ⟨hlt, rfl⟩ := List.getElem?_eq_some_iff.mp ha
  exact List.prefix_iff_getElem?.mp h ref hlt

theorem Holds.lt (h : Holds objects refs as) : ∀ ref ∈ refs, ref < objects.length := by
  unfold Holds at h
  induction h with
  | nil => simp
  | cons hread _ ih =>
      obtain ⟨hlt, -⟩ := List.getElem?_eq_some_iff.mp hread
      exact List.forall_mem_cons.mpr ⟨hlt, ih⟩

theorem Holds.imp (h : Holds objects refs as)
    (hsame : ∀ ref ∈ refs, ∀ a, objects[ref]? = some a → objects'[ref]? = some a) : Holds objects' refs as := by
  unfold Holds at *
  induction h with
  | nil => exact List.Forall₂.nil
  | cons hread _ ih =>
      rw [List.forall_mem_cons] at hsame
      apply List.Forall₂.cons
      · exact hsame.1 _ hread
      · exact ih hsame.2

theorem Holds.mono (h : Holds objects refs as) (hold : objects <+: objects') : Holds objects' refs as :=
  h.imp fun _ _ _ ha => getElem?_of_prefix hold ha

theorem Holds.append (h : Holds objects refs as) (h' : Holds objects refs' bs) :
    Holds objects (refs ++ refs') (as ++ bs) := by
  unfold Holds at *
  induction h with
  | nil => exact h'
  | cons hread _ ih => exact List.Forall₂.cons hread ih

/-- Objects behind different references are changed once. -/
theorem Holds.changeAll (h : Holds objects refs as) (hnodup : refs.Nodup) :
    Holds (changeAll change refs objects) refs (as.map change) := by
  have hmem : ∀ ref ∈ refs, (Objects.changeAll change refs objects)[ref]? = objects[ref]?.map change :=
    fun ref => changeAll_mem hnodup
  generalize Objects.changeAll change refs objects = objects' at hmem ⊢
  unfold Holds at *
  clear hnodup
  induction h with
  | nil => exact List.Forall₂.nil
  | cons hread _ ih =>
      rw [List.forall_mem_cons] at hmem
      apply List.Forall₂.cons
      · rw [hmem.1, hread]
        rfl
      · exact ih hmem.2

/-- What is new at the end. -/
theorem holds_append (objects as : List α) :
    Holds (objects ++ as) (List.range' objects.length as.length) as := by
  unfold Holds
  induction as generalizing objects with
  | nil => exact List.Forall₂.nil
  | cons a as ih =>
      apply List.Forall₂.cons
      · simp
      · have hrest := ih (objects ++ [a])
        rwa [List.append_assoc, List.singleton_append, List.length_append, List.length_singleton] at hrest

end OFM.Lib.Objects
