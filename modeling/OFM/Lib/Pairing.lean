import Mathlib.Algebra.BigOperators.Group.Finset.Piecewise
import Mathlib.Algebra.Order.Group.Defs
import Mathlib.Data.Fintype.Basic
import Mathlib.Data.Int.ModEq

/-!
# Pairings below a bound

Pairs of a source and a destination put weights on places, each of which has a load of its own and bears no more than
a bound. Two ways to read the same pairs agree on all pairings if they agree on each pair alone, and where a place is
overloaded before, if under neither of them it can be relieved.
-/

namespace OFM.Lib

variable {ι K : Type*} {x : ι → ι → Bool} {allowed : ι → ι → Prop} {s d : ι}

/-- Nobody is in two pairs, nor twice in one. -/
structure Pairing (x : ι → ι → Bool) : Prop where
  irrefl : ∀ i, x i i = false
  once : ∀ s d s' d', x s d → x s' d' → s = s' ∨ s = d' ∨ d = s' ∨ d = d' → s = s' ∧ d = d'

/-- The place that a destination stands for, and what a pair puts on it. -/
structure Reading (ι K : Type*) where
  place : ι → ι
  weight : ι → ι → K

/-- A pair alone. -/
def Pairing.single [DecidableEq ι] (s d : ι) : ι → ι → Bool := fun s' d' => decide (s' = s ∧ d' = d)

/-- All pairs but one. -/
def Pairing.without [DecidableEq ι] (x : ι → ι → Bool) (s d : ι) : ι → ι → Bool :=
  fun s' d' => x s' d' && !decide (s' = s ∧ d' = d)

theorem Pairing.sub {x' : ι → ι → Bool} (h : Pairing x) (hsub : ∀ s d, x' s d → x s d) : Pairing x' where
  irrefl i := by
    cases hi : x' i i with
    | false => rfl
    | true => exact absurd (hsub i i hi) (by simp [h.irrefl i])
  once s d s' d' hx hx' := h.once s d s' d' (hsub s d hx) (hsub s' d' hx')

theorem Pairing.of_single [DecidableEq ι] (hne : s ≠ d) : Pairing (Pairing.single s d) where
  irrefl i := by
    apply decide_eq_false
    rintro ⟨rfl, rfl⟩
    exact hne rfl
  once s' d' s'' d'' hx hx' _ := by
    obtain ⟨rfl, rfl⟩ := of_decide_eq_true hx
    obtain ⟨rfl, rfl⟩ := of_decide_eq_true hx'
    exact ⟨rfl, rfl⟩

theorem Pairing.without_iff [DecidableEq ι] {s' d' : ι} : Pairing.without x s d s' d' ↔ x s' d' ∧ ¬ (s' = s ∧ d' = d) := by
  simp [Pairing.without, imp_iff_not_or]

section Weights

variable [Fintype ι] [AddCommMonoid K]

/-- What comes from the sources of a destination. -/
def incoming (weight : ι → ι → K) (x : ι → ι → Bool) (d : ι) : K := ∑ s, if x s d then weight s d else 0

theorem Pairing.incoming_eq {weight : ι → ι → K} (h : Pairing x) (hx : x s d) : incoming weight x d = weight s d := by
  unfold incoming
  rw [Finset.sum_eq_single s]
  · rw [if_pos hx]
  · intro s' _ hne
    apply if_neg
    intro hx'
    exact hne (h.once s' d s d hx' hx (by simp)).1
  · intro hs
    exact absurd (Finset.mem_univ s) hs

theorem incoming_eq_zero {weight : ι → ι → K} (h : ∀ s, ¬ x s d) : incoming weight x d = 0 := by
  unfold incoming
  apply Finset.sum_eq_zero
  intro s _
  exact if_neg (h s)

end Weights

section Bounds

variable [Fintype ι] [AddCommGroup K] [LinearOrder K] {load : ι → K} {bound : K} {reading : Reading ι K}

/-- No place has more to bear than the bound. -/
def Fits (load : ι → K) (bound : K) (reading : Reading ι K) (x : ι → ι → Bool) : Prop :=
  ∀ d, load (reading.place d) + incoming reading.weight x d ≤ bound

/-- The places that have more to bear from the start find sources, which are no destinations and different ones. -/
def Relieved (load : ι → K) (bound : K) (reading : Reading ι K) (allowed : ι → ι → Prop) : Prop :=
  ∃ source : ι → ι, ∀ d, bound < load (reading.place d) →
    allowed (source d) d ∧ load (reading.place d) + reading.weight (source d) d ≤ bound ∧
      ∀ d', bound < load (reading.place d') → source d ≠ d' ∧ (source d = source d' → d = d')

/-- Each pair fits, and each place that is left alone. -/
theorem Pairing.fits_iff (h : Pairing x) :
    Fits load bound reading x ↔ (∀ s d, x s d → load (reading.place d) + reading.weight s d ≤ bound) ∧
      ∀ d, (∀ s, ¬ x s d) → load (reading.place d) ≤ bound := by
  constructor
  · intro hfits
    constructor
    · intro s d hx
      have hd := hfits d
      rwa [h.incoming_eq hx] at hd
    · intro d hnone
      have hd := hfits d
      rwa [incoming_eq_zero hnone, add_zero] at hd
  · intro hfits d
    by_cases hsome : ∃ s, x s d
    · obtain ⟨s, hx⟩ := hsome
      rw [h.incoming_eq hx]
      exact hfits.1 s d hx
    · have hnone : ∀ s, ¬ x s d := fun s hx => hsome ⟨s, hx⟩
      rw [incoming_eq_zero hnone, add_zero]
      exact hfits.2 d hnone

/-- A place that has more to bear from the start has a source. -/
theorem Pairing.source_of_fits (h : Pairing x) (hfits : Fits load bound reading x)
    (hover : bound < load (reading.place d)) : ∃ s, x s d ∧ load (reading.place d) + reading.weight s d ≤ bound := by
  obtain ⟨hpairs, halone⟩ := h.fits_iff.mp hfits
  by_contra hnone
  have hd : ∀ s, ¬ x s d := fun s hx => hnone ⟨s, hx, hpairs s d hx⟩
  exact absurd (halone d hd) (not_le.mpr hover)

/-- There is a pairing that fits if all places are relieved. -/
theorem exists_fits_iff [DecidableEq ι] :
    (∃ x, Pairing x ∧ (∀ s d, x s d → allowed s d) ∧ Fits load bound reading x) ↔
      Relieved load bound reading allowed := by
  constructor
  · intro h
    obtain ⟨x, hx, hallowed, hfits⟩ := h
    have hsource : ∀ d, ∃ s, bound < load (reading.place d) →
        x s d ∧ load (reading.place d) + reading.weight s d ≤ bound := by
      intro d
      by_cases hover : bound < load (reading.place d)
      · obtain ⟨s, hs⟩ := hx.source_of_fits hfits hover
        exact ⟨s, fun _ => hs⟩
      · exact ⟨d, fun h => absurd h hover⟩
    choose source hsource using hsource
    refine ⟨source, fun d hover => ?_⟩
    obtain ⟨hpair, hle⟩ := hsource d hover
    refine ⟨hallowed _ _ hpair, hle, fun d' hover' => ?_⟩
    have hpair' := (hsource d' hover').1
    constructor
    · intro heq
      -- It would be in a second pair as a destination.
      have hself := hx.once _ _ _ _ hpair hpair' (Or.inr (Or.inl heq))
      rw [heq, ← hself.2, hx.irrefl d] at hpair
      cases hpair
    · intro heq
      exact (hx.once _ _ _ _ hpair hpair' (Or.inl heq)).2
  · intro h
    obtain ⟨source, hsource⟩ := h
    have hpairing : Pairing fun s d => decide (bound < load (reading.place d) ∧ source d = s) := by
      constructor
      · intro i
        apply decide_eq_false
        intro hi
        exact ((hsource i hi.1).2.2 i hi.1).1 hi.2
      · intro s d s' d' hx hx' hshare
        obtain ⟨hover, rfl⟩ := of_decide_eq_true hx
        obtain ⟨hover', rfl⟩ := of_decide_eq_true hx'
        have hd := (hsource d hover).2.2 d' hover'
        have hd' := (hsource d' hover').2.2 d hover
        rcases hshare with h | h | h | h
        · exact ⟨h, hd.2 h⟩
        · exact absurd h hd.1
        · exact absurd h.symm hd'.1
        · exact ⟨h ▸ rfl, h⟩
    refine ⟨_, hpairing, ?_, hpairing.fits_iff.mpr ⟨?_, ?_⟩⟩
    · intro s d hx
      obtain ⟨hover, rfl⟩ := of_decide_eq_true hx
      exact (hsource d hover).1
    · intro s d hx
      obtain ⟨hover, rfl⟩ := of_decide_eq_true hx
      exact (hsource d hover).2.1
    · intro d hnone
      by_contra hle
      exact hnone (source d) (decide_eq_true ⟨not_le.mp hle, rfl⟩)

/-! ## Two readings -/

variable {weight : ι → ι → K} {next : ι → ι}

/-- Of the pairings of allowed pairs, two readings have the same ones fit. -/
def Agree (load : ι → K) (bound : K) (reading reading' : Reading ι K) (allowed : ι → ι → Prop) : Prop :=
  ∀ x, Pairing x → (∀ s d, x s d → allowed s d) → (Fits load bound reading x ↔ Fits load bound reading' x)

/-- A pair is read as it stands: the load of the source comes to the destination. -/
def straight (load : ι → K) : Reading ι K := ⟨id, fun s _ => load s⟩

/-- Where no place is overloaded before, each pair has to fit under both readings or under none. -/
theorem agree_iff_pairs [DecidableEq ι] {reading' : Reading ι K} (h : ∀ d, load (reading.place d) ≤ bound)
    (h' : ∀ d, load (reading'.place d) ≤ bound) :
    Agree load bound reading reading' allowed ↔ ∀ s d, s ≠ d → allowed s d →
      (load (reading.place d) + reading.weight s d ≤ bound ↔
        load (reading'.place d) + reading'.weight s d ≤ bound) := by
  constructor
  · intro hagree s d hne hallowed
    have hx := Pairing.of_single hne
    have hsingle : ∀ {reading : Reading ι K}, (∀ d, load (reading.place d) ≤ bound) →
        (Fits load bound reading (Pairing.single s d) ↔ load (reading.place d) + reading.weight s d ≤ bound) := by
      intro reading hload
      rw [hx.fits_iff]
      constructor
      · exact fun hfits => hfits.1 s d (decide_eq_true ⟨rfl, rfl⟩)
      · intro hle
        refine ⟨fun s' d' hpair => ?_, fun d' _ => hload d'⟩
        obtain ⟨rfl, rfl⟩ := of_decide_eq_true hpair
        exact hle
    rw [← hsingle h, ← hsingle h']
    apply hagree _ hx
    intro s' d' hpair
    obtain ⟨rfl, rfl⟩ := of_decide_eq_true hpair
    exact hallowed
  · intro hpairs x hx hallowed
    rw [hx.fits_iff, hx.fits_iff]
    have hiff : ∀ s d, x s d → (load (reading.place d) + reading.weight s d ≤ bound ↔
        load (reading'.place d) + reading'.weight s d ≤ bound) := by
      intro s d hpair
      refine hpairs s d ?_ (hallowed s d hpair)
      rintro rfl
      rw [hx.irrefl s] at hpair
      cases hpair
    constructor
    · intro hfits
      exact ⟨fun s d hpair => (hiff s d hpair).mp (hfits.1 s d hpair), fun d _ => h' d⟩
    · intro hfits
      exact ⟨fun s d hpair => (hiff s d hpair).mpr (hfits.1 s d hpair), fun d _ => h d⟩

/-! ## Overloaded places -/

/-- Without the pair that relieves a place, the pairing does not fit as it stands; so the place behind it, which is
the one that the pair is put down to, is overloaded as well. -/
theorem Agree.next_over [DecidableEq ι] (hagree : Agree load bound (straight load) ⟨next, weight⟩ allowed)
    (hx : Pairing x) (hallowed : ∀ s d, x s d → allowed s d) (hfits : Fits load bound (straight load) x)
    (hfits' : Fits load bound ⟨next, weight⟩ x) (hover : bound < load d) : bound < load (next d) := by
  obtain ⟨s, hpair, -⟩ := hx.source_of_fits hfits hover
  have hsub : ∀ s' d', Pairing.without x s d s' d' → x s' d' := fun _ _ h => (Pairing.without_iff.mp h).1
  have hx' := hx.sub hsub
  by_contra hnext
  have hwithout : Fits load bound ⟨next, weight⟩ (Pairing.without x s d) := by
    obtain ⟨hpairs, halone⟩ := hx.fits_iff.mp hfits'
    rw [hx'.fits_iff]
    refine ⟨fun s' d' h => hpairs s' d' (hsub s' d' h), fun d' hnone => ?_⟩
    by_cases hd : d' = d
    · rw [hd]
      exact not_lt.mp hnext
    · apply halone
      intro s' hpair'
      exact hnone s' (Pairing.without_iff.mpr ⟨hpair', fun h => hd h.2⟩)
  have hstraight := (hagree _ hx' fun s' d' h => hallowed s' d' (hsub s' d' h)).mpr hwithout
  obtain ⟨s', hpair', -⟩ := hx'.source_of_fits hstraight hover
  obtain ⟨hpair', hne⟩ := Pairing.without_iff.mp hpair'
  exact hne (hx.once _ _ _ _ hpair' hpair (by simp))

variable [IsOrderedAddMonoid K]

/-- Where readings agree that go around all places, and one of these is overloaded before, no pairing fits. -/
theorem Agree.not_fits [DecidableEq ι] (hagree : Agree load bound (straight load) ⟨next, weight⟩ allowed)
    (hbound : 0 ≤ bound)
    (haround : ∀ loaded : Set ι, loaded.Nonempty → (∀ d ∈ loaded, next d ∈ loaded) → ∀ d, d ∈ loaded)
    (hover : bound < load d) (hx : Pairing x) (hallowed : ∀ s d, x s d → allowed s d) :
    ¬ Fits load bound (straight load) x ∧ ¬ Fits load bound ⟨next, weight⟩ x := by
  have hboth : ¬ (Fits load bound (straight load) x ∧ Fits load bound ⟨next, weight⟩ x) := by
    intro h
    obtain ⟨hfits, hfits'⟩ := h
    have hall := haround {d | bound < load d} ⟨d, hover⟩ fun d => hagree.next_over hx hallowed hfits hfits'
    obtain ⟨s, -, hle⟩ := hx.source_of_fits hfits hover
    have hsum : bound + bound < bound := lt_of_lt_of_le (add_lt_add hover (hall s)) hle
    exact absurd hsum (not_lt.mpr (le_add_of_nonneg_left hbound))
  have hiff := hagree x hx hallowed
  constructor
  · exact fun h => hboth ⟨h, hiff.mp h⟩
  · exact fun h => hboth ⟨hiff.mpr h, h⟩

omit [Fintype ι] in
/-- Weights that are not negative relieve nothing. -/
theorem not_relieved (hweight : ∀ s d, 0 ≤ reading.weight s d) (hover : bound < load (reading.place d)) :
    ¬ Relieved load bound reading allowed := by
  rintro ⟨source, hsource⟩
  have hle := (hsource d hover).2.1
  have hge := hover.trans_le (le_add_of_nonneg_right (hweight (source d) d))
  exact absurd hle (not_le.mpr hge)

/-- When the reading that goes around all places agrees with the straight one. -/
theorem agree_iff [DecidableEq ι] (hbound : 0 ≤ bound)
    (haround : ∀ loaded : Set ι, loaded.Nonempty → (∀ d ∈ loaded, next d ∈ loaded) → ∀ d, d ∈ loaded) :
    Agree load bound (straight load) ⟨next, weight⟩ allowed ↔
      ((∀ d, load d ≤ bound) ∧ ∀ s d, s ≠ d → allowed s d →
        (load d + load s ≤ bound ↔ load (next d) + weight s d ≤ bound)) ∨
      ((∃ d, bound < load d) ∧ ¬ Relieved load bound (straight load) allowed ∧
        ¬ Relieved load bound ⟨next, weight⟩ allowed) := by
  by_cases hload : ∀ d, load d ≤ bound
  · have hnone : ¬ ∃ d, bound < load d := by
      rintro ⟨d, hd⟩
      exact absurd (hload d) (not_le.mpr hd)
    have hpairs := @agree_iff_pairs _ _ allowed _ _ _ load bound (straight load) _ ⟨next, weight⟩ hload
      fun d => hload (next d)
    rw [hpairs]
    simp [hload, hnone, straight]
  · have hsome : ∃ d, bound < load d := by
      by_contra hnone
      exact hload fun d => not_lt.mp fun hd => hnone ⟨d, hd⟩
    obtain ⟨d, hover⟩ := hsome
    simp only [hload, false_and, false_or, ← exists_fits_iff]
    constructor
    · intro hagree
      refine ⟨⟨d, hover⟩, ?_, ?_⟩
      · rintro ⟨x, hx, hallowed, hfits⟩
        exact (hagree.not_fits hbound haround hover hx hallowed).1 hfits
      · rintro ⟨x, hx, hallowed, hfits⟩
        exact (hagree.not_fits hbound haround hover hx hallowed).2 hfits
    · intro hneither x hx hallowed
      have hnot : ¬ Fits load bound (straight load) x := fun h => hneither.2.1 ⟨x, hx, hallowed, h⟩
      have hnot' : ¬ Fits load bound ⟨next, weight⟩ x := fun h => hneither.2.2 ⟨x, hx, hallowed, h⟩
      exact ⟨fun h => absurd h hnot, fun h => absurd h hnot'⟩

end Bounds

/-! ## Around all places -/

/-- The place behind, and the first one behind the last. -/
def following {n : Nat} (d : Fin n) : Fin n := ⟨(d + 1) % n, Nat.mod_lt _ d.pos⟩

theorem following_injective {n : Nat} : Function.Injective (@following n) := by
  intro d d' h
  have hmod : (d + 1 : Nat) ≡ d' + 1 [MOD n] := congrArg Fin.val h
  exact Fin.ext ((hmod.add_right_cancel' 1).eq_of_lt_of_lt d.isLt d'.isLt)

theorem following_around {n : Nat} {loaded : Set (Fin n)} (hsome : loaded.Nonempty)
    (hover : ∀ d ∈ loaded, following d ∈ loaded) (d : Fin n) : d ∈ loaded := by
  obtain ⟨o, ho⟩ := hsome
  have hsteps : ∀ k : Nat, (⟨(o + k) % n, Nat.mod_lt _ o.pos⟩ : Fin n) ∈ loaded := by
    intro k
    induction k with
    | zero => simpa [Nat.mod_eq_of_lt o.isLt] using ho
    | succ k ih => simpa [following, Nat.add_assoc] using hover _ ih
  have hd := hsteps (n - o + d)
  have hsum : (o + (n - o + d)) % n = d := by
    have hn : o + (n - o + d) = d + n := by omega
    rw [hn, Nat.add_mod_right, Nat.mod_eq_of_lt d.isLt]
  simpa [hsum] using hd

end OFM.Lib
