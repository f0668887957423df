import Mathlib.Data.Set.Finite.Lemmas
import OFM.Algorithms.Lemmas.ScaleIn
import OFM.Lib.Pairing

/-!
# What `ScaleInCheck` asks of the merges

The rows of a destination in `constr 5` stand one place ahead: the load of a source is put on the network function
behind its destination, and for the last destination that of the next source on the first one. So the program accepts
the merges that are safe under another reading, and states its specification where both readings agree.
-/

namespace OFM.OFMAlgorithm
open OFM.Lib

variable {vnfs : List VNFinfo} {x : Fin vnfs.length → Fin vnfs.length → Bool}

/-! ## The specification -/

def vnfLoad (vnfs : List VNFinfo) (d : Fin vnfs.length) : ℚ := (vnfs.get d).loadPercentage

/-- What is asked of merges, where `x s d` says that `s` is merged into `d`. -/
structure Merges (vnfs : List VNFinfo) (x : Fin vnfs.length → Fin vnfs.length → Bool) : Prop where
  notSelf : ∀ i, x i i = false
  once : ∀ s d s' d', x s d → x s' d' → s = s' ∨ s = d' ∨ d = s' ∨ d = d' → s = s' ∧ d = d'
  safe : ∀ d, vnfLoad vnfs d + (∑ s, if x s d then vnfLoad vnfs s else 0) ≤ thSafe
  buffer : ∀ d f, (∑ s, if x s d then penaltyAt (vnfs.get s).flow f else 0) ≤ bufferSize / sfmt

/-- The matrices that the program accepts are those that meet the specification. -/
def ScaleInStates (lib : LpSolve) (vnfs : List VNFinfo) : Prop :=
  ∃ problem, scaleInProblem lib vnfs = .ok problem ∧
    ∀ (x : Fin vnfs.length → Fin vnfs.length → Bool) (v : Nat → ℚ), Encodes x v →
      ((lib.program problem).Accepts v ↔ Merges vnfs x)

/-! ## When it is stated -/

/-- What the flows of a network function wait is no more than a buffer takes. -/
def Buffered (vnfs : List VNFinfo) (s : Fin vnfs.length) : Prop :=
  ∀ f, penaltyAt (vnfs.get s).flow f ≤ bufferSize / sfmt

/-- A pair puts the load of its source on its destination. -/
def asMeant (vnfs : List VNFinfo) : Reading (Fin vnfs.length) ℚ := straight (vnfLoad vnfs)

/-- The rows put it on the network function behind, and for the last destination that of the next source. -/
def asWritten (vnfs : List VNFinfo) : Reading (Fin vnfs.length) ℚ where
  place := following
  weight s d := if (d + 1 : Nat) < vnfs.length then vnfLoad vnfs s else loadsOf vnfs (s + 1)

/-- The place of a pair has not too much to bear with what the pair puts on it. -/
def PairFits (vnfs : List VNFinfo) (reading : Reading (Fin vnfs.length) ℚ) (s d : Fin vnfs.length) : Prop :=
  vnfLoad vnfs (reading.place d) + reading.weight s d ≤ thSafe

/-- No load is too large, and a pair that may be merged is safe as it is meant if it is safe as it is written; or
there are loads that are too large, and no merges that relieve them, neither as meant nor as written. -/
def ShiftHarmless (vnfs : List VNFinfo) : Prop :=
  (∀ d, vnfLoad vnfs d ≤ thSafe) ∧
    (∀ s d, s ≠ d → Buffered vnfs s → (PairFits vnfs (asMeant vnfs) s d ↔ PairFits vnfs (asWritten vnfs) s d)) ∨
  (∃ d, thSafe < vnfLoad vnfs d) ∧
    ¬ Relieved (vnfLoad vnfs) thSafe (asMeant vnfs) (fun s _ => Buffered vnfs s) ∧
    ¬ Relieved (vnfLoad vnfs) thSafe (asWritten vnfs) fun s _ => Buffered vnfs s

/-! ## Rows -/

theorem loadsOf_fin (d : Fin vnfs.length) : loadsOf vnfs d = vnfLoad vnfs d := by
  simp [loadsOf, vnfLoad]

/-- The row of a place, where each column of the matrix is put on one place. -/
theorem total_eq_incoming {n : Nat} {c : Nat → ℚ} {x : Fin n → Fin n → Bool} {place : Fin n → Fin n}
    {weight : Fin n → Fin n → ℚ} {d : Fin n} (hplace : Function.Injective place)
    (hc : ∀ s d' : Fin n, c (s * n + d') = if place d' = place d then weight s d' else 0) :
    total c x = incoming weight x d := by
  rw [total, Finset.sum_comm, incoming, Finset.sum_eq_single d]
  · simp [hc]
  · intro d' _ hne
    have hplace' : place d' ≠ place d := fun h => hne (hplace h)
    simp [hc, hplace']
  · simp

theorem total_coeff4 (d : Fin vnfs.length) (f : Nat) :
    total (coeff4 vnfs d f) x = incoming (fun s _ => penaltyAt (vnfs.get s).flow f) x d := by
  apply total_eq_incoming Function.injective_id
  intro s d'
  simp [coeff4, cell_div d'.isLt, cell_mod d'.isLt, Fin.ext_iff]

theorem total_coeff5 (d : Fin vnfs.length) :
    total (coeff5 vnfs (following d)) x = incoming (asWritten vnfs).weight x d := by
  apply total_eq_incoming following_injective
  intro s d'
  have hmod : (s * vnfs.length + d' + 1) % vnfs.length = (following d' : Nat) := by
    rw [Nat.add_assoc, Nat.mul_add_mod_self_right]
    rfl
  have hdiv : (s * vnfs.length + d' + 1) / vnfs.length = if (d' + 1 : Nat) < vnfs.length then (s : Nat) else s + 1 := by
    split
    · rw [Nat.add_assoc, cell_div ‹_›]
    · have hlast : (s * vnfs.length + d' + 1 : Nat) = (s + 1) * vnfs.length + 0 := by
        rw [Nat.succ_mul]
        omega
      rw [hlast, cell_div s.pos]
  rw [coeff5, hmod, hdiv]
  simp only [Fin.ext_iff, asWritten]
  split
  · split
    · exact loadsOf_fin s
    · rfl
  · rfl

theorem total_coeff3 {n : Nat} {x : Fin n → Fin n → Bool} (i : Fin n) :
    total (coeff3 n i) x = (Finset.univ.filter fun p : Fin n × Fin n => x p.1 p.2 ∧ (p.1 = i ∨ p.2 = i)).card := by
  rw [total, ← Fintype.sum_prod_type', ← Finset.sum_boole]
  refine Finset.sum_congr rfl fun p _ => ?_
  rw [coeff3, cell_div p.2.isLt, cell_mod p.2.isLt]
  by_cases hx : x p.1 p.2 <;> simp [hx, Fin.ext_iff]

/-- The pairs that a network function is in are one at most. -/
theorem total_coeff3_le {n : Nat} {x : Fin n → Fin n → Bool} :
    (∀ i : Fin n, total (coeff3 n i) x ≤ 1) ↔
      ∀ s d s' d', x s d → x s' d' → s = s' ∨ s = d' ∨ d = s' ∨ d = d' → s = s' ∧ d = d' := by
  simp only [total_coeff3, Nat.cast_le_one, Finset.card_le_one, Finset.mem_filter, Finset.mem_univ, true_and]
  constructor
  · intro h s d s' d' hx hx' hshare
    -- The one that both pairs share.
    obtain ⟨i, hi, hi'⟩ : ∃ i, (s = i ∨ d = i) ∧ (s' = i ∨ d' = i) := by
      rcases hshare with h | h | h | h
      · exact ⟨s, Or.inl rfl, Or.inl h.symm⟩
      · exact ⟨s, Or.inl rfl, Or.inr h.symm⟩
      · exact ⟨d, Or.inr rfl, Or.inl h.symm⟩
      · exact ⟨d, Or.inr rfl, Or.inr h.symm⟩
    exact Prod.mk.inj (h i (s, d) ⟨hx, hi⟩ (s', d') ⟨hx', hi'⟩)
  · intro h i p hp p' hp'
    obtain ⟨hx, hi⟩ := hp
    obtain ⟨hx', hi'⟩ := hp'
    apply Prod.ext_iff.mpr
    apply h _ _ _ _ hx hx'
    rcases hi with rfl | rfl
    · rcases hi' with h | h
      · exact Or.inl h.symm
      · exact Or.inr (Or.inl h.symm)
    · rcases hi' with h | h
      · exact Or.inr (Or.inr (Or.inl h.symm))
      · exact Or.inr (Or.inr (Or.inr h.symm))

theorem buffer_nonneg : 0 ≤ bufferSize / sfmt := by norm_num [bufferSize, sfmt]

/-- Flows that may wait for so long put nothing on a buffer. -/
theorem buffered_of_sla {s : Fin vnfs.length} (h : ∀ flow ∈ (vnfs.get s).flow, sfmt + laProcess < flow.sla) :
    Buffered vnfs s := by
  intro f
  have hnone : penaltyAt (vnfs.get s).flow f = 0 := by
    unfold penaltyAt
    cases hflow : (vnfs.get s).flow[f]? with
    | none => rfl
    | some flow =>
        have hsla := h flow (List.mem_of_getElem? hflow)
        simp [r, not_le.mpr hsla]
  rw [hnone]
  exact buffer_nonneg

/-! ## Both readings -/

theorem le_maxFlowNum (s : Fin vnfs.length) : (vnfs.get s).flow.length ≤ maxFlowNum vnfs := by
  have hmem := List.mem_map_of_mem (f := fun vnf : VNFinfo => vnf.flow.length) (List.get_mem vnfs s)
  unfold maxFlowNum
  cases hmax : (vnfs.map fun vnf => vnf.flow.length).max? with
  | none =>
      rw [List.max?_eq_none_iff.mp hmax] at hmem
      cases hmem
  | some most => exact (List.max?_eq_some_iff.mp hmax).2 _ hmem

/-- The buffer rows are about the sources alone. -/
theorem buffer_iff (h : Pairing x) :
    (∀ d f, incoming (fun s _ => penaltyAt (vnfs.get s).flow f) x d ≤ bufferSize / sfmt) ↔
      ∀ s d, x s d → Buffered vnfs s := by
  constructor
  · intro hrows s d hx f
    have hrow := hrows d f
    rwa [h.incoming_eq hx] at hrow
  · intro hbuffered d f
    by_cases hsome : ∃ s, x s d
    · obtain ⟨s, hx⟩ := hsome
      rw [h.incoming_eq hx]
      exact hbuffered s d hx f
    · rw [incoming_eq_zero fun s hx => hsome ⟨s, hx⟩]
      exact buffer_nonneg

theorem specified_iff : Merges vnfs x ↔ Pairing x ∧ (∀ s d, x s d → Buffered vnfs s) ∧
    Fits (vnfLoad vnfs) thSafe (asMeant vnfs) x := by
  constructor
  · intro h
    have hpairing : Pairing x := ⟨h.notSelf, h.once⟩
    exact ⟨hpairing, (buffer_iff hpairing).mp h.buffer, h.safe⟩
  · intro h
    obtain ⟨hpairing, hbuffered, hfits⟩ := h
    exact ⟨hpairing.irrefl, hpairing.once, hfits, (buffer_iff hpairing).mpr hbuffered⟩

/-- The rows of the program, under the other reading. -/
theorem rows_iff : ((((∀ i, x i i = false) ∧ ∀ i : Fin vnfs.length, total (coeff3 vnfs.length i) x ≤ 1) ∧
      ∀ d : Fin vnfs.length, ∀ f < maxFlowNum vnfs, total (coeff4 vnfs d f) x ≤ bufferSize / sfmt) ∧
      ∀ d : Fin vnfs.length, total (coeff5 vnfs d) x ≤ thSafe - loadsOf vnfs d) ↔
    Pairing x ∧ (∀ s d, x s d → Buffered vnfs s) ∧ Fits (vnfLoad vnfs) thSafe (asWritten vnfs) x := by
  have hpairing : (∀ i, x i i = false) ∧ (∀ i : Fin vnfs.length, total (coeff3 vnfs.length i) x ≤ 1) ↔ Pairing x := by
    rw [total_coeff3_le]
    exact ⟨fun h => ⟨h.1, h.2⟩, fun h => ⟨h.irrefl, h.once⟩⟩
  have hbuffer : (∀ d : Fin vnfs.length, ∀ f < maxFlowNum vnfs, total (coeff4 vnfs d f) x ≤ bufferSize / sfmt) ↔
      ∀ d f, incoming (fun s _ => penaltyAt (vnfs.get s).flow f) x d ≤ bufferSize / sfmt := by
    simp only [total_coeff4]
    constructor
    · intro h d f
      by_cases hf : f < maxFlowNum vnfs
      · exact h d f hf
      · -- No network function has such a flow.
        have hnone : ∀ s, penaltyAt (vnfs.get s).flow f = 0 := by
          intro s
          have hnone := List.getElem?_eq_none ((le_maxFlowNum s).trans (Nat.not_lt.mp hf))
          rw [penaltyAt, hnone]
          rfl
        simp only [hnone, incoming, ite_self, Finset.sum_const_zero]
        exact buffer_nonneg
    · exact fun h d f _ => h d f
  have hload : (∀ d : Fin vnfs.length, total (coeff5 vnfs d) x ≤ thSafe - loadsOf vnfs d) ↔
      Fits (vnfLoad vnfs) thSafe (asWritten vnfs) x := by
    have hsurjective := Finite.surjective_of_injective (@following_injective vnfs.length)
    rw [hsurjective.forall]
    simp only [total_coeff5, loadsOf_fin, le_sub_iff_add_le']
    rfl
  rw [hpairing, hbuffer, hload, and_assoc]
  constructor
  · exact fun h => ⟨h.1, (buffer_iff h.1).mp h.2.1, h.2.2⟩
  · exact fun h => ⟨h.1, (buffer_iff h.1).mpr h.2.1, h.2.2⟩

/-! ## The program and its specification -/

variable {lib : LpSolve}

/-- The merges that the program accepts. -/
structure Accepted (vnfs : List VNFinfo) (x : Fin vnfs.length → Fin vnfs.length → Bool) : Prop where
  pairing : Pairing x
  buffered : ∀ s d, x s d → Buffered vnfs s
  fits : Fits (vnfLoad vnfs) thSafe (asWritten vnfs) x

theorem exists_scaleInProblem (hlib : lib.Documented) (vnfs : List VNFinfo) :
    ∃ problem, scaleInProblem lib vnfs = .ok problem ∧ Stands lib vnfs.length problem (Accepted vnfs) := by
  obtain ⟨problem, hok, hstands⟩ := ok_of_never (ends_scaleInProblem hlib vnfs)
  refine ⟨problem, hok, hstands.congr fun x => ?_⟩
  rw [rows_iff]
  exact ⟨fun h => ⟨h.1, h.2.1, h.2.2⟩, fun h => ⟨h.pairing, h.buffered, h.fits⟩⟩

/-- The program states its specification where what is meant and what is written agree. -/
theorem scaleInStates_iff_agree (hlib : lib.Documented) :
    ScaleInStates lib vnfs ↔ Agree (vnfLoad vnfs) thSafe (asMeant vnfs) (asWritten vnfs) fun s _ => Buffered vnfs s := by
  obtain ⟨problem, hok, hstands⟩ := exists_scaleInProblem hlib vnfs
  constructor
  · intro h x hpairing hbuffered
    obtain ⟨problem', hok', hstates⟩ := h
    cases hok.symm.trans hok'
    obtain ⟨v, hv⟩ := exists_encodes x
    have hiff := (hstands.accepts x v hv).symm.trans ((hstates x v hv).trans specified_iff)
    constructor
    · exact fun hfits => (hiff.mpr ⟨hpairing, hbuffered, hfits⟩).fits
    · exact fun hfits => (hiff.mp ⟨hpairing, hbuffered, hfits⟩).2.2
  · intro hagree
    refine ⟨problem, hok, fun x v hv => ?_⟩
    rw [hstands.accepts x v hv, specified_iff]
    constructor
    · exact fun h => ⟨h.pairing, h.buffered, (hagree x h.pairing h.buffered).mpr h.fits⟩
    · exact fun h => ⟨h.1, h.2.1, (hagree x h.1 h.2.1).mp h.2.2⟩

theorem thSafe_nonneg : 0 ≤ thSafe := by norm_num [thSafe]

theorem scaleInCheck_states (lib : LpSolve) (hlib : lib.Documented) (vnfs : List VNFinfo) :
    ScaleInStates lib vnfs ↔ ShiftHarmless vnfs := by
  rw [scaleInStates_iff_agree hlib]
  exact agree_iff thSafe_nonneg fun _ => following_around

/-- lp_solve as far as it is documented, for programs that begin without rows. -/
def exactLp : LpSolve where
  Problem := Program
  makeLp _ columns := Program.empty columns
  setBinary p column mustBeBin :=
    if mustBeBin then p.setBinary column else { p with column := Function.update p.column column ⟨0, none, false⟩ }
  setBounds := Program.setBounds
  addConstraint p row constrType rh := p.addConstraint ⟨row, constrType, rh⟩
  program := id

theorem exactLp_documented : exactLp.Documented where
  makeLp _ := rfl
  setBinary _ _ _ _ := rfl
  setBounds _ _ _ _ _ _ := rfl
  addConstraint _ _ _ _ _ := rfl

/-- A network function with one flow that may wait, and the load of that flow. -/
def oneFlow (id : Int) (load : ℚ) : VNFinfo := ⟨id, [⟨load * maxLoad, 100, 0, false⟩], load, 1⟩

/-- Under both readings, two equal loads are put on each other. -/
theorem scaleInCheck_states_equal : ScaleInStates exactLp [oneFlow 1 (1 / 5), oneFlow 2 (1 / 5)] := by
  apply (scaleInCheck_states exactLp exactLp_documented [oneFlow 1 (1 / 5), oneFlow 2 (1 / 5)]).mpr
  have hload : (1 / 5 : ℚ) ≤ thSafe := by norm_num [thSafe]
  have hsum : (1 / 5 + 1 / 5 : ℚ) ≤ thSafe := by norm_num [thSafe]
  left
  constructor
  · exact Fin.forall_fin_two.mpr ⟨hload, hload⟩
  · refine Fin.forall_fin_two.mpr ⟨Fin.forall_fin_two.mpr ⟨?_, ?_⟩, Fin.forall_fin_two.mpr ⟨?_, ?_⟩⟩
    · exact fun hne => absurd rfl hne
    · intro _ _
      refine iff_of_true hsum ?_
      simpa [PairFits, asWritten, following, vnfLoad, loadsOf, oneFlow] using hsum
    · exact fun _ _ => iff_of_true hsum hsum
    · exact fun hne => absurd rfl hne

/-- The second of two is merged into the first: the program puts its load on itself. -/
theorem scaleInCheck_not_states : ¬ ScaleInStates exactLp [oneFlow 1 (1 / 2), oneFlow 2 (1 / 5)] := by
  rw [scaleInStates_iff_agree exactLp_documented]
  intro hagree
  have hbuffered : ∀ s, Buffered [oneFlow 1 (1 / 2), oneFlow 2 (1 / 5)] s := by
    have hsla : sfmt + laProcess < 100 := by norm_num [sfmt, laProcess]
    refine Fin.forall_fin_two.mpr ⟨?_, ?_⟩
    · exact buffered_of_sla fun flow hflow => by simpa [List.mem_singleton.mp hflow] using hsla
    · exact buffered_of_sla fun flow hflow => by simpa [List.mem_singleton.mp hflow] using hsla
  have hpairing : Pairing (Pairing.single (1 : Fin 2) 0) := Pairing.of_single (by decide)
  have hiff := hagree _ hpairing fun s _ _ => hbuffered s
  rw [hpairing.fits_iff, hpairing.fits_iff] at hiff
  have hwritten : (1 / 5 + 1 / 5 : ℚ) ≤ thSafe := by norm_num [thSafe]
  have hhalf : (1 / 2 : ℚ) ≤ thSafe := by norm_num [thSafe]
  have hmeant : ¬ (1 / 2 + 1 / 5 : ℚ) ≤ thSafe := by norm_num [thSafe]
  apply hmeant
  apply (hiff.mpr ⟨fun s d hpair => ?_, Fin.forall_fin_two.mpr ⟨fun hnone => ?_, fun _ => ?_⟩⟩).1 1 0 rfl
  · obtain ⟨rfl, rfl⟩ := of_decide_eq_true hpair
    exact hwritten
  · exact absurd rfl (hnone 1)
  · simpa [asWritten, following, vnfLoad, oneFlow] using hhalf

/-- Loads that are not negative relieve nothing. -/
theorem shiftHarmless_of_nonneg (hload : ∀ d, 0 ≤ vnfLoad vnfs d) :
    ShiftHarmless vnfs ↔ (∃ d, thSafe < vnfLoad vnfs d) ∨ ∀ s d, s ≠ d → Buffered vnfs s →
      (PairFits vnfs (asMeant vnfs) s d ↔ PairFits vnfs (asWritten vnfs) s d) := by
  by_cases hover : ∃ d, thSafe < vnfLoad vnfs d
  · refine iff_of_true (Or.inr ⟨hover, ?_, ?_⟩) (Or.inl hover)
    · obtain ⟨d, hd⟩ := hover
      exact @not_relieved _ _ _ d _ _ _ _ (asMeant vnfs) _ (fun s _ => hload s) hd
    · obtain ⟨d, hd⟩ := hover
      obtain ⟨d, rfl⟩ := Finite.surjective_of_injective following_injective d
      refine @not_relieved _ _ _ d _ _ _ _ (asWritten vnfs) _ (fun s d => ?_) hd
      simp only [asWritten]
      split
      · exact hload s
      · by_cases hs : (s + 1 : Nat) < vnfs.length
        · exact (loadsOf_fin ⟨s + 1, hs⟩).symm ▸ hload _
        · simp [loadsOf, List.getElem?_eq_none (Nat.not_lt.mp hs)]
  · have hall : ∀ d, vnfLoad vnfs d ≤ thSafe := fun d => not_lt.mp fun hd => hover ⟨d, hd⟩
    simp [ShiftHarmless, hover, hall]

/-! ## What is returned -/

/-- `ScaleInCheck` returns the most that merges save which the program accepts. -/
theorem scaleInCheck_greatest (lib : Solver) (hlib : lib.Documented) (hcomplete : ∀ vnf ∈ vnfs, vnf.Complete)
    (hsome : ∃ x, Accepted vnfs x) : ∃ benefit, scaleInCheck lib vnfs = .ok benefit ∧
      IsGreatest {b | ∃ x, Accepted vnfs x ∧
        (∑ s : Fin vnfs.length, ∑ d : Fin vnfs.length, if x s d then benefitOf vnfs s else 0) = b} benefit := by
  obtain ⟨problem, hok, hstands⟩ := exists_scaleInProblem hlib.toDocumented vnfs
  obtain ⟨coeffobj, hobj, hcoeff⟩ := ok_of_never (ends_rowObj hcomplete (coeffs_newCoeff vnfs.length).length)
  let saved (x : Fin vnfs.length → Fin vnfs.length → Bool) : ℚ :=
    ∑ s : Fin vnfs.length, ∑ d : Fin vnfs.length, if x s d then benefitOf vnfs s else 0
  have hvalue : ∀ x v, Encodes x v → valueOf (lib.program problem).columns coeffobj v = saved x := by
    intro x v hx
    rw [hstands.valueOf_eq hcoeff hx, total]
    simp only [cell_div (Fin.isLt _)]
    rfl
  obtain ⟨x, hx, hmax⟩ := Set.exists_max_image {x | Accepted vnfs x} saved (Set.toFinite _) hsome
  have hlength : coeffobj.length = (lib.program problem).columns + 1 := by rw [hcoeff.length, hstands.columns]
  have hgreatest := hlib.getObjective problem coeffobj (saved x) hlength ?_
  · refine ⟨saved x, ?_, ⟨x, hx, rfl⟩, ?_⟩
    · rw [scaleInCheck, hok, ok_bind, hobj, ok_bind, hgreatest]
      rfl
    · rintro _ ⟨x', hx', rfl⟩
      exact hmax x' hx'
  · constructor
    · obtain ⟨v, hv⟩ := exists_encodes x
      exact ⟨v, (hstands.accepts x v hv).mpr hx, hvalue x v hv⟩
    · rintro _ ⟨v, haccepts, rfl⟩
      obtain ⟨x', hv⟩ := hstands.matrix v haccepts
      rw [hvalue x' v hv]
      exact hmax x' ((hstands.accepts x' v hv).mp haccepts)

end OFM.OFMAlgorithm
