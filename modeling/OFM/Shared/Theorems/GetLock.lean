import OFM.Lib.Machine
import OFM.Shared.PerflowCalls

/-!
# The lock of gets is returned

Whether commands leave the lock as they have found it, over sequences of commands without thresholds.
-/

namespace OFM.Shared
open OFM.Lib

section Lock

variable {σ : Type} {config : SDMBNConfig} {getPerflow : Option (GetFunction σ)} {msg : GetCommand}
  {s s' : GetState σ}

/-- What a command does: it is answered before the lock, it waits, or it is carried out. -/
theorem getStep_cases (config : SDMBNConfig) (getPerflow : Option (GetFunction σ)) (s : GetState σ)
    (msg : GetCommand) :
    (getStep config getPerflow s msg = some s ∧ ¬ LocalGetFails config getPerflow s msg) ∨
      (s.lock = true ∧ getStep config getPerflow s msg = none) ∨
      s.lock = false ∧ ∃ (middlebox : σ) (count : Int),
        getStep config getPerflow s msg = some ⟨decide (count < 0), middlebox⟩ ∧
          (LocalGetFails config getPerflow s msg ↔ count < 0) := by
  cases hopen : openGet getPerflow msg with
  | error answer =>
      refine Or.inl ⟨by simp [getStep, handleGetPerflow, hopen], ?_⟩
      rintro ⟨get, key, raiseEvents, hok, -⟩
      rw [hopen] at hok
      cases hok
  | ok request =>
      obtain ⟨get, key, raiseEvents⟩ := request
      cases hl : s.lock with
      | true => exact Or.inr (Or.inl ⟨rfl, by simp [getStep, handleGetPerflow, hopen, hl]⟩)
      | false =>
          refine Or.inr (Or.inr ⟨rfl, (get key msg.id raiseEvents config.exts s.middlebox).1,
            (get key msg.id raiseEvents config.exts s.middlebox).2, ?_, ?_⟩)
          · by_cases hc : (get key msg.id raiseEvents config.exts s.middlebox).2 < 0
            · simp [getStep, handleGetPerflow, hopen, hl, closeGet, hc]
            · simp [getStep, handleGetPerflow, hopen, hl, closeGet, hc]
          · constructor
            · rintro ⟨get', key', raiseEvents', hok, hneg⟩
              rw [hopen] at hok
              cases hok
              exact hneg
            · exact fun hneg => ⟨get, key, raiseEvents, hopen, hneg⟩

/-- A free lock is free again after a command, unless the middlebox has failed. -/
theorem returned_iff (hl : s.lock = false) (config : SDMBNConfig) (getPerflow : Option (GetFunction σ))
    (msg : GetCommand) : (∃ s', getStep config getPerflow s msg = some s' ∧ s'.lock = s.lock) ↔
      ¬ LocalGetFails config getPerflow s msg := by
  rcases getStep_cases config getPerflow s msg with ⟨hs, hok⟩ | ⟨hl', -⟩ | ⟨-, middlebox, count, hs, hfail⟩
  · exact iff_of_true ⟨s, hs, rfl⟩ hok
  · rw [hl] at hl'
    cases hl'
  · simp [hs, hfail, hl]

/-- Every command is answered, and leaves the lock as it has found it. -/
def LockReturned (config : SDMBNConfig) (getPerflow : Option (GetFunction σ)) (s : GetState σ)
    (msgs : List GetCommand) : Prop :=
  ∀ pre msg suf, msgs = pre ++ msg :: suf → ∃ t t', Machine.run (getStep config getPerflow) s pre = some t ∧
    getStep config getPerflow t msg = some t' ∧ t'.lock = t.lock

theorem lockReturned_nil : LockReturned config getPerflow s [] := by
  intro pre msg suf he
  simp at he

theorem lockReturned_cons {msgs : List GetCommand} : LockReturned config getPerflow s (msg :: msgs) ↔
    ∃ s', getStep config getPerflow s msg = some s' ∧ s'.lock = s.lock ∧
      LockReturned config getPerflow s' msgs := by
  constructor
  · intro h
    obtain ⟨t, s', hr, hs, hl⟩ := h [] msg msgs rfl
    cases hr
    refine ⟨s', hs, hl, fun pre next suf he => ?_⟩
    obtain ⟨t, t', hr, ht⟩ := h (msg :: pre) next suf (by rw [he]; rfl)
    rw [Machine.run_cons, hs] at hr
    exact ⟨t, t', hr, ht⟩
  · rintro ⟨s', hs, hl, h⟩ pre next suf he
    cases pre with
    | nil =>
        obtain ⟨rfl, rfl⟩ := List.cons.inj he
        exact ⟨s, s', rfl, hs, hl⟩
    | cons first pre =>
        obtain ⟨rfl, rfl⟩ := List.cons.inj he
        obtain ⟨t, t', hr, ht⟩ := h pre next suf rfl
        exact ⟨t, t', by rw [Machine.run_cons, hs]; exact hr, ht⟩

/-- From a free lock, the commands leave it as they find it exactly as long as the middlebox never fails. -/
theorem lockReturned_iff_along {msgs : List GetCommand} (hl : s.lock = false) :
    LockReturned config getPerflow s msgs ↔
      Machine.Along (getStep config getPerflow) (fun t msg => ¬ LocalGetFails config getPerflow t msg) s msgs := by
  induction msgs generalizing s with
  | nil => exact iff_of_true lockReturned_nil Machine.along_nil
  | cons msg msgs ih =>
      rw [lockReturned_cons, Machine.along_cons, ← returned_iff hl]
      constructor
      · rintro ⟨s', hs, hl', h⟩
        refine ⟨⟨s', hs, hl'⟩, fun t ht => ?_⟩
        obtain rfl := Option.some.inj (hs.symm.trans ht)
        exact (ih (hl'.trans hl)).mp h
      · rintro ⟨⟨s', hs, hl'⟩, h⟩
        exact ⟨s', hs, hl', (ih (hl'.trans hl)).mpr (h s' hs)⟩

end Lock

/-- Without thresholds the lock is returned by every command of a sequence if and only if no command that
reaches the middlebox fails there. -/
theorem lockReturned_iff {σ : Type} (config : SDMBNConfig) (getPerflow : Option (GetFunction σ)) (middlebox : σ)
    (msgs : List GetCommand) (hoff : config.thresholds = false) :
    LockReturned config getPerflow ⟨sdmbnInit config, middlebox⟩ msgs ↔
      Machine.Along (getStep config getPerflow) (fun t msg => ¬ LocalGetFails config getPerflow t msg)
        ⟨sdmbnInit config, middlebox⟩ msgs :=
  lockReturned_iff_along hoff

def noThresholds : SDMBNConfig := ⟨-1, -1, -1⟩

theorem lockReturned_iff_two :
    LockReturned noThresholds (some fun _ _ _ _ s => (s, 3)) ⟨sdmbnInit noThresholds, ()⟩
        [anyGet 1, ⟨2, none, none⟩] ↔
      Machine.Along (getStep noThresholds (some fun _ _ _ _ s => (s, 3)))
        (fun t msg => ¬ LocalGetFails noThresholds (some fun _ _ _ _ s => (s, 3)) t msg)
        ⟨sdmbnInit noThresholds, ()⟩ [anyGet 1, ⟨2, none, none⟩] :=
  lockReturned_iff noThresholds _ () _ (by decide)

/-- A get that fails keeps the lock. -/
theorem not_lockReturned_failed :
    ¬ LockReturned noThresholds (some fun _ _ _ _ s => (s, -1)) ⟨sdmbnInit noThresholds, ()⟩
      [anyGet 1] := by
  intro h
  obtain ⟨t, t', hr, hs, hl⟩ := h [] _ [] rfl
  cases hr
  cases hs
  cases hl

end OFM.Shared
