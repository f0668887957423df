import OFM.Controller.Transfer

/-!
# What a transfer owes

The chunks that have been received and not been put, through every step of a transfer.
-/

namespace OFM.Controller.Transfer

theorem owing_eq {t : Transfer} {refs : List ChunkRef} (h : t.owed = refs) :
    t.owing = (refs.map t.store).sum := by rw [owing, h]

/-- Storing a chunk again does not change what is owed. -/
theorem sum_update_store {store : ChunkRef → Multiset (Middlebox × Content)} {ref : ChunkRef}
    {p : Multiset (Middlebox × Content)} {refs : List ChunkRef}
    (h : ref ∈ refs → store ref = p) :
    (refs.map (Function.update store ref p)).sum = (refs.map store).sum := by
  refine congrArg List.sum (List.map_congr_left fun ref' hm => ?_)
  by_cases he : ref' = ref
  · subst he
    rw [Function.update_self, h hm]
  · rw [Function.update_of_ne he]

variable {t t' : Transfer} {put : Multiset (Middlebox × Content)} {received : Multiset Content}
  {late : Multiset (Middlebox × Content)}

theorem Takes.unheld {c : Content} {p : Multiset (Middlebox × Content)} (h : t.Takes c t' p)
    (hu : t.holds = false → t.list = []) : t'.holds = false → t'.list = [] := by
  intro hh
  cases h with
  | put => exact hu hh
  | submit => exact hu hh
  | hold href hholds => rw [show t.holds = false from hh] at hholds; cases hholds

/-- A chunk is late only if it is received when what was held has been put. -/
theorem Accounts.take (ha : t.Accounts put received late) (hu : t.holds = false → t.list = [])
    {c : Content} {p : Multiset (Middlebox × Content)} (hk : t.Keeps c) (ht : t.Takes c t' p) :
    ∃ late', t'.Accounts (put + p) (received + {c}) late' ∧ (¬ t.Released → late' = late) := by
  have hmap : (received + {c}).map (Prod.mk t.dst) = put + t.owing + late + {(t.dst, c)} := by
    rw [Multiset.map_add, ← ha]
    rfl
  have hdst : t'.dst = t.dst := by cases ht <;> rfl
  -- Nothing changes for what is owed, and the chunk joins it.
  have hstored : ∀ {ref : ChunkRef}, ref.hashkey = c.hashkey → ∀ {refs : List ChunkRef},
      (∀ ref' ∈ refs, ref' ∈ t.owed) →
      ((refs.map (Function.update t.store ref {(t.dst, c)})).sum = (refs.map t.store).sum) := by
    intro ref href refs hsub
    exact sum_update_store fun hm => hk ref (hsub ref hm) href
  have hnew : ∀ {ref : ChunkRef}, ref.hashkey = c.hashkey → ∀ {refs : List ChunkRef},
      (∀ ref' ∈ refs, ref' ∈ t.owed) →
      (((refs ++ [ref]).map (Function.update t.store ref {(t.dst, c)})).sum =
        (refs.map t.store).sum + {(t.dst, c)}) := by
    intro ref href refs hsub
    rw [List.map_append, List.sum_append, hstored href hsub, List.map_singleton,
      Function.update_self, List.sum_singleton]
  unfold Accounts
  rw [hdst, hmap]
  cases ht with
  | put hh =>
      refine ⟨late, ?_, fun _ => rfl⟩
      ac_rfl
  | @submit ref href hh =>
      refine ⟨late, ?_, fun _ => rfl⟩
      have howed : t.owed = t.pool := by
        simp [owed, hu hh]
      have howed' : ({ t with
          store := Function.update t.store ref {(t.dst, c)}
          pool := t.pool ++ [ref] } : Transfer).owed = t.pool ++ [ref] := by
        simp [owed, hu hh]
      rw [owing_eq howed', owing_eq howed, hnew href fun ref' hm => howed ▸ hm, add_zero]
      ac_rfl
  | @hold ref href hh =>
      by_cases hr : t.Released
      · refine ⟨late + {(t.dst, c)}, ?_, fun hn => absurd hr hn⟩
        have howed : t.owed = t.pool := by
          rw [owed, if_pos hr, List.append_nil]
        have howed' : ({ t with
            store := Function.update t.store ref {(t.dst, c)}
            list := t.list ++ [ref] } : Transfer).owed = t.pool := by
          rw [owed, if_pos (by exact hr), List.append_nil]
        rw [owing_eq howed', owing_eq howed, hstored href fun ref' hm => howed ▸ hm, add_zero]
        ac_rfl
      · refine ⟨late, ?_, fun _ => rfl⟩
        have howed : t.owed = t.pool ++ t.list := by
          rw [owed, if_neg hr]
        have howed' : ({ t with
            store := Function.update t.store ref {(t.dst, c)}
            list := t.list ++ [ref] } : Transfer).owed = (t.pool ++ t.list) ++ [ref] := by
          rw [owed, if_neg (by exact hr), List.append_assoc]
        rw [owing_eq howed', owing_eq howed, hnew href fun ref' hm => howed ▸ hm, add_zero]
        ac_rfl

/-- What the last get-ack releases is no longer owed. -/
theorem Accounts.count (ha : t.Accounts put received late) (hbefore : ¬ t.Released) {k : Counters}
    {p : Multiset (Middlebox × Content)}
    (hp : p = if ({ t with counters := k } : Transfer).Released then (t.list.map t.store).sum else 0) :
    ({ t with counters := k } : Transfer).Accounts (put + p) received late := by
  have howed : t.owed = t.pool ++ t.list := by
    rw [owed, if_neg hbefore]
  have howed' : ({ t with counters := k } : Transfer).owed =
      t.pool ++ if ({ t with counters := k } : Transfer).Released then [] else t.list := rfl
  have hswap : ∀ a b c d : Multiset (Middlebox × Content), a + b + c + d = a + (c + b) + d := by
    intro a b c d
    ac_rfl
  rw [Accounts] at ha ⊢
  rw [← ha, owing_eq howed, owing_eq howed', hp]
  split
  · rw [List.append_nil, List.map_append, List.sum_append]
    exact hswap _ _ _ _
  · rw [add_zero]

/-- Nor is what a task puts. -/
theorem Accounts.task (ha : t.Accounts put received late) {ref : ChunkRef}
    {pool₁ pool₂ : List ChunkRef} (hpool : t.pool = pool₁ ++ ref :: pool₂) :
    ({ t with pool := pool₁ ++ pool₂ } : Transfer).Accounts (put + t.store ref) received late := by
  have hmid : ∀ l, ((pool₁ ++ ref :: pool₂ ++ l).map t.store).sum =
      t.store ref + ((pool₁ ++ pool₂ ++ l).map t.store).sum := by
    intro l
    simp only [List.map_append, List.sum_append, List.map_cons, List.sum_cons]
    ac_rfl
  have howing : t.owing = t.store ref + ({ t with pool := pool₁ ++ pool₂ } : Transfer).owing := by
    rw [owing, owed, hpool]
    exact hmid _
  rw [Accounts] at ha ⊢
  rw [← ha, howing]
  ac_rfl

end OFM.Controller.Transfer
