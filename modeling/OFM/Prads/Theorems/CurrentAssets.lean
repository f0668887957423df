import OFM.Prads.AssetChunks
import OFM.Prads.Theorems.LateLock

/-!
# When a get sends the assets

An asset is in a chunk of a get exactly if its message id was not that of the get before. The id stays with
the asset, so that of two gets with one id the second sends no asset that the first has seen.
-/

namespace OFM.Prads
open OFM.Lib OFM.Shared
open Machine

section Gets

variable {σ : Type} {u : Undefined} {key : PerflowKey} {id : BitVec 32} {raiseEvents : Bool}

/-! ## One connection -/

/-- What is written for some pointers: each asset whose id was another, as it is, and all get the id. -/
structure Writes (assets assets' : AssetMemory σ) (id : BitVec 32) (refs : List Nat)
    (written : List (Nat × σ)) : Prop where
  state : ∀ a, (assets' a).state = (assets a).state
  msgid : ∀ a, (assets' a).sdmbnMsgid = if a ∈ refs then id else (assets a).sdmbnMsgid
  mem : ∀ a state, (a, state) ∈ written ↔
    a ∈ refs ∧ (assets a).sdmbnMsgid ≠ id ∧ state = (assets a).state

theorem Writes.nil (assets : AssetMemory σ) (id : BitVec 32) : Writes assets assets id [] [] :=
  ⟨fun _ => rfl, fun a => by simp, fun a state => by simp⟩

theorem Writes.append {assets assets₁ assets₂ : AssetMemory σ} {refs refs' : List Nat}
    {written written' : List (Nat × σ)} (h : Writes assets assets₁ id refs written)
    (h' : Writes assets₁ assets₂ id refs' written') :
    Writes assets assets₂ id (refs ++ refs') (written ++ written') := by
  constructor
  · intro a
    rw [h'.state, h.state]
  · intro a
    rw [h'.msgid, h.msgid]
    by_cases hr : a ∈ refs <;> by_cases hr' : a ∈ refs' <;> simp [hr, hr']
  · intro a state
    rw [List.mem_append, List.mem_append, h.mem, h'.mem, h.msgid, h.state]
    by_cases hr : a ∈ refs
    · -- The second time the asset has the id.
      simp [hr]
    · simp [hr]

theorem writes_stampAsset (assets : AssetMemory σ) (id : BitVec 32) (asset : Option Nat) :
    Writes assets (stampAsset assets id asset).1 id asset.toList
      (stampAsset assets id asset).2.toList := by
  cases asset with
  | none => exact Writes.nil assets id
  | some b =>
      constructor
      · intro a
        by_cases hab : a = b
        · subst hab
          simp [stampAsset]
        · simp [stampAsset, Function.update_of_ne hab]
      · intro a
        by_cases hab : a = b
        · subst hab
          simp [stampAsset]
        · simp [stampAsset, hab, eq_comm]
      · intro a state
        simp only [stampAsset, Option.mem_toList, Option.some.injEq]
        split
        · rename_i hid
          refine iff_of_false (Option.some_ne_none _).symm ?_
          rintro ⟨rfl, hne, -⟩
          exact hne hid
        · rename_i hid
          rw [Option.some.injEq, Prod.mk.injEq]
          constructor
          · rintro ⟨rfl, rfl⟩
            exact ⟨rfl, hid, rfl⟩
          · rintro ⟨rfl, -, rfl⟩
            exact ⟨rfl, rfl⟩

theorem writes_serializeConnAsset (assets : AssetMemory σ) (c : Connection) (id : BitVec 32) :
    Writes assets (serializeConnAsset assets c id).1 id c.assets (serializeConnAsset assets c id).2.assets :=
  (writes_stampAsset assets id c.cAsset).append (writes_stampAsset _ id c.sAsset)

/-! ## All connections -/

theorem writes_getBucketAssets (assets : AssetMemory σ) (bucket : List Connection) :
    Writes assets (getBucketAssets u key id raiseEvents assets bucket).1 id
      ((bucket.filter (getSelects u key)).flatMap Connection.assets)
      ((getBucketAssets u key id raiseEvents assets bucket).2.2.flatMap Written.assets) := by
  induction bucket generalizing assets with
  | nil => exact Writes.nil assets id
  | cons c rest ih =>
      rw [getBucketAssets]
      split
      · rename_i hc
        rw [List.filter_cons_of_pos hc, List.flatMap_cons]
        exact (writes_serializeConnAsset assets { c with gotten := mark id raiseEvents } id).append (ih _)
      · rename_i hc
        rw [List.filter_cons_of_neg hc]
        exact ih assets

theorem writes_getBucketsAssets {hs : List Nat} (hnd : hs.Nodup) (assets : AssetMemory σ) (t : Tables) :
    Writes assets (getBucketsAssets u key id raiseEvents hs assets t).1 id
      ((hs.flatMap fun h => (t.bucket h).filter (getSelects u key)).flatMap Connection.assets)
      ((getBucketsAssets u key id raiseEvents hs assets t).2.2.flatMap Written.assets) := by
  induction hs generalizing assets t with
  | nil => exact Writes.nil assets id
  | cons h hs ih =>
      obtain ⟨hnot, hnd⟩ := List.nodup_cons.mp hnd
      rw [getBucketsAssets]
      -- The buckets that are left are as they were.
      have hleft : ∀ bucket, hs.flatMap (fun h' =>
          (Function.update t.bucket h bucket h').filter (getSelects u key)) =
            hs.flatMap fun h' => (t.bucket h').filter (getSelects u key) := by
        intro bucket
        refine List.flatMap_congr fun h' hh' => ?_
        have hne : h' ≠ h := fun he => hnot (he ▸ hh')
        rw [Function.update_of_ne hne]
      let result := getBucketAssets u key id raiseEvents assets (t.bucket h)
      have hrest := ih hnd result.1 { t with bucket := Function.update t.bucket h result.2.1 }
      rw [hleft] at hrest
      rw [List.flatMap_cons, List.flatMap_append, List.flatMap_append]
      exact (writes_getBucketAssets assets (t.bucket h)).append hrest

variable [Macros] {s : AssetHolder σ}

/-- The chunks of a get have every asset of the connections that it selects, as it is. -/
def Current (u : Undefined) (key : PerflowKey) (id : BitVec 32) (raiseEvents : Bool) (s : AssetHolder σ) :
    Prop :=
  ∀ a ∈ s.selected u key, ∃ w ∈ (getPerflowAssets u key id raiseEvents s.assets s.tables).2.2,
    (a, (s.assets a).state) ∈ w.assets

/-- No asset of these connections has the id of the get. -/
def Unsent (u : Undefined) (key : PerflowKey) (id : BitVec 32) (s : AssetHolder σ) : Prop :=
  ∀ a ∈ s.selected u key, (s.assets a).sdmbnMsgid ≠ id

theorem current_iff_unsent : Current u key id raiseEvents s ↔ Unsent u key id s := by
  have hwrites : Writes s.assets _ id _
      ((getPerflowAssets u key id raiseEvents s.assets s.tables).2.2.flatMap Written.assets) :=
    writes_getBucketsAssets List.nodup_range s.assets s.tables
  refine forall_congr' fun a => forall_congr' fun ha => ?_
  have hmem := hwrites.mem a (s.assets a).state
  rw [List.mem_flatMap] at hmem
  rw [hmem]
  have hrefs : a ∈ ((List.range Macros.bucketSize).flatMap fun h =>
      (s.tables.bucket h).filter (getSelects u key)).flatMap Connection.assets := by
    rw [AssetHolder.selected, Tables.connections, List.filter_flatMap] at ha
    exact ha
  simp [hrefs]

/-- A get of a run that asks for what no earlier one has sent under its id. -/
def AssetAction.Asks (s : AssetHolder σ) : AssetAction σ → Prop
  | .packet .. => True
  | .getPerflow u key id _ => Unsent u key id s

/-- Every get of a run sends the assets as they are exactly if none of them asks under an id that one of
the assets has. -/
theorem current_iff (s : AssetHolder σ) (as : List (AssetAction σ)) :
    (∀ pre u key id raiseEvents suf t, as = pre ++ .getPerflow u key id raiseEvents :: suf →
      run AssetHolder.step s pre = some t → Current u key id raiseEvents t) ↔
        Along AssetHolder.step (fun s a => a.Asks s) s as := by
  constructor
  · intro h pre a suf t has ht
    cases a with
    | packet => trivial
    | getPerflow u key id raiseEvents =>
        exact current_iff_unsent.mp (h pre u key id raiseEvents suf t has ht)
  · intro h pre u key id raiseEvents suf t has ht
    exact current_iff_unsent.mpr (h pre _ suf t has ht)

end Gets

/-- The client of the connection has an asset, which changes between two gets with the id 7: the second
get does not send it. -/
theorem not_current_again : letI := plainMacros
    ∃ s, run AssetHolder.step ⟨emptyTables, fun _ => ⟨(0 : Nat), 0⟩⟩
        [.packet samplePacket (fun _ => .kept) (some 0) none, .getPerflow (.const .zero 0) anyKey 7 true,
          .packet samplePacket (fun _ => .updated 1) none none] = some s ∧
      ¬ Current (.const .zero 0) anyKey 7 true s := by
  let _ := plainMacros
  refine ⟨_, rfl, fun h => ?_⟩
  exact current_iff_unsent.mp h 0 (by decide) rfl

end OFM.Prads
