import Mathlib.Data.List.TakeWhile
import OFM.Prads.Lemmas.Track

/-!
# Records

Where a connection is in the table while others are put in front of it, and what becomes of it.
-/

namespace OFM.Prads
open OFM.Lib OFM.Shared

/-- A record is known by its place from the end of its bucket: new ones are put in front. -/
structure Place where
  bucket : Nat
  index : Nat
  deriving DecidableEq

def Tables.record (t : Tables) (p : Place) : Option Connection := (t.bucket p.bucket).reverse[p.index]?

theorem reverse_middle {α : Type} (pre post : List α) (x : α) (k : Nat) :
    (pre ++ x :: post).reverse[k]? =
      if k = post.length then some x
      else if k < post.length then post.reverse[k]? else pre.reverse[k - post.length - 1]? := by
  rw [List.reverse_append, List.reverse_cons, List.append_assoc, List.singleton_append]
  split
  · rename_i h
    subst h
    rw [List.getElem?_append_right (by simp)]
    simp
  · split
    · rename_i h
      exact List.getElem?_append_left (by simpa using h)
    · rename_i hne hlt
      obtain ⟨j, hj⟩ : ∃ j, k = post.length + (j + 1) := ⟨k - post.length - 1, by omega⟩
      rw [List.getElem?_append_right (by simp; omega), hj]
      simp

section Records

variable [Macros]

/-- Where the record of a packet is when `cx_track` returns. -/
def placeOf (t : Tables) (pi : PacketInfo) : Place :=
  ⟨hash pi, match (t.bucket (hash pi)).dropWhile fun c => !isOf pi c with
    | [] => (t.bucket (hash pi)).length
    | _ :: post => post.length⟩

variable {t : Tables} {pi : PacketInfo} {c : Connection} {tr : Tracked} {pre post : List Connection}

theorem placeOf_of_some (hb : t.bucket (hash pi) = pre ++ c :: post)
    (hpre : ∀ x ∈ pre, isOf pi x = false) (htr : trackOne c pi = some tr) :
    placeOf t pi = ⟨hash pi, post.length⟩ := by
  have hc : isOf pi c = true := by simp [isOf, htr]
  have hdrop : (t.bucket (hash pi)).dropWhile (fun c => !isOf pi c) = c :: post := by
    rw [hb, List.dropWhile_append_of_pos fun x hx => by simp [hpre x hx],
      List.dropWhile_cons_of_neg (by simp [hc])]
  rw [placeOf, hdrop]

theorem record_of_found (h : found t pi = some c) : t.record (placeOf t pi) = some c := by
  rcases bucket_cases pi (t.bucket (hash pi)) with ⟨pre, c₀, post, tr, hb, hpre, htr⟩ | hall
  · obtain rfl := Option.some.inj ((found_of_some hb hpre htr).symm.trans h)
    rw [placeOf_of_some hb hpre htr, Tables.record, hb, reverse_middle, if_pos rfl]
  · rw [found_of_none hall] at h
    cases h

theorem placeOf_of_none (h : ∀ c ∈ t.bucket (hash pi), isOf pi c = false) :
    placeOf t pi = ⟨hash pi, (t.bucket (hash pi)).length⟩ := by
  have hdrop : (t.bucket (hash pi)).dropWhile (fun c => !isOf pi c) = [] :=
    List.dropWhile_eq_nil_iff.mpr fun x hx => by simp [h x hx]
  rw [placeOf, hdrop]

omit [Macros] in
/-- The packets that a record counts. -/
def counted (c : Connection) : BitVec 32 := c.sTotalPkts + c.dTotalPkts

omit [Macros] in
theorem counted_ne_succ (c : Connection) : counted c ≠ counted c + 1 := by
  intro he
  have hz : (1 : BitVec 32) = 0 := by
    have hs := congrArg (fun x => x - counted c) he
    simpa [BitVec.add_comm, BitVec.add_sub_cancel] using hs.symm
  exact absurd hz (by decide)

/-- A packet is counted in a record that is not marked. -/
theorem counted_of_unmarked (htr : trackOne c pi = some tr) (hc : c.gotten = 0) :
    counted tr.cxt = counted c + 1 := by
  rcases (trackOne_unmarked htr hc).2.2 with he | he
  · rw [he, (cxtUpdateClient_of_unmarked hc).1]
    show c.sTotalPkts + 1 + c.dTotalPkts = c.sTotalPkts + c.dTotalPkts + 1
    rw [BitVec.add_assoc, BitVec.add_comm 1, BitVec.add_assoc]
  · rw [he, (cxtUpdateServer_of_unmarked hc).1]
    exact (BitVec.add_assoc c.sTotalPkts c.dTotalPkts 1).symm

/-- One change of a record: a packet, or a mark. -/
inductive Connection.Changes : Connection → Connection → Prop
  | packet {c : Connection} (pi : PacketInfo) (tr : Tracked) : trackOne c pi = some tr → Changes c tr.cxt
  | mark (c : Connection) (m : BitVec 32) : Changes c { c with gotten := m }

/-- What becomes of a record. -/
def Connection.Evolves : Connection → Connection → Prop := Relation.ReflTransGen Connection.Changes

theorem Connection.Evolves.getSelects {c c' : Connection} (h : c.Evolves c') (u : Undefined)
    (key : PerflowKey) : getSelects u key c' = getSelects u key c := by
  induction h with
  | refl => rfl
  | tail _ hstep ih =>
      rw [← ih]
      cases hstep with
      | packet pi tr htr => exact (trackOne_same htr).2.2 u key
      | mark => rfl

/-- A packet leaves every record where it is. -/
theorem record_cxTrack {p : Place} (h : t.record p = some c) :
    ∃ c', (cxTrack t pi).1.record p = some c' ∧ c.Evolves c' := by
  obtain ⟨bucket, index⟩ := p
  rcases bucket_cases pi (t.bucket (hash pi)) with ⟨pre, c₀, post, tr, hb, hpre, htr⟩ | hall
  · rw [cxTrack_of_some hb hpre htr]
    by_cases hh : bucket = hash pi
    · subst hh
      simp only [Tables.record, hb, reverse_middle, Function.update_self] at h ⊢
      split at h
      · cases h
        rename_i hk
        exact ⟨tr.cxt, if_pos hk, .single (.packet pi tr htr)⟩
      · rename_i hk
        exact ⟨c, by rwa [if_neg hk], .refl⟩
    · exact ⟨c, by simpa [Tables.record, Function.update_of_ne hh] using h, .refl⟩
  · rw [cxTrack_of_none hall]
    by_cases hh : bucket = hash pi
    · subst hh
      refine ⟨c, ?_, .refl⟩
      simp only [Tables.record, Function.update_self, List.reverse_cons] at h ⊢
      rw [List.getElem?_append_left (List.getElem?_eq_some_iff.mp h).1]
      exact h
    · exact ⟨c, by simpa [Tables.record, Function.update_of_ne hh] using h, .refl⟩

/-- The record of the packet itself. -/
theorem record_placeOf_of_some (hb : t.bucket (hash pi) = pre ++ c :: post)
    (hpre : ∀ x ∈ pre, isOf pi x = false) (htr : trackOne c pi = some tr) :
    (cxTrack t pi).1.record (placeOf t pi) = some tr.cxt := by
  rw [cxTrack_of_some hb hpre htr, placeOf_of_some hb hpre htr]
  simp [Tables.record]

theorem record_placeOf_of_none (h : ∀ c ∈ t.bucket (hash pi), isOf pi c = false) :
    (cxTrack t pi).1.record (placeOf t pi) = some (cxtNew (t.cxtrackerid + 1) pi) := by
  rw [cxTrack_of_none h, placeOf_of_none h]
  simp [Tables.record]

end Records

end OFM.Prads
