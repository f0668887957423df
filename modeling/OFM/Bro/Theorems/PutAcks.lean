import OFM.Bro.Theorems.FoundAgain
import OFM.Shared.PerflowCalls

/-!
# When the acks of puts are true in Bro

A put that returns is acked, whatever has been inserted.
-/

namespace OFM.Bro
open OFM.Lib OFM.Shared
open OFM.Controller (JsonObject)

/-- The sessions have the connection, with the id that a put gives it. -/
def NetSessions.Holds (c : Connection) (s : NetSessions) : Prop :=
  ∃ t conn, c.proto.table = some t ∧ (s.conns t).lookup c.key = some conn ∧ s.heap conn = c.setGetOpId 0

theorem holds_insert {s s' : NetSessions} {c : Connection} {conn : Pointer} {hc : conn < s.fresh}
    (hheap : s.heap conn = c.setGetOpId 0) (hs : s.insert conn hc = some s') : s'.Holds c := by
  obtain ⟨t, ht, rfl⟩ := Option.map_eq_some_iff.mp hs
  rw [hheap] at ht ⊢
  refine ⟨t, conn, ht, ?_, hheap⟩
  obtain ⟨e, he, hname, hvalue⟩ := Dictionary.exists_mem_insert ((s.removeEntry t c.key).conns t) c.key conn
  have hconns : ((s.removeEntry t c.key).insertEntry t c.key conn hc).conns t =
      ((s.removeEntry t c.key).conns t).insert c.key conn := Function.update_self ..
  exact Dictionary.lookup_eq_some_iff.mpr ⟨e, hconns ▸ he, hname, hvalue⟩

variable [TextArchive] {toText : List (BitVec 8) → Text} {input : DecodeInput} {s : NetSessions}

/-- What the state of a message stands for. -/
def decoded (toText : List (BitVec 8) → Text) (input : DecodeInput) (msg : JsonObject) : Option Connection :=
  msg.state.bind fun state =>
    match sdmbnBoostDecode input (toText (cText state)) with
    | .ok (.new c) => some c
    | _ => none

/-- What is asked of a put for its answer to be true. -/
structure Honest (toText : List (BitVec 8) → Text) (input : DecodeInput) (msg : JsonObject) (s : NetSessions) :
    Prop where
  /-- What is turned down before it is decoded is not there already. -/
  refused : ¬ Complete msg → ∀ c ∈ decoded toText input msg, ¬ s.Holds c
  /-- There is a new connection, and a table for it. -/
  inserts : Complete msg → ∃ c ∈ decoded toText input msg, c.proto ≠ .unknown

/-- The result is never negative. -/
theorem not_neg_of_localPutPerflow {text : Text} {s' : NetSessions} {n : Int}
    (h : localPutPerflow input text s = .ok (s', n)) : ¬ n < 0 := by
  rw [localPutPerflow] at h
  split at h
  · cases h
  · cases h
  · split at h
    · split at h <;> cases h
      decide
    · cases h
  · split at h <;> cases h
    decide

/-- The answer to a put of Bro is true if and only if a connection is decoded. -/
theorem truthful_localPutPerflow_iff (msg : JsonObject) (id : Int) :
    Truthful (decoded toText input msg) NetSessions.Holds s
        (handlePutPerflow (some fun _ _ state s => localPutPerflow input (toText state) s) msg id s) ↔
      Honest toText input msg s := by
  by_cases hc : Complete msg
  · obtain ⟨hashkey, key, state, hh, hk, hs⟩ := hc.parts
    have honest_iff : Honest toText input msg s ↔ ∃ c ∈ decoded toText input msg, c.proto ≠ .unknown :=
      ⟨fun h => h.inserts hc, fun h => ⟨fun hnot => absurd hc hnot, fun _ => h⟩⟩
    rw [truthful_of_complete hh hk hs, honest_iff]
    cases hdecode : sdmbnBoostDecode input (toText (cText state)) with
    | error halt => simp [localPutPerflow, decoded, hs, hdecode]
    | ok result =>
        cases result with
        | old conn =>
            -- Nothing is decoded, so that an ack is not true and there is nothing but acks.
            have hnone : decoded toText input msg = none := by simp [decoded, hs, hdecode]
            rw [hnone]
            apply iff_of_false
            · rintro ⟨s', n, hput, hanswer⟩
              split at hanswer
              case isTrue hn => exact absurd hn (not_neg_of_localPutPerflow hput)
              case isFalse =>
                obtain ⟨c, hc, -⟩ := hanswer
                cases hc
            · rintro ⟨c, hc, -⟩
              cases hc
        | new c =>
            have hsome : decoded toText input msg = some c := by simp [decoded, hs, hdecode]
            have hheap : (s.allocate (c.setGetOpId 0)).heap s.fresh = c.setGetOpId 0 := Function.update_self ..
            have htable : c.proto.table = none ↔ c.proto = .unknown := by
              cases c.proto <;> simp [TransportProto.table]
            rw [hsome]
            simp only [Option.mem_some_iff, exists_eq_left', ne_eq, ← htable]
            rw [localPutPerflow, hdecode]
            dsimp only
            split
            case h_1 hinsert =>
              have hnone := Option.map_eq_none_iff.mp hinsert
              rw [hheap] at hnone
              refine iff_of_false ?_ fun h => h hnone
              rintro ⟨s', n, hput, -⟩
              cases hput
            case h_2 s' hinsert =>
              obtain ⟨t, ht, -⟩ := Option.map_eq_some_iff.mp hinsert
              rw [hheap] at ht
              refine iff_of_true ⟨s', 1, rfl, ?_⟩ fun h => ?_
              · exact holds_insert hheap hinsert
              · cases ht.symm.trans h
  · rw [truthful_of_not_complete hc]
    constructor
    · intro h
      exact ⟨fun _ c hdec hheld => h ⟨c, hdec, hheld⟩, fun h => absurd h hc⟩
    · rintro h ⟨c, hdec, hheld⟩
      exact h.refused hc c hdec hheld

end OFM.Bro
