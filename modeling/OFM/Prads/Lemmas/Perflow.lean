import OFM.Prads.Perflow

/-!
# What a get returns

`local_get_perflow` in one equation, for a serialiser that always gives a text.
-/

namespace OFM.Prads
open OFM.Lib OFM.Shared

/-- A connection that has been returned. -/
def Connection.marked (c : Connection) (id : BitVec 32) (raiseEvents : Bool) : Connection :=
  { c with gotten := mark id raiseEvents }

/-- A connection after a get. -/
def gotten (u : Undefined) (key : PerflowKey) (id : BitVec 32) (raiseEvents : Bool) (c : Connection) :
    Connection :=
  if getSelects u key c then c.marked id raiseEvents else c

section Sent

variable [Serializer]

/-- The serialiser never gives up. -/
def AlwaysSerializes : Prop := ∀ c : Connection, (Serializer.serIalize c).isSome = true

/-- What is sent for a connection. -/
def sentOf (u : Undefined) (id : BitVec 32) (raiseEvents : Bool) (seq : Nat) (c : Connection) : Sent :=
  ⟨id, connkey u c, (Serializer.serIalize (c.marked id raiseEvents)).getD [], c.cxid.setWidth 32, seq⟩

variable {u : Undefined} {key : PerflowKey} {id : BitVec 32} {raiseEvents : Bool}

theorem getBucket_eq (hser : AlwaysSerializes) : ∀ (bucket : List Connection) (count : Nat),
    getBucket u key id raiseEvents count bucket = .ok (bucket.map (gotten u key id raiseEvents),
      (bucket.filter (getSelects u key)).mapIdx fun i => sentOf u id raiseEvents (count + i))
  | [], count => rfl
  | c :: rest, count => by
      rw [getBucket]
      cases hc : getSelects u key c with
      | false =>
          rw [if_neg (by decide), getBucket_eq hser rest count]
          simp [hc, gotten, Bind.bind, Except.bind, pure, Except.pure]
      | true =>
          obtain ⟨state, hstate⟩ := Option.isSome_iff_exists.mp (hser (c.marked id raiseEvents))
          have hs : Serializer.serIalize { c with gotten := mark id raiseEvents } = some state := hstate
          rw [if_pos rfl]
          simp only [hs, getBucket_eq hser rest (count + 1)]
          have hseq : ∀ i, count + 1 + i = count + (i + 1) := fun i => by omega
          simp [hc, gotten, Bind.bind, Except.bind, pure, Except.pure, List.mapIdx_cons, hseq, sentOf,
            Connection.marked, hs, connkey]

/-- The tables after a get of some buckets. -/
def Tables.gotten (t : Tables) (u : Undefined) (key : PerflowKey) (id : BitVec 32) (raiseEvents : Bool)
    (hs : List Nat) : Tables :=
  { t with bucket := fun h =>
      if h ∈ hs then (t.bucket h).map (Prads.gotten u key id raiseEvents) else t.bucket h }

theorem getBuckets_eq (hser : AlwaysSerializes) : ∀ {hs : List Nat}, hs.Nodup → ∀ (count : Nat) (t : Tables),
    getBuckets u key id raiseEvents hs count t = .ok (t.gotten u key id raiseEvents hs,
      (hs.flatMap fun h => (t.bucket h).filter (getSelects u key)).mapIdx fun i =>
        sentOf u id raiseEvents (count + i))
  | [], _, count, t => by simp [getBuckets, Tables.gotten]
  | h :: hs, hnd, count, t => by
      obtain ⟨hnot, hnd⟩ := List.nodup_cons.mp hnd
      have hother : ∀ h' ∈ hs, Function.update t.bucket h ((t.bucket h).map
          (Prads.gotten u key id raiseEvents)) h' = t.bucket h' := by
        intro h' hh'
        have hne : h' ≠ h := fun he => hnot (he ▸ hh')
        exact Function.update_of_ne hne _ _
      rw [getBuckets, getBucket_eq hser]
      simp only [Bind.bind, Except.bind, pure, Except.pure]
      rw [getBuckets_eq hser hnd]
      simp only [Except.ok.injEq, Prod.mk.injEq]
      constructor
      · simp only [Tables.gotten, Tables.mk.injEq, and_true]
        funext h'
        by_cases he : h' = h
        · subst he
          simp [hnot]
        · by_cases hin : h' ∈ hs
          · simp [hin, hother h' hin]
          · simp [hin, he]
      · rw [List.flatMap_cons, List.mapIdx_append]
        congr 1
        have hsame : hs.flatMap (fun h' => (Function.update t.bucket h ((t.bucket h).map
            (Prads.gotten u key id raiseEvents)) h').filter (getSelects u key)) =
            hs.flatMap fun h' => (t.bucket h').filter (getSelects u key) :=
          List.flatMap_congr fun h' hh' => by rw [hother h' hh']
        rw [hsame, List.length_mapIdx]
        congr 1
        funext i
        rw [Nat.add_assoc, Nat.add_comm i]

/-- Whatever the serialiser does: a get that returns has marked a bucket, and what passes the checks has
been sent. -/
theorem getBucket_ok : ∀ {bucket bucket' : List Connection} {count : Nat} {sent : List Sent},
    getBucket u key id raiseEvents count bucket = .ok (bucket', sent) →
    bucket' = bucket.map (gotten u key id raiseEvents) ∧ ∀ c ∈ bucket, getSelects u key c = true →
      ∃ m ∈ sent, Serializer.serIalize (c.marked id raiseEvents) = some m.state ∧
        m.hashkey = c.cxid.setWidth 32
  | [], bucket', count, sent, h => by
      cases h
      exact ⟨rfl, fun c hc => absurd hc List.not_mem_nil⟩
  | c :: rest, bucket', count, sent, h => by
      rw [getBucket] at h
      cases hc : getSelects u key c with
      | false =>
          rw [hc, if_neg (by decide)] at h
          cases hr : getBucket u key id raiseEvents count rest with
          | error e =>
              rw [hr] at h
              cases h
          | ok result =>
              rw [hr] at h
              cases h
              obtain ⟨hmap, hsent⟩ := getBucket_ok hr
              refine ⟨by rw [List.map_cons, hmap, gotten, if_neg (by simp [hc])], fun x hx hsel => ?_⟩
              rcases List.mem_cons.mp hx with rfl | hx
              · rw [hc] at hsel
                cases hsel
              · exact hsent x hx hsel
      | true =>
          rw [hc, if_pos rfl] at h
          cases hs : Serializer.serIalize (c.marked id raiseEvents) with
          | none =>
              have hs' : Serializer.serIalize { c with gotten := mark id raiseEvents } = none := hs
              simp only [hs'] at h
              cases h
          | some state =>
              have hs' : Serializer.serIalize { c with gotten := mark id raiseEvents } = some state := hs
              simp only [hs'] at h
              cases hr : getBucket u key id raiseEvents (count + 1) rest with
              | error e =>
                  rw [hr] at h
                  cases h
              | ok result =>
                  rw [hr] at h
                  cases h
                  obtain ⟨hmap, hsent⟩ := getBucket_ok hr
                  refine ⟨by rw [List.map_cons, hmap, gotten, if_pos hc]; rfl, fun x hx hsel => ?_⟩
                  rcases List.mem_cons.mp hx with rfl | hx
                  · exact ⟨_, List.mem_cons_self, hs, rfl⟩
                  · obtain ⟨m, hm, hstate⟩ := hsent x hx hsel
                    exact ⟨m, List.mem_cons_of_mem _ hm, hstate⟩

/-- A get that returns has marked its buckets. -/
theorem getBuckets_ok : ∀ {hs : List Nat}, hs.Nodup → ∀ {count : Nat} {t t' : Tables} {sent : List Sent},
    getBuckets u key id raiseEvents hs count t = .ok (t', sent) →
    t' = t.gotten u key id raiseEvents hs
  | [], _, count, t, t', sent, h => by
      cases h
      simp [Tables.gotten]
  | b :: hs, hnd, count, t, t', sent, h => by
      obtain ⟨hnot, hnd⟩ := List.nodup_cons.mp hnd
      rw [getBuckets] at h
      cases hb : getBucket u key id raiseEvents count (t.bucket b) with
      | error e =>
          rw [hb] at h
          cases h
      | ok result =>
          obtain ⟨bucket, sent₁⟩ := result
          rw [hb] at h
          simp only [Bind.bind, Except.bind] at h
          cases hr : getBuckets u key id raiseEvents hs (count + sent₁.length)
              { t with bucket := Function.update t.bucket b bucket } with
          | error e =>
              rw [hr] at h
              cases h
          | ok result =>
              rw [hr] at h
              cases h
              rw [getBuckets_ok hnd hr, (getBucket_ok hb).1]
              simp only [Tables.gotten, Tables.mk.injEq, and_true]
              funext b'
              by_cases he : b' = b
              · subst he
                simp [hnot]
              · by_cases hin : b' ∈ hs
                · simp [hin, he]
                · simp [hin, he]

variable [Macros]

/-- All connections of an instance, in the order of a scan. -/
def Tables.connections (t : Tables) : List Connection := (List.range Macros.bucketSize).flatMap t.bucket

/-- A get marks the connections that its checks let through, and sends each of them. -/
theorem localGetPerflow_eq (hser : AlwaysSerializes) (t : Tables) :
    localGetPerflow u key id raiseEvents t =
      .ok (t.gotten u key id raiseEvents (List.range Macros.bucketSize),
        (t.connections.filter (getSelects u key)).mapIdx (sentOf u id raiseEvents)) := by
  rw [localGetPerflow, getBuckets_eq hser List.nodup_range, Tables.connections, List.filter_flatMap]
  simp

end Sent

end OFM.Prads
