import OFM.Prads.Lemmas.Perflow

/-!
# What a packet does

`cx_track` by cases: the first connection of its bucket that the packet belongs to, or a new one.
-/

namespace OFM.Prads
open OFM.Lib OFM.Shared

variable [Macros] {c : Connection} {pi : PacketInfo} {tr : Tracked}

/-! ## One connection -/

/-- The connection that a packet of either direction leaves, if it is not marked. -/
theorem cxtUpdateClient_of_unmarked (h : c.gotten = 0) :
    (cxtUpdateClient c pi).1 = { c with
      lastPktTime := pi.tvSec
      sTcpFlags := c.sTcpFlags ||| pi.tcpFlags.getD 0
      sTotalBytes := c.sTotalBytes + pi.packetBytes
      sTotalPkts := c.sTotalPkts + 1
      cAsset := c.cAsset.or pi.asset } ∧ (cxtUpdateClient c pi).2.1 = false := by
  have hle : c.gotten ≤ 0 := by rw [h]; exact BitVec.le_refl 0
  rw [cxtUpdateClient, if_pos hle]
  exact ⟨rfl, rfl⟩

theorem cxtUpdateServer_of_unmarked (h : c.gotten = 0) :
    (cxtUpdateServer c pi).1 = { c with
      lastPktTime := pi.tvSec
      dTcpFlags := c.dTcpFlags ||| pi.tcpFlags.getD 0
      dTotalBytes := c.dTotalBytes + pi.packetBytes
      dTotalPkts := c.dTotalPkts + 1
      sAsset := c.sAsset.or pi.asset } ∧ (cxtUpdateServer c pi).2.1 = false := by
  have hle : c.gotten ≤ 0 := by rw [h]; exact BitVec.le_refl 0
  rw [cxtUpdateServer, if_pos hle]
  exact ⟨rfl, rfl⟩

omit [Macros] in
theorem not_gotten_le (h : c.gotten ≠ 0) : ¬ c.gotten ≤ 0 := fun hle => h (BitVec.le_zero_iff.mp hle)

theorem cxtUpdateClient_of_marked (h : c.gotten ≠ 0) :
    (cxtUpdateClient c pi).1 = c ∧ (cxtUpdateClient c pi).2.1 = true := by
  rw [cxtUpdateClient, if_neg (not_gotten_le h)]
  exact ⟨rfl, rfl⟩

theorem cxtUpdateServer_of_marked (h : c.gotten ≠ 0) :
    (cxtUpdateServer c pi).1 = c ∧ (cxtUpdateServer c pi).2.1 = true := by
  rw [cxtUpdateServer, if_neg (not_gotten_le h)]
  exact ⟨rfl, rfl⟩

/-- The two directions of a packet, and the event if its family has one. -/
theorem trackOne_cases (h : trackOne c pi = some tr) :
    ((tr.cxt = (cxtUpdateClient c pi).1 ∧ tr.dropFlag = (cxtUpdateClient c pi).2.1 ∧
        tr.result = (cxtUpdateClient c pi).2.2) ∨
      (tr.cxt = (cxtUpdateServer c pi).1 ∧ tr.dropFlag = (cxtUpdateServer c pi).2.1 ∧
        tr.result = (cxtUpdateServer c pi).2.2)) ∧
    ((pi.af = .inet ∧ tr.events = (localRaiseReprocess c pi).2) ∨ (pi.af = .inet6 ∧ tr.events = [])) := by
  rw [trackOne] at h
  cases haf : pi.af with
  | inet =>
      simp only [haf] at h
      split at h
      · cases h
        exact ⟨Or.inl ⟨rfl, rfl, rfl⟩, Or.inl ⟨rfl, rfl⟩⟩
      · split at h
        · cases h
          exact ⟨Or.inr ⟨rfl, rfl, rfl⟩, Or.inl ⟨rfl, rfl⟩⟩
        · cases h
  | inet6 =>
      simp only [haf] at h
      split at h
      · cases h
        exact ⟨Or.inl ⟨rfl, rfl, rfl⟩, Or.inr ⟨rfl, rfl⟩⟩
      · split at h
        · cases h
          exact ⟨Or.inr ⟨rfl, rfl, rfl⟩, Or.inr ⟨rfl, rfl⟩⟩
        · cases h

/-- A connection that is not marked is updated, and the packet goes on. -/
theorem trackOne_unmarked (h : trackOne c pi = some tr) (hc : c.gotten = 0) :
    tr.dropFlag = false ∧ tr.events = [] ∧
      (tr.cxt = (cxtUpdateClient c pi).1 ∨ tr.cxt = (cxtUpdateServer c pi).1) := by
  obtain ⟨hdir, hev⟩ := trackOne_cases h
  have hevents : tr.events = [] := by
    rcases hev with ⟨-, he⟩ | ⟨-, he⟩
    · rw [he, localRaiseReprocess, if_pos hc]
    · exact he
  rcases hdir with ⟨hcxt, hd, -⟩ | ⟨hcxt, hd, -⟩
  · exact ⟨hd.trans (cxtUpdateClient_of_unmarked hc).2, hevents, Or.inl hcxt⟩
  · exact ⟨hd.trans (cxtUpdateServer_of_unmarked hc).2, hevents, Or.inr hcxt⟩

/-- A connection that is marked stays as it is, and the packet is dropped. -/
theorem trackOne_marked (h : trackOne c pi = some tr) (hc : c.gotten ≠ 0) :
    tr.dropFlag = true ∧ tr.cxt = c := by
  obtain ⟨hdir, -⟩ := trackOne_cases h
  rcases hdir with ⟨hcxt, hd, -⟩ | ⟨hcxt, hd, -⟩
  · exact ⟨hd.trans (cxtUpdateClient_of_marked hc).2, hcxt.trans (cxtUpdateClient_of_marked hc).1⟩
  · exact ⟨hd.trans (cxtUpdateServer_of_marked hc).2, hcxt.trans (cxtUpdateServer_of_marked hc).1⟩

/-- When the packet of a connection is raised. -/
theorem trackOne_events (h : trackOne c pi = some tr) :
    tr.events = if pi.af = .inet ∧ c.gotten ≠ 0 ∧ c.gotten ≠ -1
      then [⟨c.gotten, c.cxid.setWidth 32, pi.packet⟩] else [] := by
  obtain ⟨-, hev⟩ := trackOne_cases h
  rcases hev with ⟨haf, he⟩ | ⟨haf, he⟩
  · rw [he, localRaiseReprocess]
    split_ifs <;> simp_all
  · rw [he, if_neg (by simp [haf])]

/-- When the packet of a connection is counted as a drop. -/
theorem trackOne_drops (h : trackOne c pi = some tr) :
    tr.drops = if pi.af = .inet ∧ c.gotten ≠ 0 then 1 else 0 := by
  rw [trackOne] at h
  cases haf : pi.af with
  | inet =>
      have hraised : (localRaiseReprocess c pi).1 = if c.gotten ≠ 0 then 1 else 0 := by
        rw [localRaiseReprocess]
        split_ifs <;> simp_all
      simp only [haf] at h
      split at h
      · cases h
        simp [hraised]
      · split at h
        · cases h
          simp [hraised]
        · cases h
  | inet6 =>
      simp only [haf] at h
      split at h
      · cases h
        simp
      · split at h
        · cases h
          simp
        · cases h

/-- A packet changes neither the mark of a connection nor what keys are about. -/
theorem trackOne_same (h : trackOne c pi = some tr) : tr.cxt.gotten = c.gotten ∧ tr.cxt.cxid = c.cxid ∧
    ∀ u key, getSelects u key tr.cxt = getSelects u key c := by
  by_cases hc : c.gotten = 0
  · rcases (trackOne_unmarked h hc).2.2 with he | he
    · rw [he, (cxtUpdateClient_of_unmarked hc).1]
      exact ⟨rfl, rfl, fun _ _ => rfl⟩
    · rw [he, (cxtUpdateServer_of_unmarked hc).1]
      exact ⟨rfl, rfl, fun _ _ => rfl⟩
  · rw [(trackOne_marked h hc).2]
    exact ⟨rfl, rfl, fun _ _ => rfl⟩

/-! ## The search -/

/-- A connection of which the packet is. -/
def isOf (pi : PacketInfo) (c : Connection) : Bool := (trackOne c pi).isSome

theorem trackBucket_of_none : ∀ {bucket : List Connection}, (∀ c ∈ bucket, isOf pi c = false) →
    trackBucket pi bucket = none
  | [], _ => rfl
  | c :: rest, h => by
      have hc : trackOne c pi = none := by
        simpa [isOf] using h c List.mem_cons_self
      rw [trackBucket, hc]
      simp only [trackBucket_of_none fun x hx => h x (List.mem_cons_of_mem c hx), Option.map_none]

theorem trackBucket_of_some {post : List Connection} (htr : trackOne c pi = some tr) :
    ∀ {pre : List Connection}, (∀ x ∈ pre, isOf pi x = false) →
      trackBucket pi (pre ++ c :: post) = some (pre ++ tr.cxt :: post, tr)
  | [], _ => by
      rw [List.nil_append, trackBucket, htr]
      rfl
  | x :: pre, h => by
      have hx : trackOne x pi = none := by
        simpa [isOf] using h x List.mem_cons_self
      rw [List.cons_append, trackBucket, hx]
      simp only [trackBucket_of_some htr fun y hy => h y (List.mem_cons_of_mem x hy), Option.map_some,
        List.cons_append]

theorem hash_lt (pi : PacketInfo) : hash pi < Macros.bucketSize := by
  rw [hash]
  split
  · exact Macros.cxtHash4_lt _ _ _ _ _
  · exact Macros.cxtHash6_lt _ _ _ _ _

/-- A bucket has a first connection of the packet, or none. -/
theorem bucket_cases (pi : PacketInfo) (bucket : List Connection) :
    (∃ pre c post tr, bucket = pre ++ c :: post ∧ (∀ x ∈ pre, isOf pi x = false) ∧
      trackOne c pi = some tr) ∨ ∀ c ∈ bucket, isOf pi c = false := by
  induction bucket with
  | nil => exact Or.inr fun c hc => absurd hc List.not_mem_nil
  | cons x rest ih =>
      cases hx : trackOne x pi with
      | some tr => exact Or.inl ⟨[], x, rest, tr, rfl, fun y hy => absurd hy List.not_mem_nil, hx⟩
      | none =>
          have hno : isOf pi x = false := by simp [isOf, hx]
          rcases ih with ⟨pre, c, post, tr, rfl, hpre, hc⟩ | hall
          · refine Or.inl ⟨x :: pre, c, post, tr, rfl, ?_, hc⟩
            exact List.forall_mem_cons.mpr ⟨hno, hpre⟩
          · exact Or.inr (List.forall_mem_cons.mpr ⟨hno, hall⟩)

variable {t : Tables}

theorem cxTrack_of_some {pre post : List Connection} (hb : t.bucket (hash pi) = pre ++ c :: post)
    (hpre : ∀ x ∈ pre, isOf pi x = false) (htr : trackOne c pi = some tr) :
    cxTrack t pi = ({ t with
        bucket := Function.update t.bucket (hash pi) (pre ++ tr.cxt :: post)
        dropCounter := t.dropCounter + tr.drops },
      ⟨tr.dropFlag, tr.result, tr.events⟩) := by
  rw [cxTrack, hb, trackBucket_of_some htr hpre]

theorem cxTrack_of_none (h : ∀ c ∈ t.bucket (hash pi), isOf pi c = false) :
    cxTrack t pi = ({ t with
        cxtrackerid := t.cxtrackerid + 1
        bucket := Function.update t.bucket (hash pi)
          (cxtNew (t.cxtrackerid + 1) pi :: t.bucket (hash pi)) },
      ⟨false, .client, []⟩) := by
  rw [cxTrack, trackBucket_of_none h]

/-- The connection that `cx_track` finds for a packet. -/
def found (t : Tables) (pi : PacketInfo) : Option Connection := (t.bucket (hash pi)).find? (isOf pi)

theorem found_of_some {pre post : List Connection} (hb : t.bucket (hash pi) = pre ++ c :: post)
    (hpre : ∀ x ∈ pre, isOf pi x = false) (htr : trackOne c pi = some tr) : found t pi = some c := by
  have hc : isOf pi c = true := by simp [isOf, htr]
  rw [found, hb, List.find?_append, List.find?_eq_none.mpr (by simpa using hpre)]
  simp [hc]

theorem found_of_none (h : ∀ c ∈ t.bucket (hash pi), isOf pi c = false) : found t pi = none :=
  List.find?_eq_none.mpr (by simpa using h)

end OFM.Prads
