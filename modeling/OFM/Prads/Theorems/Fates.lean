import OFM.Lib.Machine
import OFM.Prads.Instance
import OFM.Prads.Lemmas.Instance
import OFM.Prads.Lemmas.Records

/-!
# One fate for every packet of a connection

A packet of a connection that is not marked is applied. One of a connection that is marked is dropped by
both families, but only that of IPv4 is raised or counted.
-/

namespace OFM.Prads
open OFM.Lib OFM.Shared
open Machine
open OFM.Controller (JavaString)

/-! ## An instance and the gets it has had

Packets, gets and puts of per-flow state at one instance, beside a record of the last get that has returned
each of its connections. What becomes of a packet that `cx_track` finds a connection for.
-/

section History

variable [Macros] [PacketPath]

/-- The arguments of the last get that has returned a connection are not kept by the code. -/
structure History where
  inst : Instance
  lastGet : Place → Option (BitVec 32 × Bool)

/-- What a put does to the assets is left open. -/
inductive HistoryAction
  | packet (u : Undefined) (stack : ProcessContext) (packet : List (BitVec 8))
  | getPerflow (u : Undefined) (key : PerflowKey) (id : BitVec 32) (raiseEvents : Bool)
  | putPerflow (key : PerflowKey) (state : Option JavaString) (rest : PacketPath.Rest)

variable [Serializer]

omit [PacketPath] [Serializer] in
/-- A get returns the record at a place. -/
def Tables.returns (t : Tables) (u : Undefined) (key : PerflowKey) (p : Place) : Bool :=
  (t.record p).any fun c => p.bucket < Macros.bucketSize && getSelects u key c

/-- Ids are at least 1. -/
def History.step (s : History) : HistoryAction → Option History
  | .packet u stack packet => some { s with inst := (gotPacket u stack s.inst packet).1 }
  | .getPerflow u key id raiseEvents =>
      if 0 < id.toInt then
        match localGetPerflow u key id raiseEvents s.inst.tables with
        | .ok (tables, _) => some {
            inst := { s.inst with tables := tables }
            lastGet := fun p =>
              if s.inst.tables.returns u key p then some (id, raiseEvents) else s.lastGet p }
        | .error _ => none
      else none
  | .putPerflow key state rest => some { s with
      inst := { s.inst with tables := localPutPerflow key state s.inst.tables, rest := rest } }

omit [Serializer] in
/-- An instance that has no connection yet. -/
def History.start (inst : Instance) : History := ⟨{ inst with tables := emptyTables }, fun _ => none⟩

/-! ## What becomes of a packet -/

inductive Fate
  | applied
  | raised (id : BitVec 32)
  | dropped

/-- What the gets say that is to become of it. -/
def Fate.ofGet : Option (BitVec 32 × Bool) → Fate
  | none => .applied
  | some (id, true) => .raised id
  | some (_, false) => .dropped

omit [Macros] [PacketPath] in
/-- The counters of a connection. -/
def Connection.counters (c : Connection) : BitVec 32 × BitVec 32 × BitVec 32 × BitVec 32 :=
  (c.sTotalPkts, c.sTotalBytes, c.dTotalPkts, c.dTotalBytes)

omit [Macros] [PacketPath] in
/-- The packet is counted in one of its directions. -/
def Connection.Counts (c c' : Connection) (pi : PacketInfo) : Prop :=
  c'.counters = (c.sTotalPkts + 1, c.sTotalBytes + pi.packetBytes, c.dTotalPkts, c.dTotalBytes) ∨
    c'.counters = (c.sTotalPkts, c.sTotalBytes, c.dTotalPkts + 1, c.dTotalBytes + pi.packetBytes)

/-- A packet of the connection `c`, which it leaves as `c'`, has met the fate. -/
def Fate.Met (inst inst' : Instance) (handled : Handled) (pi : PacketInfo) (c c' : Connection) : Fate → Prop
  | .applied => c.Counts c' pi ∧ handled.reprocess = [] ∧
      inst'.tables.dropCounter = inst.tables.dropCounter ∧ handled.written = inst.live
  | .raised id => c'.counters = c.counters ∧
      handled.reprocess = [⟨id, c.cxid.setWidth 32, pi.packet⟩] ∧ handled.written = false
  | .dropped => c'.counters = c.counters ∧ handled.reprocess = [] ∧
      inst'.tables.dropCounter = inst.tables.dropCounter + 1 ∧ handled.written = false

/-- A packet that gets to `cx_track`, the connection it belongs to, and where that one is. -/
structure Matches (u : Undefined) (stack : ProcessContext) (inst : Instance) (packet : List (BitVec 8))
    (pi : PacketInfo) (c : Connection) : Prop where
  goes : (sdmbnPreprocessPacket u inst.filters (inMemory packet) stack).2.1.stop = 0
  parse : PacketPath.parse inst.rest packet = some pi
  found : found inst.tables pi = some c

/-- A packet of a connection meets one fate, the one that the gets say. -/
def Accounted (u : Undefined) (stack : ProcessContext) (s : History) (packet : List (BitVec 8)) : Prop :=
  ∀ pi c, Matches u stack s.inst packet pi c →
    ∃ c', (gotPacket u stack s.inst packet).1.tables.record (placeOf s.inst.tables pi) = some c' ∧
      ∀ fate : Fate, fate.Met s.inst (gotPacket u stack s.inst packet).1
        (gotPacket u stack s.inst packet).2 pi c c' ↔
          fate = .ofGet (s.lastGet (placeOf s.inst.tables pi))

/-- A packet of a connection that is marked is an IPv4 packet. -/
def HistoryAction.Raises (s : History) : HistoryAction → Prop
  | .packet u stack bytes => ∀ pi c, Matches u stack s.inst bytes pi c → c.gotten ≠ 0 → pi.af = .inet
  | _ => True

end History

section Fates

variable [Macros] [PacketPath]

/-! ## One packet -/

variable {u : Undefined} {stack : ProcessContext} {inst : Instance} {packet : List (BitVec 8)}
  {pi : PacketInfo} {c : Connection}

omit [Macros] [PacketPath] in
@[simp] theorem counters_updateAssets (c : Connection) (cAsset sAsset : Option Nat) :
    (c.updateAssets cAsset sAsset).counters = c.counters := rfl

omit [PacketPath] in
theorem counters_of_unmarked {tr : Tracked} (htr : trackOne c pi = some tr) (hc : c.gotten = 0) :
    c.Counts tr.cxt pi := by
  rcases (trackOne_unmarked htr hc).2.2 with he | he
  · rw [he, (cxtUpdateClient_of_unmarked hc).1]
    exact Or.inl rfl
  · rw [he, (cxtUpdateServer_of_unmarked hc).1]
    exact Or.inr rfl

omit [Macros] [PacketPath] in
/-- No packet is counted and leaves the counters as they are. -/
theorem not_counts_of_same {c' : Connection} (h : c'.counters = c.counters) : ¬ c.Counts c' pi := by
  have hne : ∀ x : BitVec 32, x ≠ x + 1 := by
    intro x
    bv_omega
  rintro (he | he)
  · rw [h] at he
    exact hne _ (congrArg Prod.fst he)
  · rw [h] at he
    exact hne _ (congrArg (·.2.2.1) he)

/-- All that a packet does to the connection it belongs to. -/
theorem gotPacket_of_matches (h : Matches u stack inst packet pi c) :
    ∃ c', (gotPacket u stack inst packet).1.tables.record (placeOf inst.tables pi) = some c' ∧
      (c.gotten = 0 → c.Counts c' pi) ∧ (c.gotten ≠ 0 → c'.counters = c.counters) ∧
      (gotPacket u stack inst packet).1.tables.dropCounter =
        inst.tables.dropCounter + (if pi.af = .inet ∧ c.gotten ≠ 0 then 1 else 0) ∧
      (gotPacket u stack inst packet).2.reprocess = (if pi.af = .inet ∧ c.gotten ≠ 0 ∧ c.gotten ≠ -1
        then [⟨c.gotten, c.cxid.setWidth 32, pi.packet⟩] else []) ∧
      (gotPacket u stack inst packet).2.written = (inst.live && c.gotten = 0) := by
  obtain ⟨hgo, hparse, hfound⟩ := h
  rcases bucket_cases pi (inst.tables.bucket (hash pi)) with ⟨pre, c₀, post, tr, hb, hpre, htr⟩ | hnone
  · obtain rfl := Option.some.inj (hfound.symm.trans (found_of_some hb hpre htr))
    have hprocess := @processPacket_of_some _ _ { inst with filters := (preprocessed u stack inst packet).1 }
      packet pi c tr pre post hparse hb hpre htr
    rw [gotPacket_of_go hgo, placeOf_of_some hb hpre htr, hprocess]
    let path := PacketPath.process inst.rest packet (some (tr.cxt.erase, tr.result))
    refine ⟨tr.cxt.updateAssets path.cAsset path.sAsset, by simp [Tables.record, Instance.leave, path],
      fun hc => ?_, fun hc => ?_, ?_, ?_, ?_⟩
    · have hcounts := counters_of_unmarked htr hc
      simpa [Connection.Counts] using hcounts
    · simp [(trackOne_marked htr hc).2]
    · simp [Instance.leave, trackOne_drops htr]
    · simp [trackOne_events htr]
    · by_cases hc : c.gotten = 0
      · rw [decide_eq_true hc]
        simp [Instance.leave, (trackOne_unmarked htr hc).1]
      · rw [decide_eq_false hc]
        simp [(trackOne_marked htr hc).1]
  · rw [found_of_none hnone] at hfound
    cases hfound

/-- The mark of a connection says what the last get has said. -/
structure History.Marked (s : History) : Prop where
  gotten : ∀ p c, s.inst.tables.record p = some c → c.gotten = (s.lastGet p).elim 0 fun g => mark g.1 g.2
  ids : ∀ p g, s.lastGet p = some g → 0 < g.1.toInt
  records : ∀ p, s.inst.tables.record p = none → s.lastGet p = none

omit [Macros] [PacketPath] in
theorem ne_of_pos {id : BitVec 32} (h : 0 < id.toInt) : id ≠ 0 ∧ id ≠ -1 := by
  constructor <;> rintro rfl <;> simp at h

/-- A packet of a connection meets the fate that the gets say, and no other, exactly if the connection is
not marked or the packet is an IPv4 packet. -/
theorem fate_iff {s : History} (hs : s.Marked) (h : Matches u stack s.inst packet pi c) :
    (∃ c', (gotPacket u stack s.inst packet).1.tables.record (placeOf s.inst.tables pi) = some c' ∧
      ∀ fate : Fate, fate.Met s.inst (gotPacket u stack s.inst packet).1
        (gotPacket u stack s.inst packet).2 pi c c' ↔
          fate = .ofGet (s.lastGet (placeOf s.inst.tables pi))) ↔ (c.gotten ≠ 0 → pi.af = .inet) := by
  obtain ⟨c', hrecord, hcounts, hsame, hdrops, hevents, hwritten⟩ := gotPacket_of_matches h
  simp only [hrecord, Option.some.injEq, exists_eq_left']
  have hmark := hs.gotten _ _ (record_of_found h.found)
  cases hget : s.lastGet (placeOf s.inst.tables pi) with
  | none =>
      rw [hget] at hmark
      have hc : c.gotten = 0 := hmark
      have hno : ¬ c'.counters = c.counters := fun he => not_counts_of_same he (hcounts hc)
      refine iff_of_true (fun fate => ?_) fun hne => absurd hc hne
      cases fate with
      | applied => simp [Fate.Met, Fate.ofGet, hcounts hc, hdrops, hevents, hwritten, hc]
      | raised id => simp [Fate.Met, Fate.ofGet, hno]
      | dropped => simp [Fate.Met, Fate.ofGet, hno]
  | some g =>
      obtain ⟨id, raiseEvents⟩ := g
      rw [hget] at hmark
      obtain ⟨hzero, hneg⟩ : id ≠ 0 ∧ id ≠ -1 := ne_of_pos (hs.ids _ _ hget)
      have hc : c.gotten ≠ 0 := by
        cases raiseEvents with
        | true => exact fun he => hzero (hmark.symm.trans he)
        | false => exact fun he => absurd (show (-1 : BitVec 32) = 0 from hmark.symm.trans he) (by decide)
      have hno : ¬ c.Counts c' pi := not_counts_of_same (hsame hc)
      cases haf : pi.af with
      | inet =>
          refine iff_of_true (fun fate => ?_) fun _ => rfl
          rw [if_pos ⟨haf, hc⟩] at hdrops
          rw [decide_eq_false hc, Bool.and_false] at hwritten
          cases raiseEvents with
          | true =>
              have hid : c.gotten = id := hmark
              rw [if_pos ⟨haf, hc, hid ▸ hneg⟩, hid] at hevents
              cases fate with
              | applied => simp [Fate.Met, Fate.ofGet, hno]
              | raised id' => simpa [Fate.Met, Fate.ofGet, hsame hc, hevents, hwritten] using eq_comm
              | dropped => simp [Fate.Met, Fate.ofGet, hevents]
          | false =>
              have hid : c.gotten = -1 := hmark
              rw [if_neg fun h => h.2.2 hid] at hevents
              cases fate with
              | applied => simp [Fate.Met, Fate.ofGet, hno]
              | raised id' => simp [Fate.Met, Fate.ofGet, hevents]
              | dropped => simp [Fate.Met, Fate.ofGet, hsame hc, hevents, hdrops, hwritten]
      | inet6 =>
          refine iff_of_false (fun hfate => ?_) fun hinet => by cases hinet hc
          -- The packet is neither raised nor counted.
          have hmet := (hfate _).mpr rfl
          cases raiseEvents with
          | true => simp [Fate.ofGet, Fate.Met, hevents, haf] at hmet
          | false => simp [Fate.ofGet, Fate.Met, hdrops, haf] at hmet

theorem accounted_iff_raises {s : History} (hs : s.Marked) :
    Accounted u stack s packet ↔ (HistoryAction.packet u stack packet).Raises s :=
  forall_congr' fun _ => forall_congr' fun _ => forall_congr' fun h => fate_iff hs h

/-! ## The marks of a run -/

/-- Records keep their marks, and new ones have none. -/
structure KeepsMarks (t t' : Tables) : Prop where
  kept : ∀ p c, t.record p = some c → ∃ c', t'.record p = some c' ∧ c'.gotten = c.gotten
  fresh : ∀ p c, t.record p = none → t'.record p = some c → c.gotten = 0

omit [Macros] [PacketPath] in
theorem keepsMarks_replace {t t' : Tables} {h : Nat} {c c' : Connection} {pre post : List Connection}
    (hb : t.bucket h = pre ++ c :: post) (hc : c'.gotten = c.gotten)
    (ht : t'.bucket = Function.update t.bucket h (pre ++ c' :: post)) : KeepsMarks t t' := by
  constructor
  · rintro ⟨bucket, index⟩ x hx
    by_cases hh : bucket = h
    · subst hh
      simp only [Tables.record, hb, ht, Function.update_self, reverse_middle] at hx ⊢
      split at hx
      · cases hx
        exact ⟨c', if_pos ‹_›, hc⟩
      · exact ⟨x, by rwa [if_neg ‹_›], rfl⟩
    · exact ⟨x, by simpa [Tables.record, ht, Function.update_of_ne hh] using hx, rfl⟩
  · rintro ⟨bucket, index⟩ x hnone hx
    by_cases hh : bucket = h
    · subst hh
      simp only [Tables.record, hb, ht, Function.update_self, reverse_middle] at hnone hx
      split at hnone
      · cases hnone
      · rw [if_neg ‹_›, hnone] at hx
        cases hx
    · rw [Tables.record, ht, Function.update_of_ne hh] at hx
      rw [Tables.record, hx] at hnone
      cases hnone

omit [Macros] [PacketPath] in
theorem keepsMarks_push {t t' : Tables} {h : Nat} {c : Connection} (hc : c.gotten = 0)
    (ht : t'.bucket = Function.update t.bucket h (c :: t.bucket h)) : KeepsMarks t t' := by
  constructor
  · rintro ⟨bucket, index⟩ x hx
    refine ⟨x, ?_, rfl⟩
    by_cases hh : bucket = h
    · subst hh
      simp only [Tables.record, ht, Function.update_self, List.reverse_cons] at hx ⊢
      rw [List.getElem?_append_left (List.getElem?_eq_some_iff.mp hx).1]
      exact hx
    · simpa [Tables.record, ht, Function.update_of_ne hh] using hx
  · rintro ⟨bucket, index⟩ x hnone hx
    by_cases hh : bucket = h
    · subst hh
      simp only [Tables.record, ht, Function.update_self, List.reverse_cons] at hnone hx
      rw [List.getElem?_append_right (List.getElem?_eq_none_iff.mp hnone)] at hx
      obtain rfl := List.mem_singleton.mp (List.mem_of_getElem? hx)
      exact hc
    · rw [Tables.record, ht, Function.update_of_ne hh] at hx
      rw [Tables.record, hx] at hnone
      cases hnone

omit [Macros] [PacketPath] in
theorem KeepsMarks.refl (t : Tables) : KeepsMarks t t :=
  ⟨fun _ c hc => ⟨c, hc, rfl⟩, fun _ _ hnone hc => by rw [hnone] at hc; cases hc⟩

theorem keepsMarks_processPacket (inst : Instance) (packet : List (BitVec 8)) :
    KeepsMarks inst.tables (processPacket inst packet).1.tables := by
  cases hparse : PacketPath.parse inst.rest packet with
  | none =>
      rw [processPacket_of_unparsed hparse]
      exact KeepsMarks.refl _
  | some pi =>
      rcases bucket_cases pi (inst.tables.bucket (hash pi)) with ⟨pre, c, post, tr, hb, hpre, htr⟩ | hnone
      · rw [processPacket_of_some hparse hb hpre htr]
        refine keepsMarks_replace hb ?_ rfl
        exact (trackOne_same htr).1
      · rw [processPacket_of_new hparse hnone]
        exact keepsMarks_push rfl rfl

theorem keepsMarks_gotPacket (inst : Instance) :
    KeepsMarks inst.tables (gotPacket u stack inst packet).1.tables := by
  by_cases hgo : (preprocessed u stack inst packet).2.1.stop = 0
  · rw [gotPacket_of_go hgo]
    exact keepsMarks_processPacket { inst with filters := (preprocessed u stack inst packet).1 } packet
  · rw [gotPacket_of_stop hgo]
    exact KeepsMarks.refl _

section Serialized

variable [Serializer] {s s' : History}

omit [PacketPath] in
theorem keepsMarks_put (key : PerflowKey) (state : Option OFM.Controller.JavaString) (t : Tables) :
    KeepsMarks t (localPutPerflow key state t) := by
  cases state with
  | none => exact KeepsMarks.refl t
  | some state => exact keepsMarks_push rfl rfl

omit [PacketPath] [Serializer] in
/-- What a get leaves of a record. -/
theorem record_gotten (t : Tables) (key : PerflowKey) (id : BitVec 32) (raiseEvents : Bool) (p : Place) :
    (t.gotten u key id raiseEvents (List.range Macros.bucketSize)).record p =
      (t.record p).map fun c => if t.returns u key p then c.marked id raiseEvents else c := by
  have hrecord : (t.gotten u key id raiseEvents (List.range Macros.bucketSize)).record p =
      if p.bucket < Macros.bucketSize then (t.record p).map (gotten u key id raiseEvents)
      else t.record p := by
    simp only [Tables.record, Tables.gotten, List.mem_range]
    split
    · rw [← List.map_reverse, List.getElem?_map]
    · rfl
  rw [hrecord]
  cases hr : t.record p with
  | none => simp
  | some c => by_cases hlt : p.bucket < Macros.bucketSize <;> simp [Tables.returns, hr, gotten, hlt]

omit [Macros] [Serializer] in
theorem History.Marked.keep (hs : s.Marked) {inst : Instance}
    (h : KeepsMarks s.inst.tables inst.tables) : History.Marked { s with inst := inst } := by
  constructor
  · intro p c hc
    cases hp : s.inst.tables.record p with
    | none =>
        rw [h.fresh p c hp hc, hs.records p hp]
        rfl
    | some c₀ =>
        obtain ⟨c', hc', hg⟩ := h.kept p c₀ hp
        obtain rfl := Option.some.inj (hc.symm.trans hc')
        rw [hg, hs.gotten p c₀ hp]
  · exact hs.ids
  · intro p hp
    apply hs.records
    cases hr : s.inst.tables.record p with
    | none => rfl
    | some c =>
        obtain ⟨c', hc', -⟩ := h.kept p c hr
        rw [hp] at hc'
        cases hc'

theorem marked_step {a : HistoryAction} (hs : s.Marked) (h : s.step a = some s') : s'.Marked := by
  cases a with
  | packet u stack packet =>
      cases h
      exact hs.keep (keepsMarks_gotPacket s.inst)
  | putPerflow key state rest =>
      cases h
      exact hs.keep (keepsMarks_put key state s.inst.tables)
  | getPerflow u key id raiseEvents =>
      rw [History.step] at h
      split at h
      · rename_i hid
        split at h
        · rename_i tables sent hget
          cases h
          rw [getBuckets_ok List.nodup_range hget]
          constructor
          · intro p c hc
            rw [record_gotten] at hc
            obtain ⟨c₀, hc₀, rfl⟩ := Option.map_eq_some_iff.mp hc
            cases hret : s.inst.tables.returns u key p with
            | true => simp [hret, Connection.marked]
            | false => simpa [hret] using hs.gotten p c₀ hc₀
          · intro p g hg
            dsimp only at hg
            split at hg
            · cases hg
              exact hid
            · exact hs.ids p g hg
          · intro p hp
            rw [record_gotten, Option.map_eq_none_iff] at hp
            simpa [Tables.returns, hp] using hs.records p hp
        · cases h
      · cases h

omit [Macros] [Serializer] in
theorem marked_start (inst : Instance) : (History.start inst).Marked :=
  ⟨fun p c hc => by simp [History.start, emptyTables, Tables.record] at hc, fun _ _ h => (nomatch h),
    fun _ _ => rfl⟩

theorem marked_run {inst : Instance} {as : List HistoryAction}
    (h : run History.step (.start inst) as = some s) : s.Marked :=
  run_invariant' (marked_start inst) (fun _ _ _ hs hstep => marked_step hs hstep) h

/-- Every packet of a run that has a connection meets one fate, the one that the gets before it say, exactly
if no IPv6 packet comes to a connection that is marked. -/
theorem fates_iff (inst : Instance) (as : List HistoryAction) :
    (∀ pre u stack packet suf t, as = pre ++ .packet u stack packet :: suf →
      run History.step (.start inst) pre = some t → Accounted u stack t packet) ↔
        Along History.step (fun s a => a.Raises s) (.start inst) as := by
  constructor
  · intro h pre a suf t has ht
    cases a with
    | packet u stack packet =>
        exact (accounted_iff_raises (marked_run ht)).mp (h pre u stack packet suf t has ht)
    | getPerflow => trivial
    | putPerflow => trivial
  · intro h pre u stack packet suf t has ht
    exact (accounted_iff_raises (marked_run ht)).mpr (h pre _ suf t has ht)

end Serialized

end Fates

/-! ## An IPv6 packet -/

/-- The fields of an IPv6 packet; only packets are counted, and there are no assets. -/
@[reducible] def plainPath6 : PacketPath where
  counters := plainPath.counters
  counters_lt := plainPath.counters_lt
  gotPackets := plainPath.gotPackets
  Rest := Unit
  parse _ packet :=
    let mem := inMemory packet
    if be16 mem 12 = 0x86dd then some {
      af := .inet6
      ipSrc := ⟨le32 mem 22, le32 mem 26, le32 mem 30, le32 mem 34⟩
      ipDst := ⟨le32 mem 38, le32 mem 42, le32 mem 46, le32 mem 50⟩
      sPort := le16 mem 54
      dPort := le16 mem 56
      proto := mem 20
      ethType := le16 mem 12
      tcpFlags := if mem 20 = ipprotoTcp then some (mem 67) else none
      packetBytes := BitVec.ofNat 32 (packet.length - etherHdrLen)
      tvSec := 0
      asset := none
      packet := packet }
    else none
  process _ _ _ := ⟨(), [], none, none⟩
  assetHash4 _ := 0
  passet _ _ := []
  serIalizeAsset _ _ := none

/-- A UDP packet without data, from `::1` to `::2`. -/
def sampleFrame6 : List (BitVec 8) :=
  [0, 0, 0, 0, 0, 2, 0, 0, 0, 0, 0, 1, 0x86, 0xdd, 0x60, 0, 0, 0, 0, 8, 17, 64,
    0, 0, 0, 0, 0, 0, 0, 0, 0, 0, 0, 0, 0, 0, 0, 1, 0, 0, 0, 0, 0, 0, 0, 0, 0, 0, 0, 0, 0, 0, 0, 2,
    0, 7, 0, 9, 0, 8, 0, 0]

/-- It comes again after a get with `raiseEvents`: it is dropped, but neither raised nor counted. -/
theorem not_accounted_ipv6 : letI := plainMacros; letI := plainSerializer; letI := plainPath6
    ∃ s, run History.step (.start ⟨emptyTables, fun _ => 0, (), true, []⟩)
        [.packet (.const .zero 0) cleanStack sampleFrame6, .getPerflow (.const .zero 0) anyKey 7 true] =
          some s ∧
      ¬ Accounted (.const .zero 0) cleanStack s sampleFrame6 := by
  let _ := plainMacros
  let _ := plainSerializer
  let _ := plainPath6
  have hmarked : ∀ s, run History.step (.start ⟨emptyTables, fun _ => 0, (), true, []⟩)
      [.packet (.const .zero 0) cleanStack sampleFrame6, .getPerflow (.const .zero 0) anyKey 7 true] =
        some s → s.Marked := fun s hs => marked_run hs
  refine ⟨_, rfl, fun h => ?_⟩
  have hraises := (accounted_iff_raises (hmarked _ rfl)).mp h
  exact absurd (hraises _ _ ⟨rfl, rfl, rfl⟩ (by decide)) (by decide)

end OFM.Prads
