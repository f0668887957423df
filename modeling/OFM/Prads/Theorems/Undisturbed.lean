import OFM.Lib.Machine
import OFM.Prads.Lemmas.Instance
import OFM.Prads.Lemmas.Records

/-!
# Copies and their source

Two instances that got the same packets, one of which had been asked for its state by a copy before: when
nothing but marks tells one from the other.
-/

namespace OFM.Prads
open OFM.Lib OFM.Shared
open Machine
open OFM.Controller (Scope StateClass)

/-! ## Marks -/

theorem mark_ne_zero (id : BitVec 32) : mark id false ≠ 0 := by
  rw [mark, if_neg (by decide)]
  decide

theorem gotten_erase (u : Undefined) (key : PerflowKey) (id : BitVec 32) (raiseEvents : Bool)
    (c : Connection) : (gotten u key id raiseEvents c).erase = c.erase := by
  rw [gotten]
  split <;> rfl

section Marks

variable [Macros] {c : Connection} {pi : PacketInfo} {tr : Tracked} {m : BitVec 32}

theorem cxtUpdateClient_remark (hc : c.gotten ≠ 0) (hm : m ≠ 0) :
    cxtUpdateClient { c with gotten := m } pi = ({ c with gotten := m }, (cxtUpdateClient c pi).2) := by
  have hm' : ¬ ({ c with gotten := m } : Connection).gotten ≤ 0 := not_gotten_le hm
  rw [cxtUpdateClient, cxtUpdateClient, if_neg hm', if_neg (not_gotten_le hc)]

theorem cxtUpdateServer_remark (hc : c.gotten ≠ 0) (hm : m ≠ 0) :
    cxtUpdateServer { c with gotten := m } pi = ({ c with gotten := m }, (cxtUpdateServer c pi).2) := by
  have hm' : ¬ ({ c with gotten := m } : Connection).gotten ≤ 0 := not_gotten_le hm
  rw [cxtUpdateServer, cxtUpdateServer, if_neg hm', if_neg (not_gotten_le hc)]

/-- A packet belongs to a connection whatever the mark. -/
theorem isOf_eq : isOf pi c = match pi.af with
    | .inet => Macros.cmpCxt4 c.tuple pi.ipSrc.word0 pi.sPort pi.ipDst.word0 pi.dPort ||
        Macros.cmpCxt4 c.tuple pi.ipDst.word0 pi.dPort pi.ipSrc.word0 pi.sPort
    | .inet6 => Macros.cmpCxt6 c.tuple pi.ipSrc pi.sPort pi.ipDst pi.dPort ||
        Macros.cmpCxt6 c.tuple pi.ipDst pi.dPort pi.ipSrc pi.sPort := by
  rw [isOf, trackOne]
  cases pi.af with
  | inet => simp only []; split_ifs <;> simp [*]
  | inet6 => simp only []; split_ifs <;> simp [*]

theorem isOf_remark : isOf pi { c with gotten := m } = isOf pi c := by
  rw [isOf_eq, isOf_eq]
  rfl

theorem isOf_gotten {u : Undefined} {key : PerflowKey} {id : BitVec 32} {raiseEvents : Bool} :
    isOf pi (gotten u key id raiseEvents c) = isOf pi c := by
  rw [gotten]
  split
  · exact isOf_remark
  · rfl

/-- One mark is like another. -/
theorem trackOne_remark (h : trackOne c pi = some tr) (hc : c.gotten ≠ 0) (hm : m ≠ 0) :
    ∃ tr', trackOne { c with gotten := m } pi = some tr' ∧ tr'.cxt = { c with gotten := m } ∧
      tr'.dropFlag = tr.dropFlag ∧ tr'.result = tr.result := by
  have htuple : ({ c with gotten := m } : Connection).tuple = c.tuple := rfl
  rw [trackOne] at h ⊢
  simp only [cxtUpdateClient_remark hc hm, cxtUpdateServer_remark hc hm, htuple]
  cases haf : pi.af with
  | inet =>
      simp only [haf] at h ⊢
      split at h
      · rename_i hclient
        cases h
        exact ⟨_, if_pos hclient, rfl, rfl, rfl⟩
      · split at h
        · rename_i hclient hserver
          cases h
          exact ⟨_, (if_neg hclient).trans (if_pos hserver), rfl, rfl, rfl⟩
        · cases h
  | inet6 =>
      simp only [haf] at h ⊢
      split at h
      · rename_i hclient
        cases h
        exact ⟨_, if_pos hclient, rfl, rfl, rfl⟩
      · split at h
        · rename_i hclient hserver
          cases h
          exact ⟨_, (if_neg hclient).trans (if_pos hserver), rfl, rfl, rfl⟩
        · cases h

end Marks

/-! ## Evolution -/

section Evolution

variable [PacketPath]

/-- What of an instance is compared: its connections but for their marks, and its statistics. -/
structure Observed where
  bucket : Nat → List Connection
  cxtrackerid : BitVec 64
  prS : PradsStat PacketPath.counters

def Instance.observed (inst : Instance) : Observed :=
  ⟨fun h => (inst.tables.bucket h).map Connection.erase, inst.tables.cxtrackerid, inst.prS⟩

variable [Macros]

/-- Nothing that is compared differs between two instances, nor whether a packet is written, from now
until they have got the packets. -/
def Alike (u : Undefined) (stack : ProcessContext) : Instance → Instance → List (List (BitVec 8)) → Prop
  | a, b, [] => a.observed = b.observed
  | a, b, packet :: packets =>
      let a' := gotPacket u stack a packet
      let b' := gotPacket u stack b packet
      a.observed = b.observed ∧ a'.2.written = b'.2.written ∧ Alike u stack a'.1 b'.1 packets

theorem Alike.observed {u : Undefined} {stack : ProcessContext} {a b : Instance}
    {packets : List (List (BitVec 8))} (h : Alike u stack a b packets) : a.observed = b.observed := by
  cases packets with
  | nil => exact h
  | cons packet packets => exact h.1

theorem alike_refl {u : Undefined} {stack : ProcessContext} (packets : List (List (BitVec 8))) :
    ∀ a : Instance, Alike u stack a a packets := by
  induction packets with
  | nil => exact fun a => rfl
  | cons packet packets ih => exact fun a => ⟨rfl, rfl, ih _⟩

/-- An instance as packets come in. -/
def packetStep (u : Undefined) (stack : ProcessContext) (inst : Instance) (packet : List (BitVec 8)) :
    Option Instance :=
  some (gotPacket u stack inst packet).1

/-- The packet, if the instance processes it, is not about an unmarked connection that the key selects
and that was among the given number of connections at the end of its bucket. -/
def Avoids (u : Undefined) (stack : ProcessContext) (key : PerflowKey) (before : Nat → Nat)
    (inst : Instance) (packet : List (BitVec 8)) : Prop :=
  (sdmbnPreprocessPacket u inst.filters (inMemory packet) stack).2.1.stop = 0 →
    ∀ pi c, PacketPath.parse inst.rest packet = some pi → found inst.tables pi = some c →
      getSelects u key c = true → c.gotten = 0 → before (hash pi) ≤ (placeOf inst.tables pi).index

/-! ## Twins -/

/-- The second instance is the first but for the marks of the last connections of each bucket. -/
structure Twins (u : Undefined) (key : PerflowKey) (id : BitVec 32) (before : Nat → Nat)
    (a b : Instance) : Prop where
  bucket : ∀ h < Macros.bucketSize, ∃ new old, a.tables.bucket h = new ++ old ∧
    b.tables.bucket h = new ++ old.map (gotten u key id false) ∧ old.length = before h
  other : ∀ h, ¬ h < Macros.bucketSize → a.tables.bucket h = b.tables.bucket h
  cxtrackerid : a.tables.cxtrackerid = b.tables.cxtrackerid
  prS : a.prS = b.prS
  rest : a.rest = b.rest
  live : a.live = b.live
  filters : a.filters = b.filters

variable {u : Undefined} {stack : ProcessContext} {key : PerflowKey} {id : BitVec 32}
  {before : Nat → Nat} {a b : Instance} {packet : List (BitVec 8)}

theorem Twins.observed (h : Twins u key id before a b) : a.observed = b.observed := by
  have hbucket : (fun i => (a.tables.bucket i).map Connection.erase) =
      fun i => (b.tables.bucket i).map Connection.erase := by
    funext i
    by_cases hi : i < Macros.bucketSize
    · obtain ⟨new, old, ha, hb, -⟩ := h.bucket i hi
      have hmap : old.map Connection.erase = (old.map (gotten u key id false)).map Connection.erase := by
        rw [List.map_map]
        exact List.map_congr_left fun c _ => (gotten_erase u key id false c).symm
      rw [ha, hb, List.map_append, List.map_append, hmap]
    · rw [h.other i hi]
  rw [Instance.observed, Instance.observed, hbucket, h.cxtrackerid, h.prS]

/-- Twins with one bucket changed in the same way. -/
theorem Twins.leave (h : Twins u key id before a b) {ta tb : Tables} {i : Nat}
    (new old : List Connection) (hi : i < Macros.bucketSize) (hold : old.length = before i)
    (ha : ta.bucket = Function.update a.tables.bucket i (new ++ old))
    (hb : tb.bucket = Function.update b.tables.bucket i (new ++ old.map (gotten u key id false)))
    (hid : ta.cxtrackerid = tb.cxtrackerid) (path : Path PacketPath.counters PacketPath.Rest) :
    Twins u key id before (a.leave ta path) (b.leave tb path) where
  bucket j hj := by
    by_cases hji : j = i
    · subst hji
      exact ⟨new, old, by simp [Instance.leave, ha], by simp [Instance.leave, hb], hold⟩
    · obtain ⟨new, old, h₁, h₂, h₃⟩ := h.bucket j hj
      exact ⟨new, old, by simpa [Instance.leave, ha, Function.update_of_ne hji] using h₁,
        by simpa [Instance.leave, hb, Function.update_of_ne hji] using h₂, h₃⟩
  other j hj := by
    have hji : j ≠ i := fun he => hj (he ▸ hi)
    simpa [Instance.leave, ha, hb, Function.update_of_ne hji] using h.other j hj
  cxtrackerid := hid
  prS := by rw [Instance.leave, Instance.leave, h.prS]
  rest := rfl
  live := h.live
  filters := h.filters

/-! ## One packet -/

omit [PacketPath] in
/-- Where the connection of a packet is: among the new ones, among the others, or nowhere. -/
theorem split_cases (pi : PacketInfo) (new old : List Connection) :
    (∃ pre c post tr, new = pre ++ c :: post ∧ (∀ x ∈ pre, isOf pi x = false) ∧
      trackOne c pi = some tr) ∨
    (∃ pre c post tr, old = pre ++ c :: post ∧ (∀ x ∈ new ++ pre, isOf pi x = false) ∧
      trackOne c pi = some tr) ∨
    ∀ x ∈ new ++ old, isOf pi x = false := by
  rcases bucket_cases pi new with hnew | hnew
  · exact Or.inl hnew
  · rcases bucket_cases pi old with ⟨pre, c, post, tr, rfl, hpre, htr⟩ | hold
    · refine Or.inr (Or.inl ⟨pre, c, post, tr, rfl, fun x hx => ?_, htr⟩)
      exact (List.mem_append.mp hx).elim (hnew x) (hpre x)
    · exact Or.inr (Or.inr fun x hx => (List.mem_append.mp hx).elim (hnew x) (hold x))

omit [PacketPath] in
theorem forall_isOf_gotten (u : Undefined) (key : PerflowKey) (id : BitVec 32) {pi : PacketInfo}
    {new pre : List Connection}
    (h : ∀ x ∈ new ++ pre, isOf pi x = false) :
    ∀ x ∈ new ++ pre.map (gotten u key id false), isOf pi x = false := by
  intro x hx
  rcases List.mem_append.mp hx with hx | hx
  · exact h x (List.mem_append_left _ hx)
  · obtain ⟨y, hy, rfl⟩ := List.mem_map.mp hx
    rw [isOf_gotten]
    exact h y (List.mem_append_right _ hy)

omit [PacketPath] in
/-- What `cx_track` makes of a connection and of its twin, unless the mark decides. -/
theorem trackOne_gotten {c : Connection} {pi : PacketInfo} {tr : Tracked} (id : BitVec 32)
    (htr : trackOne c pi = some tr) (hc : getSelects u key c = true → c.gotten ≠ 0) :
    ∃ tr', trackOne (gotten u key id false c) pi = some tr' ∧
      tr'.cxt = gotten u key id false tr.cxt ∧ tr'.dropFlag = tr.dropFlag ∧ tr'.result = tr.result := by
  have hsame : getSelects u key tr.cxt = getSelects u key c := (trackOne_same htr).2.2 u key
  cases hs : getSelects u key c with
  | false =>
      rw [gotten, gotten, hsame, hs, if_neg (by decide), if_neg (by decide)]
      exact ⟨tr, htr, rfl, rfl, rfl⟩
  | true =>
      rw [gotten, gotten, hsame, hs, if_pos rfl, if_pos rfl, (trackOne_marked htr (hc hs)).2]
      exact trackOne_remark htr (hc hs) (mark_ne_zero id)

omit [PacketPath] [Macros] in
theorem gotten_updateAssets (c : Connection) (x y : Option Nat) :
    (gotten u key id false c).updateAssets x y = gotten u key id false (c.updateAssets x y) := by
  have hsame : getSelects u key (c.updateAssets x y) = getSelects u key c := rfl
  rw [gotten, gotten, hsame]
  split <;> rfl

/-- Twins stay twins. -/
theorem Twins.process (h : Twins u key id before a b)
    (hok : ∀ pi c, PacketPath.parse a.rest packet = some pi → found a.tables pi = some c →
      getSelects u key c = true → c.gotten = 0 → before (hash pi) ≤ (placeOf a.tables pi).index) :
    Twins u key id before (processPacket a packet).1 (processPacket b packet).1 ∧
      (processPacket a packet).2.1 = (processPacket b packet).2.1 := by
  cases hp : PacketPath.parse a.rest packet with
  | none =>
      rw [processPacket_of_unparsed hp, processPacket_of_unparsed (h.rest ▸ hp), h.rest]
      refine ⟨⟨h.bucket, h.other, h.cxtrackerid, ?_, rfl, h.live, h.filters⟩, rfl⟩
      rw [Instance.leave, Instance.leave, h.prS]
  | some pi =>
      obtain ⟨new, old, ha, hb, hold⟩ := h.bucket (hash pi) (hash_lt pi)
      have hpb : PacketPath.parse b.rest packet = some pi := h.rest ▸ hp
      rcases split_cases pi new old with ⟨pre, c, post, tr, rfl, hpre, htr⟩ |
        ⟨pre, c, post, tr, rfl, hpre, htr⟩ | hnone
      · -- The connection is new: it is the same in both.
        rw [List.append_assoc, List.cons_append] at ha hb
        rw [processPacket_of_some hp ha hpre htr, processPacket_of_some hpb hb hpre htr, h.rest]
        generalize PacketPath.process b.rest packet (some (tr.cxt.erase, tr.result)) = path
        refine ⟨h.leave (pre ++ tr.cxt.updateAssets path.cAsset path.sAsset :: post) old (hash_lt pi) hold
          ?_ ?_ ?_ path, rfl⟩
        · rw [List.append_assoc, List.cons_append]
        · rw [List.append_assoc, List.cons_append]
        · exact h.cxtrackerid
      · -- The connection was there: it is not marked, or has been before.
        rw [← List.append_assoc] at ha
        rw [List.map_append, List.map_cons, ← List.append_assoc] at hb
        have hc : getSelects u key c = true → c.gotten ≠ 0 := by
          intro hs hz
          have hle := hok pi c hp (found_of_some ha hpre htr) hs hz
          rw [placeOf_of_some ha hpre htr, ← hold, List.length_append, List.length_cons] at hle
          simp only at hle
          omega
        obtain ⟨tr', htr', hcxt, hdrop, hres⟩ := trackOne_gotten id htr hc
        have herase : tr'.cxt.erase = tr.cxt.erase := by rw [hcxt, gotten_erase]
        rw [processPacket_of_some hp ha hpre htr,
          processPacket_of_some hpb hb (forall_isOf_gotten u key id hpre) htr', h.rest, herase, hres]
        generalize PacketPath.process b.rest packet (some (tr.cxt.erase, tr.result)) = path
        refine ⟨h.leave new (pre ++ tr.cxt.updateAssets path.cAsset path.sAsset :: post) (hash_lt pi)
          ?_ ?_ ?_ ?_ path, hdrop.symm⟩
        · rw [← hold]
          simp
        · rw [List.append_assoc]
        · rw [List.map_append, List.map_cons, ← List.append_assoc, hcxt, gotten_updateAssets]
        · exact h.cxtrackerid
      · -- The connection is created.
        have hnb := forall_isOf_gotten u key id hnone
        rw [processPacket_of_new hp (ha ▸ hnone), processPacket_of_new hpb (hb ▸ hnb), h.rest,
          h.cxtrackerid, ha, hb]
        dsimp only
        generalize PacketPath.process b.rest packet
          (some ((cxtNew (b.tables.cxtrackerid + 1) pi).erase, .client)) = path
        refine ⟨h.leave ((cxtNew (b.tables.cxtrackerid + 1) pi).updateAssets path.cAsset path.sAsset :: new)
          old (hash_lt pi) hold ?_ ?_ ?_ path, rfl⟩ <;> rfl

/-- A packet of a connection that only the get has marked is counted in one of the twins. -/
theorem Twins.disturbed (h : Twins u key id before a b) {pi : PacketInfo} {c : Connection}
    (hp : PacketPath.parse a.rest packet = some pi) (hf : found a.tables pi = some c)
    (hs : getSelects u key c = true) (hc : c.gotten = 0)
    (hlt : (placeOf a.tables pi).index < before (hash pi)) :
    (processPacket a packet).1.observed ≠ (processPacket b packet).1.observed := by
  obtain ⟨new, old, ha, hb, hold⟩ := h.bucket (hash pi) (hash_lt pi)
  have hpb : PacketPath.parse b.rest packet = some pi := h.rest ▸ hp
  rcases split_cases pi new old with ⟨pre, c', post, tr, rfl, hpre, htr⟩ |
    ⟨pre, c', post, tr, rfl, hpre, htr⟩ | hnone
  · rw [List.append_assoc, List.cons_append] at ha
    rw [placeOf_of_some ha hpre htr, List.length_append] at hlt
    simp only at hlt
    omega
  · rw [← List.append_assoc] at ha
    rw [List.map_append, List.map_cons, ← List.append_assoc] at hb
    obtain rfl := Option.some.inj ((found_of_some ha hpre htr).symm.trans hf)
    -- The twin is marked and stays as it is.
    obtain ⟨tr', htr'⟩ : ∃ tr', trackOne (gotten u key id false c') pi = some tr' := by
      have hof : isOf pi (gotten u key id false c') = true := by
        rw [isOf_gotten, isOf, htr]
        rfl
      exact Option.isSome_iff_exists.mp hof
    have hmarked : (gotten u key id false c').gotten ≠ 0 := by
      rw [gotten, if_pos hs]
      exact mark_ne_zero id
    rw [processPacket_of_some hp ha hpre htr,
      processPacket_of_some hpb hb (forall_isOf_gotten u key id hpre) htr']
    intro he
    have hbucket := congrFun (congrArg Observed.bucket he) (hash pi)
    simp only [Instance.observed, Instance.leave, Function.update_self, List.map_append,
      List.map_cons] at hbucket
    have hlen : (new.map Connection.erase ++ pre.map Connection.erase).length =
        (new.map Connection.erase ++
          (pre.map (gotten u key id false)).map Connection.erase).length := by simp
    have heq := congrArg counted (List.cons.inj (List.append_inj hbucket hlen).2).1
    have hb' : counted tr'.cxt = counted c' := by
      rw [(trackOne_marked htr' hmarked).2, gotten]
      split <;> rfl
    have ha' : counted tr.cxt = counted c' + 1 := counted_of_unmarked htr hc
    exact counted_ne_succ c' (hb'.symm.trans (heq.symm.trans ha'))
  · rw [found_of_none (ha ▸ hnone)] at hf
    cases hf

/-! ## Any number of packets -/

/-- The library is the same in both. -/
theorem Twins.gotPacket (h : Twins u key id before a b) (hok : Avoids u stack key before a packet) :
    Twins u key id before (gotPacket u stack a packet).1 (gotPacket u stack b packet).1 ∧
      (gotPacket u stack a packet).2.written = (gotPacket u stack b packet).2.written := by
  have hpre : preprocessed u stack a packet = preprocessed u stack b packet := by
    rw [preprocessed, preprocessed, h.filters]
  by_cases hs : (preprocessed u stack a packet).2.1.stop = 0
  · have hfil : Twins u key id before { a with filters := (preprocessed u stack a packet).1 }
        { b with filters := (preprocessed u stack b packet).1 } :=
      ⟨h.bucket, h.other, h.cxtrackerid, h.prS, h.rest, h.live, by rw [hpre]⟩
    obtain ⟨htwins, hdrop⟩ := hfil.process (hok hs)
    rw [gotPacket_of_go hs, gotPacket_of_go (hpre ▸ hs)]
    exact ⟨htwins, by dsimp only; rw [htwins.live, hdrop]⟩
  · rw [gotPacket_of_stop hs, gotPacket_of_stop (hpre ▸ hs)]
    exact ⟨⟨h.bucket, h.other, h.cxtrackerid, h.prS, h.rest, h.live, by rw [hpre]⟩, rfl⟩

theorem Twins.gotPacket_disturbed (h : Twins u key id before a b)
    (hno : ¬ Avoids u stack key before a packet) :
    (Prads.gotPacket u stack a packet).1.observed ≠ (Prads.gotPacket u stack b packet).1.observed := by
  have hpre : preprocessed u stack a packet = preprocessed u stack b packet := by
    rw [preprocessed, preprocessed, h.filters]
  simp only [Avoids, not_forall, Nat.not_le] at hno
  obtain ⟨hs, pi, c, hp, hf, hsel, hc, hlt⟩ := hno
  have hs' : (preprocessed u stack a packet).2.1.stop = 0 := hs
  have hfil : Twins u key id before { a with filters := (preprocessed u stack a packet).1 }
      { b with filters := (preprocessed u stack b packet).1 } :=
    ⟨h.bucket, h.other, h.cxtrackerid, h.prS, h.rest, h.live, by rw [hpre]⟩
  rw [gotPacket_of_go hs', gotPacket_of_go (hpre ▸ hs')]
  exact hfil.disturbed hp hf hsel hc hlt

/-- Twins evolve alike as long as no packet is about a connection that only the get has marked. -/
theorem Twins.alike_iff (packets : List (List (BitVec 8))) :
    ∀ {a b : Instance}, Twins u key id before a b →
      (Alike u stack a b packets ↔ Along (packetStep u stack) (Avoids u stack key before) a packets) := by
  induction packets with
  | nil => exact fun h => ⟨fun _ => along_nil, fun _ => h.observed⟩
  | cons packet packets ih =>
      intro a b h
      rw [along_cons]
      by_cases hok : Avoids u stack key before a packet
      · obtain ⟨htwins, hwritten⟩ := h.gotPacket hok
        constructor
        · rintro ⟨-, -, halike⟩
          refine ⟨hok, fun t ht => ?_⟩
          cases ht
          exact (ih htwins).mp halike
        · rintro ⟨-, halong⟩
          exact ⟨h.observed, hwritten, (ih htwins).mpr (halong _ rfl)⟩
      · constructor
        · rintro ⟨-, -, halike⟩
          exact absurd halike.observed (h.gotPacket_disturbed hok)
        · exact fun hand => absurd hand.1 hok

/-! ## Copies -/

variable [Serializer] {scope : Scope} {inst inst' : Instance}

omit [Serializer] in
/-- A get makes a twin of an instance. -/
theorem twins_gotten (inst : Instance) : Twins u key id (fun h => (inst.tables.bucket h).length) inst
    { inst with tables := inst.tables.gotten u key id false (List.range Macros.bucketSize) } where
  bucket h hh := ⟨[], inst.tables.bucket h, rfl, by simp [Tables.gotten, hh], rfl⟩
  other h hh := by simp [Tables.gotten, hh]
  cxtrackerid := rfl
  prS := rfl
  rest := rfl
  live := rfl
  filters := rfl

/-- The statistics are 0 if the copy flushes them, and no later packet is about a connection that only
the copy has marked. -/
def LeavesAlone (u : Undefined) (stack : ProcessContext) (key : PerflowKey) (scope : Scope)
    (inst : Instance) (packets : List (List (BitVec 8))) : Prop :=
  (StateClass.allflows ∈ scope.classes → inst.prS = fun _ => 0) ∧
    (StateClass.perflow ∈ scope.classes → Along (packetStep u stack)
      (Avoids u stack key fun h => (inst.tables.bucket h).length) inst packets)

theorem alike_iff_leavesAlone (h : serveCopy u key id scope inst = .ok inst')
    (packets : List (List (BitVec 8))) :
    Alike u stack inst inst' packets ↔ LeavesAlone u stack key scope inst packets := by
  obtain rfl := serveCopy_ok h
  by_cases hstat : StateClass.allflows ∈ scope.classes → inst.prS = fun _ => 0
  · -- Nothing has been flushed.
    have hprS : (if StateClass.allflows ∈ scope.classes then fun _ => 0 else inst.prS) = inst.prS := by
      split
      · rename_i ha
        exact (hstat ha).symm
      · rfl
    rw [LeavesAlone, hprS, and_iff_right hstat]
    by_cases hp : StateClass.perflow ∈ scope.classes
    · rw [if_pos hp, (twins_gotten inst).alike_iff packets, forall_prop_of_true hp]
    · rw [if_neg hp]
      exact ⟨fun _ hp' => absurd hp' hp, fun _ => alike_refl packets inst⟩
  · constructor
    · intro halike
      refine absurd (fun ha => ?_) hstat
      have hobserved := congrArg Observed.prS halike.observed
      simpa [Instance.observed, ha] using hobserved
    · exact fun halone => absurd halone.1 hstat

end Evolution

/-! ## Samples -/

/-- An instance that has got one packet. -/
@[reducible] def sampleInstance : letI := plainPath; Instance :=
  letI := plainMacros
  letI := plainPath
  (gotPacket (.const .zero 0) cleanStack startedInstance sampleFrame).1

theorem alike_iff_leavesAlone_sample :
    letI := plainMacros; letI := plainSerializer; letI := plainPath
    ∃ inst', serveCopy (.const .zero 0) anyKey 7 .perflow sampleInstance = .ok inst' ∧
      (Alike (.const .zero 0) cleanStack sampleInstance inst' [sampleFrame] ↔
        LeavesAlone (.const .zero 0) cleanStack anyKey .perflow sampleInstance [sampleFrame]) := by
  let _ := plainMacros
  let _ := plainSerializer
  let _ := plainPath
  exact ⟨_, rfl, alike_iff_leavesAlone rfl _⟩

/-- The second packet of a connection is not counted any more. -/
theorem not_alike_marked : letI := plainMacros; letI := plainSerializer; letI := plainPath
    ∃ inst', serveCopy (.const .zero 0) anyKey 7 .perflow sampleInstance = .ok inst' ∧
      ¬ Alike (.const .zero 0) cleanStack sampleInstance inst' [sampleFrame] := by
  let _ := plainMacros
  let _ := plainSerializer
  let _ := plainPath
  refine ⟨_, rfl, fun halike => ?_⟩
  -- One of the two has written the packet.
  exact absurd halike.2.1 (by decide)

end OFM.Prads
