import OFM.Lib.Computations
import OFM.Prads.Instance
import OFM.Prads.Lemmas.Track

/-!
# What the packet path does

`processPacket` by cases, as `cx_track` has them.
-/

namespace OFM.Prads
open OFM.Lib OFM.Shared

variable [Macros] [PacketPath] {inst : Instance} {packet : List (BitVec 8)} {pi : PacketInfo}
  {c : Connection} {tr : Tracked} {pre post : List Connection}

theorem cxtIndex_of_some (hb : inst.tables.bucket (hash pi) = pre ++ c :: post)
    (hpre : ∀ x ∈ pre, isOf pi x = false) (htr : trackOne c pi = some tr) :
    cxtIndex inst.tables pi = pre.length := by
  have hnone : pre.findIdx? (fun x => (trackOne x pi).isSome) = none :=
    List.findIdx?_eq_none_iff.mpr fun x hx => by simpa [isOf] using hpre x hx
  rw [cxtIndex, hb, List.findIdx?_append, hnone]
  simp [List.findIdx?_cons, htr]

theorem cxtIndex_of_none (h : ∀ x ∈ inst.tables.bucket (hash pi), isOf pi x = false) :
    cxtIndex inst.tables pi = 0 := by
  have hnone : (inst.tables.bucket (hash pi)).findIdx? (fun x => (trackOne x pi).isSome) = none :=
    List.findIdx?_eq_none_iff.mpr fun x hx => by simpa [isOf] using h x hx
  rw [cxtIndex, hnone]
  rfl

/-- An instance with its table, its statistics and the rest as a packet leaves them. -/
def Instance.leave (inst : Instance) (tables : Tables) (path : Path PacketPath.counters PacketPath.Rest) :
    Instance :=
  { inst with
    tables := tables
    prS := (inst.prS.count [PacketPath.gotPackets]).count path.counted
    rest := path.rest }

theorem processPacket_of_unparsed (h : PacketPath.parse inst.rest packet = none) :
    processPacket inst packet =
      (inst.leave inst.tables (PacketPath.process inst.rest packet none), false, []) := by
  simp only [processPacket, h]
  rfl

/-- The path of a packet whose connection has been found. -/
theorem processPacket_of_some (h : PacketPath.parse inst.rest packet = some pi)
    (hb : inst.tables.bucket (hash pi) = pre ++ c :: post)
    (hpre : ∀ x ∈ pre, isOf pi x = false) (htr : trackOne c pi = some tr) :
    processPacket inst packet =
      let path := PacketPath.process inst.rest packet (some (tr.cxt.erase, tr.result))
      (inst.leave { inst.tables with
          bucket := Function.update inst.tables.bucket (hash pi)
            (pre ++ tr.cxt.updateAssets path.cAsset path.sAsset :: post)
          dropCounter := inst.tables.dropCounter + tr.drops } path, tr.dropFlag, tr.events) := by
  simp only [processPacket, h, cxtIndex_of_some hb hpre htr, cxTrack_of_some hb hpre htr,
    Function.update_self, Function.update_idem]
  have hget : (pre ++ tr.cxt :: post)[pre.length]? = some tr.cxt := by simp
  have hset : ∀ f : Connection → Connection, (pre ++ tr.cxt :: post).modify pre.length f =
      pre ++ f tr.cxt :: post := fun f => by
    rw [List.modify_eq_set_getElem?]
    simp
  rw [hget, hset]
  rfl

/-- The path of the first packet of a connection. -/
theorem processPacket_of_new (h : PacketPath.parse inst.rest packet = some pi)
    (hnone : ∀ x ∈ inst.tables.bucket (hash pi), isOf pi x = false) :
    processPacket inst packet =
      let cxt := cxtNew (inst.tables.cxtrackerid + 1) pi
      let path := PacketPath.process inst.rest packet (some (cxt.erase, .client))
      (inst.leave { inst.tables with
          bucket := Function.update inst.tables.bucket (hash pi)
            (cxt.updateAssets path.cAsset path.sAsset :: inst.tables.bucket (hash pi))
          cxtrackerid := inst.tables.cxtrackerid + 1 } path, false, []) := by
  simp only [processPacket, h, cxtIndex_of_none hnone, cxTrack_of_none hnone,
    Function.update_self, Function.update_idem]
  rfl

/-! ## With the library around it -/

variable {u : Undefined} {stack : ProcessContext}

/-- What `sdmbn_preprocess_packet` makes of a packet. -/
def preprocessed (u : Undefined) (stack : ProcessContext) (inst : Instance) (packet : List (BitVec 8)) :
    List EventFilter × ProcessContext × List Raised :=
  sdmbnPreprocessPacket u inst.filters (inMemory packet) stack

theorem gotPacket_of_stop (h : (preprocessed u stack inst packet).2.1.stop ≠ 0) :
    gotPacket u stack inst packet =
      ({ inst with filters := (preprocessed u stack inst packet).1 },
        ⟨false, [], (preprocessed u stack inst packet).2.2⟩) := by
  rw [preprocessed] at h
  simp only [gotPacket, preprocessed, ne_eq, h, not_false_iff, if_true]

theorem gotPacket_of_go (h : (preprocessed u stack inst packet).2.1.stop = 0) :
    gotPacket u stack inst packet =
      let done := processPacket { inst with filters := (preprocessed u stack inst packet).1 } packet
      (done.1, ⟨done.1.live && !done.2.1, done.2.2, (preprocessed u stack inst packet).2.2 ++
        sdmbnPostprocessPacket (inMemory packet) (preprocessed u stack inst packet).2.1⟩) := by
  rw [preprocessed] at h
  simp only [gotPacket, preprocessed, ne_eq, h, not_true, if_false]

/-! ## Gets -/

omit [Macros] [PacketPath] in
theorem bytes_length {counters : Nat} (stat : PradsStat counters) : stat.bytes.length = 4 * counters := by
  have hword : ∀ words : List (BitVec 32), (words.flatMap wordBytes).length = 4 * words.length := by
    intro words
    induction words with
    | nil => rfl
    | cons word words ih =>
        rw [List.flatMap_cons, List.length_append, ih, List.length_cons]
        simp only [wordBytes, List.length_cons, List.length_nil]
        omega
  rw [PradsStat.bytes, hword, List.length_ofFn]

omit [Macros] in
/-- There always is a text for the statistics. -/
theorem localGetAllflows_eq : localGetAllflows inst =
    ({ inst with prS := fun _ => 0 }, some (encodeBytes inst.prS.bytes)) := by
  have hpos : 0 < PacketPath.counters := Nat.lt_of_le_of_lt (Nat.zero_le _) PacketPath.gotPackets.isLt
  have hlen : ¬ inst.prS.bytes.length < 1 := by
    rw [bytes_length]
    omega
  have hlt : ¬ 2 ^ 31 ≤ inst.prS.bytes.length * 2 + 1 := by
    have hcounters := PacketPath.counters_lt
    rw [bytes_length]
    omega
  rw [localGetAllflows, sdmbnBase64Encode, if_neg hlen, if_neg hlt]

open OFM.Controller (Scope StateClass) in
/-- What the gets of a copy leave, if they return. -/
theorem serveCopy_ok [Serializer] {key : PerflowKey} {id : BitVec 32} {scope : Scope} {inst' : Instance}
    (h : serveCopy u key id scope inst = .ok inst') :
    inst' = { inst with
      tables := if StateClass.perflow ∈ scope.classes
        then inst.tables.gotten u key id false (List.range Macros.bucketSize) else inst.tables
      prS := if StateClass.allflows ∈ scope.classes then fun _ => 0 else inst.prS } := by
  rw [serveCopy] at h
  obtain ⟨inst₁, h₁, h⟩ := bind_eq_ok.mp h
  obtain ⟨-, -, h⟩ := bind_eq_ok.mp h
  cases h
  have htables : inst₁ = { inst with
      tables := if StateClass.perflow ∈ scope.classes
        then inst.tables.gotten u key id false (List.range Macros.bucketSize) else inst.tables } := by
    rw [servePerflow] at h₁
    split_ifs at h₁ ⊢
    · obtain ⟨⟨tables, sent⟩, hget, h₁⟩ := bind_eq_ok.mp h₁
      cases h₁
      rw [getBuckets_ok List.nodup_range hget]
    · cases h₁
      rfl
  rw [localGetAllflows_eq, htables]
  split <;> rfl

end OFM.Prads
