import OFM.Shared.PacketPath
import OFM.Shared.Theorems.Filters

/-!
# What filters do with packets

Which ids reach the controller with the report of a packet, and which packets a filter stops.
-/

namespace OFM.Shared
open OFM.Lib
open OFM.Controller (EventAction)

/-! ## Ids -/

section Ids

variable {id : BitVec 32}

/-- What is left of an id in a `char`. -/
theorem toInt_char : (id.setWidth 8).toInt = id.toInt.bmod 256 := by
  rw [BitVec.toInt_setWidth, BitVec.toInt_eq_toNat_bmod, Int.bmod_bmod_of_dvd (by decide)]

/-- A `char` holds the ids up to 127 and no others. -/
theorem char_eq_iff (hpos : 0 < id.toInt) :
    0 < (id.setWidth 8).toInt ∧ (id.setWidth 8).signExtend 32 = id ↔ id.toInt ≤ 127 := by
  have hwide : ((id.setWidth 8).signExtend 32).toInt = (id.setWidth 8).toInt :=
    BitVec.toInt_signExtend_of_le (by decide)
  constructor
  · rintro ⟨-, he⟩
    have hlt := @BitVec.toInt_lt 8 (id.setWidth 8)
    rw [← hwide, he] at hlt
    omega
  · intro hle
    have hkeep : (id.setWidth 8).toInt = id.toInt := by
      rw [toInt_char]
      exact Int.bmod_eq_of_le (by omega) (by omega)
    refine ⟨hkeep ▸ hpos, BitVec.eq_of_toInt_eq ?_⟩
    rw [hwide, hkeep]

end Ids

section Path

variable {u : Undefined} {filters : List EventFilter} {filter : EventFilter} {pkt : Memory}
  {context : ProcessContext}

/-- What is reported of a packet that the filter lets pass. -/
theorem raisedFor_passes (hm : matchesFilter u filters pkt = some filter)
    (hp : passes filter.action pkt = true) : raisedFor u filters pkt context =
      if 0 < (filter.id.setWidth 8).toInt then [⟨(filter.id.setWidth 8).signExtend 32, -1, pkt⟩] else [] := by
  rw [raisedFor, preprocess_passes hm hp]
  simp [sdmbnPostprocessPacket]

/-- One report, with the id of the filter. -/
def RaisedOnce (filter : EventFilter) (raised : List Raised) : Prop :=
  ∃ event, raised = [event] ∧ event.id = filter.id

/-- A packet that is processed is reported once, under the id of its filter, if and only if the id is
at most 127. -/
theorem raisedOnce_iff (hm : matchesFilter u filters pkt = some filter)
    (hp : passes filter.action pkt = true) (hpos : 0 < filter.id.toInt) :
    RaisedOnce filter (raisedFor u filters pkt context) ↔ filter.id.toInt ≤ 127 := by
  rw [raisedFor_passes hm hp, ← char_eq_iff hpos]
  by_cases hchar : 0 < (filter.id.setWidth 8).toInt
  · rw [if_pos hchar, and_iff_right hchar]
    simp [RaisedOnce]
  · rw [if_neg hchar]
    constructor
    · rintro ⟨event, he, -⟩
      cases he
    · rintro ⟨h, -⟩
      exact absurd h hchar

end Path

/-- Everything matches a filter without fields. -/
def anyFilter (action : EventAction) (id : BitVec 32) : EventFilter :=
  ⟨{ PerflowKey.zero with wildcards := wildcardAll }, action, id, []⟩

theorem matchesKey_any (u : Undefined) (action : EventAction) (id : BitVec 32) (pkt : Memory) :
    matchesKey u (anyFilter action id).key (buildPacketKey pkt u.pKey) = true := by
  have hwild : ∀ wildcard, wildcardAll &&& wildcard = wildcard := by decide
  simp only [matchesKey, anyFilter, hwild, continue_iff]
  simp [wildcardDlType, wildcardNwSrc, wildcardNwDst, wildcardNwProto, wildcardTpSrc, wildcardTpDst]

theorem matchesFilter_any (u : Undefined) (action : EventAction) (id : BitVec 32) (pkt : Memory) :
    matchesFilter u [anyFilter action id] pkt = some (anyFilter action id) := by
  rw [matchesFilter_cons, if_pos (matchesKey_any u action id pkt)]

theorem raisedOnce_iff_five :
    RaisedOnce (anyFilter .process 5)
      (raisedFor (.const .zero 0) [anyFilter .process 5] (fun _ => 0) ⟨0, 0, 0⟩) ↔ (5 : BitVec 32).toInt ≤ 127 :=
  raisedOnce_iff (matchesFilter_any _ _ _ _) rfl (by decide)

/-- The id 200 arrives as no id at all. -/
theorem not_raisedOnce_twoHundred :
    ¬ RaisedOnce (anyFilter .process 200)
      (raisedFor (.const .zero 0) [anyFilter .process 200] (fun _ => 0) ⟨0, 0, 0⟩) := by
  rw [raisedFor_passes (matchesFilter_any _ _ _ _) rfl]
  rintro ⟨event, he, -⟩
  simp [anyFilter] at he

/-! ## Packets that are stopped -/

/-- A packet is stopped: a filter that drops reports it once, one that buffers keeps it once. -/
def Stopped (filters : List EventFilter) (filter : EventFilter) (pkt : Memory)
    (result : List EventFilter × ProcessContext × List Raised) : Prop :=
  result.2.1.stop ≠ 0 ∧
    match filter.action with
    | .drop => result.1 = filters ∧ result.2.2 = [⟨filter.id, -1, pkt⟩]
    | .buffer => Queued filters filter pkt result.1 ∧ result.2.2 = []
    | .process => False

/-- The bit of the ToS byte that a filter asks for. -/
def mark : EventAction → BitVec 8
  | .buffer => packetFlagDoNotBuffer
  | .drop => packetFlagDoNotDrop
  | .process => 0

section Stops

variable {u : Undefined} {filters : List EventFilter} {filter : EventFilter} {pkt : Memory}
  {context : ProcessContext}

theorem passes_iff (hip : be16 pkt 12 = ethertypeIp) (ha : filter.action ≠ .process) :
    passes filter.action pkt = true ↔ pkt 15 &&& mark filter.action ≠ 0 := by
  have hflag : ∀ flag, isPacketFlagSet pkt flag = true ↔ pkt 15 &&& flag ≠ 0 := by
    intro flag
    rw [isPacketFlagSet, swap16_le16, if_pos hip, decide_eq_true_iff]
    rfl
  cases h : filter.action with
  | buffer => exact hflag _
  | drop => exact hflag _
  | process => exact absurd h ha

/-- A filter that drops or buffers stops an IPv4 packet, whoever has sent it, if and only if the bit of
its action is clear in the ToS byte and, for a buffer, the packet does not come from one. -/
theorem stopped_iff (hm : matchesFilter u filters pkt = some filter) (ha : filter.action ≠ .process)
    (hip : be16 pkt 12 = ethertypeIp) :
    Stopped filters filter pkt (sdmbnPreprocessPacket u filters pkt context) ↔
      pkt 15 &&& mark filter.action = 0 ∧ (filter.action = .buffer → context.injected = 0) := by
  have hmark := passes_iff hip ha
  have hone : (1 : BitVec 8) ≠ 0 := by decide
  cases hp : passes filter.action pkt with
  | true =>
      rw [preprocess_passes hm hp]
      have hset := hmark.mp hp
      constructor
      · rintro ⟨hstop, -⟩
        exact absurd rfl hstop
      · rintro ⟨hclear, -⟩
        exact absurd hclear hset
  | false =>
      have hclear : pkt 15 &&& mark filter.action = 0 := by
        by_contra hset
        rw [hmark.mpr hset] at hp
        cases hp
      cases h : filter.action with
      | buffer =>
          by_cases hi : context.injected = 0
          · rw [preprocess_buffer hm h hp hi]
            rw [h] at hclear
            have hstopped : Stopped filters filter pkt
                (bufferPacket u filters pkt, { context with stop := 1, event := -1 }, []) := by
              rw [Stopped, h]
              exact ⟨hone, queued_bufferPacket hm, rfl⟩
            exact iff_of_true hstopped ⟨hclear, fun _ => hi⟩
          · rw [preprocess_injected hm h hp hi]
            constructor
            · rintro ⟨hstop, -⟩
              exact absurd rfl hstop
            · rintro ⟨-, hinjected⟩
              exact absurd (hinjected rfl) hi
      | drop =>
          rw [preprocess_drop hm h hp]
          rw [h] at hclear
          have hstopped : Stopped filters filter pkt
              (filters, { context with stop := 1, event := -1 }, [⟨filter.id, -1, pkt⟩]) := by
            rw [Stopped, h]
            exact ⟨hone, rfl, rfl⟩
          exact iff_of_true hstopped ⟨hclear, fun hb => nomatch hb⟩
      | process => exact absurd h ha

end Stops

/-- An IPv4 packet with a ToS byte that its sender chose. -/
def tosPacket (tos : BitVec 8) : Memory :=
  fun i => if i = 12 then 0x08 else if i = 14 then 0x45 else if i = 15 then tos else 0

theorem stopped_iff_plain :
    Stopped [anyFilter .drop 1] (anyFilter .drop 1) (tosPacket 0)
        (sdmbnPreprocessPacket (.const .zero 0) [anyFilter .drop 1] (tosPacket 0) ⟨0, 0, 0⟩) ↔
      tosPacket 0 15 &&& mark (anyFilter .drop 1).action = 0 ∧
        ((anyFilter .drop 1).action = .buffer → (0 : BitVec 8) = 0) :=
  stopped_iff (matchesFilter_any _ _ _ _) (by decide) (by decide)

/-- A packet from the network that asks for low delay and high throughput goes past a filter that drops. -/
theorem not_stopped_throughput :
    ¬ Stopped [anyFilter .drop 1] (anyFilter .drop 1) (tosPacket 0x18)
      (sdmbnPreprocessPacket (.const .zero 0) [anyFilter .drop 1] (tosPacket 0x18) ⟨0, 0, 0⟩) := by
  have hp : passes (anyFilter .drop 1).action (tosPacket 0x18) = true := by decide
  rw [preprocess_passes (matchesFilter_any _ _ _ _) hp]
  rintro ⟨hstop, -⟩
  exact absurd rfl hstop

end OFM.Shared
