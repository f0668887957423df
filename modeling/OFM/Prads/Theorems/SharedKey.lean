import OFM.Controller.PacketMatch
import OFM.Prads.Theorems.Selection
import OFM.Shared.Theorems.KeyRelay

/-!
# The key of a share

A share gets the state that a packet has changed with the key it makes of this packet. When PRADS finds
the packet's connection with it, and nothing else.
-/

namespace OFM.Prads
open OFM.Lib OFM.Shared
open OFM.Controller (Packet JavaException OFMatch IPv4.fromIPv4Address ByteBuffer.word ByteBuffer.get
  ByteBuffer.seek)

/-! ## Packets and their connections -/

/-- Who sends to whom, in host order. -/
structure PacketTuple where
  src : BitVec 32
  dst : BitVec 32
  proto : BitVec 8
  srcPort : BitVec 16
  dstPort : BitVec 16
  deriving DecidableEq

def PacketTuple.reverse (t : PacketTuple) : PacketTuple := ⟨t.dst, t.src, t.proto, t.dstPort, t.srcPort⟩

/-- An IPv4 packet of TCP or UDP behind the Ethernet header, from a position on. -/
structure CarriesAt (packet : Packet) (position : Nat) (t : PacketTuple) : Prop where
  proto : t.proto = 6 ∨ t.proto = 17
  options : 5 ≤ (0xf &&& ByteBuffer.word 1 packet position).toNat
  length : position + (0xf &&& ByteBuffer.word 1 packet position).toNat * 4 + 4 ≤ packet.length
  proto_eq : ByteBuffer.word 1 packet (position + 9) = t.proto
  src_eq : ByteBuffer.word 4 packet (position + 12) = t.src
  dst_eq : ByteBuffer.word 4 packet (position + 16) = t.dst
  srcPort_eq : ByteBuffer.word 2 packet
    (position + (0xf &&& ByteBuffer.word 1 packet position).toNat * 4) = t.srcPort
  dstPort_eq : ByteBuffer.word 2 packet
    (position + (0xf &&& ByteBuffer.word 1 packet position).toNat * 4 + 2) = t.dstPort

/-- A frame with such a packet, which may have a VLAN tag. -/
def Carries (packet : Packet) (t : PacketTuple) : Prop :=
  (ByteBuffer.word 2 packet 12 = 0x0800 ∧ CarriesAt packet 14 t) ∨
    (ByteBuffer.word 2 packet 12 = 0x8100 ∧ ByteBuffer.word 2 packet 16 = 0x0800 ∧
      CarriesAt packet 18 t)

/-- The connection is the packet's, and the packet goes from its client to its server. -/
structure Connection.Sends (c : Connection) (t : PacketTuple) : Prop where
  hwProto : swap16 c.hwProto = 0x0800
  proto : c.proto = t.proto
  src : swap32 c.sIp.word0 = t.src
  dst : swap32 c.dIp.word0 = t.dst
  srcPort : swap16 c.sPort = t.srcPort
  dstPort : swap16 c.dPort = t.dstPort

/-- The connection is the packet's, in either direction. -/
def Connection.Of (c : Connection) (t : PacketTuple) : Prop := c.Sends t ∨ c.Sends t.reverse

instance (c : Connection) (t : PacketTuple) : Decidable (c.Sends t) :=
  decidable_of_iff (swap16 c.hwProto = 0x0800 ∧ c.proto = t.proto ∧ swap32 c.sIp.word0 = t.src ∧
      swap32 c.dIp.word0 = t.dst ∧ swap16 c.sPort = t.srcPort ∧ swap16 c.dPort = t.dstPort)
    ⟨fun ⟨h₁, h₂, h₃, h₄, h₅, h₆⟩ => ⟨h₁, h₂, h₃, h₄, h₅, h₆⟩,
      fun ⟨h₁, h₂, h₃, h₄, h₅, h₆⟩ => ⟨h₁, h₂, h₃, h₄, h₅, h₆⟩⟩

instance (c : Connection) (t : PacketTuple) : Decidable (c.Of t) := inferInstanceAs (Decidable (_ ∨ _))

/-! ## The key of a packet -/

/-- The key that `receiveReprocess` makes of a packet. -/
def sharedKey (packet : Packet) : Except JavaException Controller.PerflowKey := do
  let fields ← OFMatch.loadFromPacket packet 1
  pure (.fromOFMatch fields)

/-- The fields that are matched on, an address only if it is positive as a signed number. -/
def keyOf (t : PacketTuple) : Controller.PerflowKey where
  nwSrc := if 0 < t.src.toInt then some (IPv4.fromIPv4Address t.src) else none
  nwDst := if 0 < t.dst.toInt then some (IPv4.fromIPv4Address t.dst) else none
  nwSrcMask := none
  nwDstMask := none
  tpSrc := some t.srcPort.toInt
  tpDst := some t.dstPort.toInt
  tpFlip := 0
  dlType := some 0x0800
  nwProto := some t.proto.toInt

section Load

variable {packet : Packet} {position : Nat} {t : PacketTuple}

theorem get_ok {bytes : Nat} (h : position + bytes ≤ packet.length) :
    ByteBuffer.get bytes packet position = .ok (ByteBuffer.word bytes packet position) := if_pos h

theorem seek_ok (h : position ≤ packet.length) : ByteBuffer.seek packet position = .ok position := if_pos h

theorem loadDataLayer_ok (h : Carries packet t) : ∃ fields position,
    OFMatch.loadDataLayer packet 1 = .ok (fields, position) ∧ fields.wildcards = 0 ∧
      fields.dataLayerType = 0x0800 ∧ CarriesAt packet position t := by
  rcases h with ⟨htype, hat⟩ | ⟨htag, htype, hat⟩
  · have hlength := hat.length
    have htagless : ByteBuffer.word 2 packet 12 ≠ 0x8100 := by
      rw [htype]
      decide
    rw [OFMatch.loadDataLayer, get_ok (by omega), get_ok (by omega), get_ok (by omega)]
    simp only [Bind.bind, Except.bind]
    rw [if_pos htagless]
    exact ⟨_, _, rfl, rfl, htype, hat⟩
  · have hlength := hat.length
    rw [OFMatch.loadDataLayer, get_ok (by omega), get_ok (by omega), get_ok (by omega),
      get_ok (by omega), get_ok (by omega)]
    simp only [Bind.bind, Except.bind]
    rw [if_neg (not_not.mpr htag)]
    exact ⟨_, _, rfl, rfl, htype, hat⟩

theorem loadNetwork_ok (h : CarriesAt packet position t) {fields : OFMatch}
    (hfields : fields.dataLayerType = 0x0800) :
    OFMatch.loadNetwork packet fields position =
      .ok ({ fields with
        networkTypeOfService := (0xfc &&& ByteBuffer.word 1 packet (position + 1)) >>> 2
        networkProtocol := t.proto
        networkSource := t.src
        networkDestination := t.dst },
        position + (0xf &&& ByteBuffer.word 1 packet position).toNat * 4) := by
  have hoptions := h.options
  have hlength := h.length
  rw [OFMatch.loadNetwork, if_pos hfields, get_ok (by omega), get_ok (by omega), seek_ok (by omega),
    get_ok (by omega), seek_ok (by omega), get_ok (by omega), get_ok (by omega), ← h.proto_eq, ← h.src_eq,
    ← h.dst_eq]
  simp only [Bind.bind, Except.bind]
  rw [seek_ok (by omega)]
  rfl

theorem loadTransport_ok (h : CarriesAt packet position t) {fields : OFMatch}
    (hfields : fields.networkProtocol = t.proto) :
    OFMatch.loadTransport packet fields
        (position + (0xf &&& ByteBuffer.word 1 packet position).toNat * 4) =
      .ok { fields with transportSource := t.srcPort, transportDestination := t.dstPort } := by
  have hlength := h.length
  have hicmp : ¬ fields.networkProtocol = 0x01 := by
    rw [hfields]
    rcases h.proto with hp | hp <;> rw [hp] <;> decide
  have htcp : fields.networkProtocol = 0x06 ∨ fields.networkProtocol = 0x11 := by
    rw [hfields]
    exact h.proto
  rw [OFMatch.loadTransport, if_neg hicmp, if_pos htcp, get_ok (by omega), get_ok (by omega),
    ← h.srcPort_eq, ← h.dstPort_eq]
  rfl

/-- The match of a packet compares everything, and its key has what it can have. -/
theorem sharedKey_eq (h : Carries packet t) : sharedKey packet = .ok (keyOf t) := by
  obtain ⟨fields, position, hdata, hwild, htype, hat⟩ := loadDataLayer_ok h
  have hload : OFMatch.loadFromPacket packet 1 = .ok { fields with
      networkTypeOfService := (0xfc &&& ByteBuffer.word 1 packet (position + 1)) >>> 2
      networkProtocol := t.proto
      networkSource := t.src
      networkDestination := t.dst
      transportSource := t.srcPort
      transportDestination := t.dstPort } := by
    rw [OFMatch.loadFromPacket, hdata]
    simp only [Bind.bind, Except.bind]
    rw [loadNetwork_ok hat htype]
    exact loadTransport_ok hat rfl
  have hkey : ∀ m : OFMatch, m.wildcards = 0 → m.dataLayerType = 0x0800 →
      Controller.PerflowKey.fromOFMatch m =
        keyOf ⟨m.networkSource, m.networkDestination, m.networkProtocol, m.transportSource,
          m.transportDestination⟩ := by
    rintro m hwild htype
    simp [Controller.PerflowKey.fromOFMatch, OFMatch.compares, OFMatch.maskLen, OFMatch.ignoredBits, hwild,
      htype, keyOf]
  rw [sharedKey, hload]
  exact congrArg Except.ok (hkey _ hwild htype)

end Load

/-! ## Selection -/

section Selects

variable {t : PacketTuple} {c : Connection}

/-- What PRADS makes of the key, if the key has both addresses. -/
theorem flowKey_keyOf (hsrc : 0 < t.src.toInt) (hdst : 0 < t.dst.toInt) : flowKey (keyOf t) =
    { dlType := some 0x0800
      nwProto := some t.proto
      nwSrc := some ⟨t.src, 32⟩
      nwDst := some ⟨t.dst, 32⟩
      tpSrc := some t.srcPort
      tpDst := some t.dstPort
      flip := false } := by
  have hdl : (jsonObjectGetInt 0x0800).setWidth 16 = 0x0800#16 := by decide
  have hflip : ¬ (jsonObjectGetInt 0).setWidth 8 ≠ (0 : BitVec 8) := by decide
  simp only [flowKey, keyOf, if_pos hsrc, if_pos hdst, Option.map_some, inetAton_fromIPv4Address,
    Option.getD_some, Option.map_none, Option.getD_none, hdl, setWidth_jsonObjectGetInt (show 8 ≤ 32 by decide),
    setWidth_jsonObjectGetInt (show 16 ≤ 32 by decide), decide_eq_false hflip]
  rfl

/-- With both addresses, the get finds the packet's connection in the direction of the packet. -/
theorem getSelects_keyOf (u : Undefined) (hsrc : 0 < t.src.toInt) (hdst : 0 < t.dst.toInt) :
    getSelects u (jsonParsePerflowKey (keyOf t)) c = true ↔ c.Sends t := by
  rw [getSelects_iff, flowKey_keyOf hsrc hdst]
  constructor
  · rintro ⟨h₁, h₂, h₃, h₄, h₅, h₆⟩
    rw [maskedCovers_whole (by simp), FlowKey.covers_some, samePrefix_iff_eq (le_refl 32)] at h₅ h₆
    simp only [FlowKey.fixes_some, Option.some.injEq] at h₁ h₂
    simp only [Option.mem_def, Option.some.injEq, forall_eq', Bool.false_eq_true, false_and, or_false] at h₃ h₄
    exact ⟨h₁, h₂, h₅.symm, h₆.symm, h₃, h₄⟩
  · rintro ⟨h₁, h₂, h₃, h₄, h₅, h₆⟩
    refine ⟨?_, ?_, ?_, ?_, (maskedCovers_whole ?_).mpr ?_, (maskedCovers_whole ?_).mpr ?_⟩
    all_goals simp [*, samePrefix_iff_eq]

end Selects

/-! ## Synchronisation -/

section Synchronises

variable [Serializer] [Macros] {packet : Packet} {t : PacketTuple} {tables : Tables}

/-- The key of the packet has all of its five fields, and the get sends the packet's connection and no
other one. -/
def Synchronises (packet : Packet) (t : PacketTuple) (tables : Tables) : Prop :=
  ∃ key, sharedKey packet = .ok key ∧
    (key.nwSrc = some (IPv4.fromIPv4Address t.src) ∧ key.nwDst = some (IPv4.fromIPv4Address t.dst) ∧
      key.nwProto = some t.proto.toInt ∧ key.tpSrc = some t.srcPort.toInt ∧
      key.tpDst = some t.dstPort.toInt) ∧
    ∀ (u : Undefined) (id : BitVec 32) (raiseEvents : Bool), ∃ tables',
      localGetPerflow u (jsonParsePerflowKey key.toJson.members) id raiseEvents tables =
        .ok (tables', (tables.connections.filter fun c => decide (c.Of t)).mapIdx (sentOf u id raiseEvents))

/-- A key with both addresses is one of addresses that are positive. -/
theorem Synchronises.positive (hsync : Synchronises packet t tables) (h : Carries packet t) :
    0 < t.src.toInt ∧ 0 < t.dst.toInt := by
  obtain ⟨key, hkey, ⟨hsrc, hdst, -⟩, -⟩ := hsync
  rw [sharedKey_eq h] at hkey
  obtain rfl := Except.ok.inj hkey
  have hpos : ∀ {address : BitVec 32} {text : Controller.JavaString},
      (if 0 < address.toInt then some (IPv4.fromIPv4Address address) else none) = some text →
        0 < address.toInt := by
    intro address text heq
    by_contra hneg
    rw [if_neg hneg] at heq
    cases heq
  exact ⟨hpos hsrc, hpos hdst⟩

/-- A share gets the packet's connection exactly if both addresses are below 128.0.0.0 and not 0, and
the packet goes from the client of its connection to the server. -/
theorem synchronises_iff (hser : AlwaysSerializes) (h : Carries packet t) (tables : Tables) :
    Synchronises packet t tables ↔
      0 < t.src.toInt ∧ 0 < t.dst.toInt ∧ ∀ c ∈ tables.connections, c.Of t → c.Sends t := by
  constructor
  · intro hsync
    obtain ⟨hs, hd⟩ := hsync.positive h
    obtain ⟨key, hkey, -, hget⟩ := hsync
    rw [sharedKey_eq h] at hkey
    obtain rfl := Except.ok.inj hkey
    refine ⟨hs, hd, fun c hc hof => ?_⟩
    obtain ⟨tables', hget⟩ := hget ⟨.zero, fun _ => 0⟩ 1 true
    rw [members_toJson, localGetPerflow_eq hser] at hget
    have hlength := congrArg List.length (congrArg Prod.snd (Except.ok.inj hget))
    rw [List.length_mapIdx, List.length_mapIdx] at hlength
    have hsub : List.Sublist
        (tables.connections.filter (getSelects ⟨.zero, fun _ => 0⟩ (jsonParsePerflowKey (keyOf t))))
        (tables.connections.filter fun c => decide (c.Of t)) := by
      refine List.monotone_filter_right _ fun c hsel => ?_
      exact decide_eq_true (Or.inl ((getSelects_keyOf _ hs hd).mp hsel))
    have hmem : c ∈ tables.connections.filter fun c => decide (c.Of t) :=
      List.mem_filter.mpr ⟨hc, decide_eq_true hof⟩
    rw [← hsub.eq_of_length hlength] at hmem
    exact (getSelects_keyOf _ hs hd).mp (List.mem_filter.mp hmem).2
  · rintro ⟨hs, hd, hdirection⟩
    refine ⟨keyOf t, sharedKey_eq h, ⟨if_pos hs, if_pos hd, rfl, rfl, rfl⟩, fun u id raiseEvents => ?_⟩
    have hfilter : tables.connections.filter (getSelects u (jsonParsePerflowKey (keyOf t))) =
        tables.connections.filter fun c => decide (c.Of t) := by
      refine List.filter_congr fun c hc => ?_
      rw [Bool.eq_iff_iff, decide_eq_true_iff, getSelects_keyOf u hs hd]
      exact ⟨Or.inl, hdirection c hc⟩
    rw [members_toJson, localGetPerflow_eq hser, hfilter]
    exact ⟨_, rfl⟩

end Synchronises

/-! ## Samples -/

/-- A UDP packet from port 7 of a host to port 9 of `10.0.0.2`. -/
def udpPacket (host : UInt8) : Packet :=
  [0, 0, 0, 0, 0, 2, 0, 0, 0, 0, 0, 1, 0x08, 0x00] ++
    [0x45, 0, 0, 28, 0, 0, 0, 0, 64, 17, 0, 0, host, 0, 0, 1, 10, 0, 0, 2] ++ [0, 7, 0, 9, 0, 8, 0, 0]

def udpTuple (host : BitVec 8) : PacketTuple := ⟨host ++ 0x000001#24, 0x0a000002, 17, 7, 9⟩

theorem carries_udpPacket : Carries (udpPacket 10) (udpTuple 10) ∧ Carries (udpPacket 200) (udpTuple 200) := by
  refine ⟨Or.inl ⟨by decide, ?_⟩, Or.inl ⟨by decide, ?_⟩⟩
  all_goals exact ⟨by decide, by decide, by decide, by decide, by decide, by decide, by decide, by decide⟩

/-- The connection of such packets, as its first packet has made it. -/
def udpConnection : Connection := ofHeader 0x0800 17 0x0a000001 0x0a000002 7 9

theorem synchronises_iff_sample : letI := plainMacros; letI := plainSerializer
    Synchronises (udpPacket 10) (udpTuple 10) (single udpConnection) ↔
      0 < (udpTuple 10).src.toInt ∧ 0 < (udpTuple 10).dst.toInt ∧
        ∀ c ∈ (single udpConnection).connections, c.Of (udpTuple 10) → c.Sends (udpTuple 10) := by
  let _ := plainMacros
  let _ := plainSerializer
  exact synchronises_iff (fun c => rfl) carries_udpPacket.1 (single udpConnection)

/-- The key of a packet from `200.0.0.1` has no source address. -/
theorem not_synchronises_upper : letI := plainMacros; letI := plainSerializer
    ¬ ∀ (packet : Packet) (t : PacketTuple) (tables : Tables), Carries packet t →
      Synchronises packet t tables := by
  let _ := plainMacros
  let _ := plainSerializer
  intro h
  have hpos := (h (udpPacket 200) (udpTuple 200) emptyTables carries_udpPacket.2).positive carries_udpPacket.2
  exact absurd hpos.1 (by decide)

end OFM.Prads
