import OFM.Shared.PerflowKey

/-!
# Event filters

`event.c`: the list of filters of a network function, the key that is built from a packet, and what
happens to a packet before and after it is processed. Packets are read in place; what C leaves open,
fields that have not been set and shifts by too much, is a parameter.
-/

namespace OFM.Shared
open OFM.Lib
open OFM.Controller (EventAction)

/-! ## The key of a packet -/

def ethertypeIp : BitVec 16 := 0x0800
def etherHdrLen : Nat := 14
def ipprotoTcp : BitVec 8 := 6
def ipprotoUdp : BitVec 8 := 17

/-- `build_packet_key`, over a key that has not been initialised. The ports of TCP and of UDP are at
the same place. -/
def buildPacketKey (pkt : Memory) (key : PerflowKey) : PerflowKey :=
  let key := { key with wildcards := wildcardAll }
  -- Ethernet
  let etherType := swap16 (le16 pkt 12)
  let key := { key with
    dlType := etherType
    wildcards := key.wildcards &&& ~~~wildcardDlType }
  let nxthdr := etherHdrLen
  -- Network layer
  let (key, nxthdr) :=
    if etherType = ethertypeIp then
      ({ key with
          nwSrc := swap32 (le32 pkt (nxthdr + 12))
          nwDst := swap32 (le32 pkt (nxthdr + 16))
          nwProto := pkt (nxthdr + 9)
          wildcards := key.wildcards &&& ~~~(wildcardNwSrc ||| wildcardNwDst ||| wildcardNwProto) },
        nxthdr + (pkt nxthdr &&& 0x0f).toNat * 4)
    else (key, nxthdr)
  -- Transport layer
  if key.nwProto = ipprotoTcp ∨ key.nwProto = ipprotoUdp then
    { key with
      tpSrc := swap16 (le16 pkt nxthdr)
      tpDst := swap16 (le16 pkt (nxthdr + 2))
      wildcards := key.wildcards &&& ~~~(wildcardTpSrc ||| wildcardTpDst) }
  else key

/-! ## Filters -/

structure EventFilter where
  key : PerflowKey
  action : EventAction
  id : BitVec 32
  /-- From `bufferHead` to `bufferTail`. -/
  buffer : List Memory

/-- `events_add_filter` -/
def eventsAddFilter (filters : List EventFilter) (key : PerflowKey) (action : EventAction)
    (id : BitVec 32) : List EventFilter :=
  ⟨key, action, id, []⟩ :: filters

/-- `events_remove_filter`: the list without the filter, and the packets that are released. -/
def eventsRemoveFilter (filters : List EventFilter) (key : PerflowKey) :
    List EventFilter × List Memory :=
  (filters.eraseP fun filter => filter.key = key,
    (filters.find? fun filter => filter.key = key).elim [] EventFilter.buffer)

/-- What C leaves open in `matches_filter`. -/
structure Undefined where
  /-- The key on the stack. -/
  pKey : PerflowKey
  /-- The outcome of a shift by 32 and more. -/
  shift : BitVec 32 → BitVec 32

def Undefined.const (pKey : PerflowKey) (mask : BitVec 32) : Undefined := ⟨pKey, fun _ => mask⟩

/-- The checks of the loop of `matches_filter`; a field that does not match goes on to the next filter. -/
def matchesKey (u : Undefined) (fKey pKey : PerflowKey) : Bool :=
  let nwSrcMask := if fKey.wildcards &&& wildcardNwSrcMask = 0
    then shiftLeft u.shift 0xffffffff (32 - fKey.nwSrcMask) else 0xffffffff
  let nwDstMask := if fKey.wildcards &&& wildcardNwDstMask = 0
    then shiftLeft u.shift 0xffffffff (32 - fKey.nwDstMask) else 0xffffffff
  if fKey.wildcards &&& wildcardDlType = 0 ∧ fKey.dlType ≠ pKey.dlType then false
  else if fKey.wildcards &&& wildcardNwSrc = 0 ∧
    fKey.nwSrc &&& nwSrcMask ≠ pKey.nwSrc &&& nwSrcMask then false
  else if fKey.wildcards &&& wildcardNwDst = 0 ∧
    fKey.nwDst &&& nwDstMask ≠ pKey.nwDst &&& nwDstMask then false
  else if fKey.wildcards &&& wildcardNwProto = 0 ∧ fKey.nwProto ≠ pKey.nwProto then false
  -- The flip that is asked for is the packet's, not the filter's.
  else if fKey.wildcards &&& wildcardTpSrc = 0 ∧
    ¬ (fKey.tpSrc = pKey.tpSrc ∨ (pKey.tpFlip ≠ 0 ∧ fKey.tpDst = pKey.tpSrc)) then false
  else if fKey.wildcards &&& wildcardTpDst = 0 ∧
    ¬ (fKey.tpDst = pKey.tpDst ∨ (pKey.tpFlip ≠ 0 ∧ fKey.tpSrc = pKey.tpDst)) then false
  else true

/-- `matches_filter` -/
def matchesFilter (u : Undefined) (filters : List EventFilter) (pkt : Memory) : Option EventFilter :=
  let pKey := buildPacketKey pkt u.pKey
  filters.find? fun filter => matchesKey u filter.key pKey

/-! ## Before and after a packet is processed -/

def packetFlagDoNotBuffer : BitVec 8 := 1#8 <<< 2
def packetFlagDoNotDrop : BitVec 8 := 1#8 <<< 3

/-- `is_packet_flag_set` -/
def isPacketFlagSet (pkt : Memory) (flag : BitVec 8) : Bool :=
  if swap16 (le16 pkt 12) = ethertypeIp then pkt (etherHdrLen + 1) &&& flag ≠ 0 else false

/-- The id of an event is kept in a `char`. -/
structure ProcessContext where
  injected : BitVec 8
  stop : BitVec 8
  event : BitVec 8

/-- What `sdmbn_raise_reprocess` sends. -/
structure Raised where
  id : BitVec 32
  hashkey : BitVec 32
  packet : Memory

/-- The filters with a packet at the end of the buffer of one of them. -/
def bufferPacket (u : Undefined) (filters : List EventFilter) (pkt : Memory) : List EventFilter :=
  let pKey := buildPacketKey pkt u.pKey
  filters.findIdx? (fun filter => matchesKey u filter.key pKey) |>.elim filters fun i =>
    filters.modify i fun filter => { filter with buffer := filter.buffer ++ [pkt] }

/-- `sdmbn_preprocess_packet` -/
def sdmbnPreprocessPacket (u : Undefined) (filters : List EventFilter) (pkt : Memory)
    (context : ProcessContext) : List EventFilter × ProcessContext × List Raised :=
  match matchesFilter u filters pkt with
  | none => (filters, { context with stop := 0, event := 0 }, [])
  | some filter =>
      match filter.action with
      | .buffer =>
          if isPacketFlagSet pkt packetFlagDoNotBuffer then
            (filters, { context with stop := 0, event := filter.id.setWidth 8 }, [])
          else if context.injected ≠ 0 then (filters, { context with stop := 0, event := 0 }, [])
          else (bufferPacket u filters pkt, { context with stop := 1, event := -1 }, [])
      | .drop =>
          if isPacketFlagSet pkt packetFlagDoNotDrop then
            (filters, { context with stop := 0, event := filter.id.setWidth 8 }, [])
          else (filters, { context with stop := 1, event := -1 }, [⟨filter.id, -1, pkt⟩])
      | .process => (filters, { context with stop := 0, event := filter.id.setWidth 8 }, [])

/-- `sdmbn_postprocess_packet` -/
def sdmbnPostprocessPacket (pkt : Memory) (context : ProcessContext) : List Raised :=
  if 0 < context.event.toInt then [⟨context.event.signExtend 32, -1, pkt⟩] else []

end OFM.Shared
