import OFM.Lib.Archive
import OFM.Lib.Words

/-!
# Addresses, hash keys and dictionaries

`IPAddr`, `ConnID` and the keys of connections, of `IPAddr.h`, `Conn.h` and `Hash.cc`. The machine is
little-endian. `Dictionary` of `Dict.cc`, whatever its buckets are: an entry is found by its hash and the bytes
of its key.
-/

namespace OFM.Bro
open OFM.Lib

/-! ## Addresses -/

/-- The sixteen bytes of `in6`, the first one the most significant. -/
structure IPAddr where
  in6 : BitVec 128
  deriving DecidableEq, Repr

/-- `v4_mapped_prefix` -/
def v4MappedPrefix : BitVec 96 := 0xffff

namespace IPAddr

/-- The address of an `in_addr`, which is in network order. -/
def ofIn4 (sAddr : BitVec 32) : IPAddr := ⟨v4MappedPrefix ++ swap32 sAddr⟩

/-- `in6.s6_addr32` -/
def s6Addr32 (a : IPAddr) (i : Nat) : BitVec 32 := swap32 (a.in6.extractLsb' (96 - 32 * i) 32)

/-- `CopyIPv4` -/
def copyIPv4 (a : IPAddr) : BitVec 32 := a.s6Addr32 3

def bytes (a : IPAddr) : List (BitVec 8) := (List.range 16).map fun i => a.in6.extractLsb' (120 - 8 * i) 8

/-- The address of an IPv4 host is in the last word. -/
@[simp] theorem copyIPv4_ofIn4 (sAddr : BitVec 32) : (ofIn4 sAddr).copyIPv4 = sAddr := by
  have h : (v4MappedPrefix ++ swap32 sAddr).extractLsb' 0 32 = swap32 sAddr :=
    BitVec.extractLsb'_append_eq_right
  simp only [copyIPv4, s6Addr32, ofIn4, Nat.reduceMul, Nat.reduceSub]
  rw [h, swap32_swap32]

/-- The first word is the same for all IPv4 hosts. -/
@[simp] theorem s6Addr32_zero_ofIn4 (sAddr : BitVec 32) : (ofIn4 sAddr).s6Addr32 0 = 0 := by
  have h : (v4MappedPrefix ++ swap32 sAddr).extractLsb' 96 32 = v4MappedPrefix.extractLsb' 64 32 :=
    BitVec.extractLsb'_append_eq_of_le (by decide)
  simp only [s6Addr32, ofIn4, Nat.reduceMul, Nat.reduceSub]
  rw [h]
  decide

end IPAddr

/-! ## Keys -/

/-- A port is kept in network order. -/
structure ConnID where
  srcAddr : IPAddr
  dstAddr : IPAddr
  srcPort : BitVec 16
  dstPort : BitVec 16
  isOneWay : Bool
  deriving DecidableEq, Repr

/-- The other direction of a connection. -/
def ConnID.reverse (id : ConnID) : ConnID :=
  { id with srcAddr := id.dstAddr, dstAddr := id.srcAddr, srcPort := id.dstPort, dstPort := id.srcPort }

/-- `addr_port_canon_lt` -/
def addrPortCanonLt (addr1 : IPAddr) (p1 : BitVec 16) (addr2 : IPAddr) (p2 : BitVec 16) : Bool :=
  addr1.in6 < addr2.in6 ∨ addr1 = addr2 ∧ p1 < p2

/-- A key of type `HASH_KEY_TYPE_NONE`, as those of connections are. -/
structure HashKey where
  key : List (BitVec 8)
  hash : BitVec 32
  deriving DecidableEq, Repr

namespace HashKey

def size (k : HashKey) : BitVec 32 := BitVec.ofNat 32 k.key.length

/-- `HashKey(bytes, size)`: what `HashBytes` gives is cut to an int. -/
def ofBytes (hashBytes : List (BitVec 8) → BitVec 64) (bytes : List (BitVec 8)) : HashKey :=
  ⟨bytes, (hashBytes bytes).setWidth 32⟩

/-- What a dictionary goes by: `Hash()`, which widens the int, and the bytes. -/
def name (k : HashKey) : BitVec 64 × List (BitVec 8) := (k.hash.signExtend 64, k.key)

theorem name_inj {k k' : HashKey} : k.name = k'.name ↔ k = k' := by
  obtain ⟨key, hash⟩ := k
  obtain ⟨key', hash'⟩ := k'
  have hwide : hash.signExtend 64 = hash'.signExtend 64 ↔ hash = hash' := by
    refine ⟨fun h => BitVec.eq_of_toInt_eq ?_, congrArg _⟩
    have hint := congrArg BitVec.toInt h
    rwa [BitVec.toInt_signExtend_of_le (by decide), BitVec.toInt_signExtend_of_le (by decide)] at hint
  simp only [name, Prod.mk.injEq, HashKey.mk.injEq, hwide, and_comm]

end HashKey

def portBytes (port : BitVec 16) : List (BitVec 8) := [port.extractLsb' 0 8, port.extractLsb' 8 8]

def connIDBytes (ip1 ip2 : IPAddr) (port1 port2 : BitVec 16) : List (BitVec 8) :=
  ip1.bytes ++ ip2.bytes ++ portBytes port1 ++ portBytes port2

/-- The bytes of the key of `BuildConnIDHashKey`. -/
def ConnID.keyBytes (id : ConnID) : List (BitVec 8) :=
  if id.isOneWay || addrPortCanonLt id.srcAddr id.srcPort id.dstAddr id.dstPort then
    connIDBytes id.srcAddr id.dstAddr id.srcPort id.dstPort
  else connIDBytes id.dstAddr id.srcAddr id.dstPort id.srcPort

/-- `BuildConnIDHashKey` -/
def buildConnIDHashKey (hashBytes : List (BitVec 8) → BitVec 64) (id : ConnID) : HashKey :=
  HashKey.ofBytes hashBytes id.keyBytes

/-- Of two ends that differ, one comes before the other. -/
theorem addrPortCanonLt_swap (a b : IPAddr) (p q : BitVec 16) :
    addrPortCanonLt b q a p = !addrPortCanonLt a p b q ∨ a = b ∧ p = q := by
  obtain ⟨a⟩ := a
  obtain ⟨b⟩ := b
  simp only [addrPortCanonLt, IPAddr.mk.injEq]
  rcases BitVec.lt_trichotomy a b with h | rfl | h
  · have hne : b ≠ a := fun he => BitVec.lt_irrefl a (he ▸ h)
    exact Or.inl (by simp [h, BitVec.lt_asymm h, hne])
  · rcases BitVec.lt_trichotomy p q with h | rfl | h
    · exact Or.inl (by simp [h, BitVec.lt_asymm h])
    · exact Or.inr ⟨rfl, rfl⟩
    · exact Or.inl (by simp [h, BitVec.lt_asymm h])
  · have hne : a ≠ b := fun he => BitVec.lt_irrefl a (he ▸ h)
    exact Or.inl (by simp [h, BitVec.lt_asymm h, hne])

/-- Both directions of a connection have the same key, unless it has one direction only. -/
theorem ConnID.keyBytes_reverse {id : ConnID} (h : id.isOneWay = false) :
    id.reverse.keyBytes = id.keyBytes := by
  simp only [keyBytes, reverse, h, Bool.false_or]
  rcases addrPortCanonLt_swap id.srcAddr id.dstAddr id.srcPort id.dstPort with hswap | ⟨ha, hp⟩
  · simp only [hswap]
    cases addrPortCanonLt id.srcAddr id.srcPort id.dstAddr id.dstPort <;> simp
  · rw [ha, hp]

/-! ## Archives -/

instance : Archived IPAddr where
  save a := save a.in6
  load := IPAddr.mk <$> load
  load_save a rest := by simp

/-- `HashKey::serialize`, the type of the key being `HASH_KEY_TYPE_NONE`. -/
instance : Archived HashKey where
  save h := save h.size ++ save (4 : BitVec 32) ++ save h.key ++ save h.hash
  load := do
    let size ← load (α := BitVec 32)
    let type ← load (α := BitVec 32)
    let key ← load (α := List (BitVec 8))
    let hash ← load
    if type = 4 ∧ BitVec.ofNat 32 key.length = size then pure ⟨key, hash⟩ else failure
  load_save h rest := by
    simp only [List.append_assoc, Archived.bind_run]
    simp [HashKey.size]

/-! ## Dictionaries -/

structure DictEntry (β : Type) where
  hash : BitVec 64
  key : List (BitVec 8)
  value : β

namespace DictEntry

variable {β : Type}

def name (e : DictEntry β) : BitVec 64 × List (BitVec 8) := (e.hash, e.key)

/-- `DictEntry(k, l, h, val)` -/
def ofKey (k : HashKey) (value : β) : DictEntry β := ⟨k.name.1, k.key, value⟩

@[simp] theorem name_ofKey (k : HashKey) (value : β) : (ofKey k value).name = k.name := rfl

/-- The entry with another value, if it is the one of the key. -/
def update (k : HashKey) (value : β) (e : DictEntry β) : DictEntry β :=
  if e.name = k.name then { e with value } else e

@[simp] theorem name_update (k : HashKey) (value : β) (e : DictEntry β) :
    (e.update k value).name = e.name := by
  rw [update]
  split <;> rfl

end DictEntry

/-- A key has one entry at most. -/
structure Dictionary (β : Type) where
  entries : List (DictEntry β)
  distinct : (entries.map DictEntry.name).Nodup

namespace Dictionary

variable {β : Type}

def empty : Dictionary β := ⟨[], List.nodup_nil⟩

/-- `Lookup` -/
def lookup (d : Dictionary β) (k : HashKey) : Option β :=
  (d.entries.find? fun e => e.name = k.name).map DictEntry.value

/-- `Insert`: the value of an entry that is there already is replaced. -/
def insert (d : Dictionary β) (k : HashKey) (value : β) : Dictionary β where
  entries :=
    if d.entries.any fun e => e.name = k.name then d.entries.map (·.update k value)
    else d.entries ++ [.ofKey k value]
  distinct := by
    split
    case isTrue => simpa [Function.comp_def] using d.distinct
    case isFalse h =>
      rw [List.map_append, List.nodup_append]
      refine ⟨d.distinct, List.nodup_singleton _, ?_⟩
      rintro n hn m hm rfl
      obtain ⟨e, he, rfl⟩ := List.mem_map.mp hn
      exact h (List.any_eq_true.mpr ⟨e, he, by simpa using hm⟩)

/-- `Remove` -/
def remove (d : Dictionary β) (k : HashKey) : Dictionary β where
  entries := d.entries.eraseP fun e => e.name = k.name
  distinct := (List.eraseP_sublist.map _).nodup d.distinct

/-- The values, in the order in which `NextEntry` comes to them. -/
def values (d : Dictionary β) : List β := d.entries.map DictEntry.value

variable {d : Dictionary β} {k : HashKey} {value : β} {e : DictEntry β}

theorem eq_of_name_eq {e' : DictEntry β} (he : e ∈ d.entries) (he' : e' ∈ d.entries)
    (hn : e.name = e'.name) : e = e' :=
  List.inj_on_of_nodup_map d.distinct he he' hn

/-- What is found is the value of the entry with the name of the key. -/
theorem lookup_eq_some_iff :
    d.lookup k = some value ↔ ∃ e ∈ d.entries, e.name = k.name ∧ e.value = value := by
  rw [lookup, Option.map_eq_some_iff]
  constructor
  · rintro ⟨e, he, rfl⟩
    have hname := List.find?_some he
    exact ⟨e, List.mem_of_find?_eq_some he, of_decide_eq_true hname, rfl⟩
  · rintro ⟨e, he, hname, rfl⟩
    obtain ⟨e', he'⟩ := Option.isSome_iff_exists.mp
      (List.find?_isSome.mpr ⟨e, he, decide_eq_true hname⟩ :
        (d.entries.find? fun e => decide (e.name = k.name)).isSome = true)
    have hname' : e'.name = k.name := by simpa using List.find?_some he'
    obtain rfl := eq_of_name_eq (List.mem_of_find?_eq_some he') he (hname'.trans hname.symm)
    exact ⟨e', he', rfl⟩

/-- The entries after an insertion are those before it, and the one of the key. -/
theorem mem_insert (h : e ∈ (d.insert k value).entries) :
    e ∈ d.entries ∨ e.name = k.name ∧ e.value = value := by
  simp only [insert] at h
  split at h
  · obtain ⟨e', he', rfl⟩ := List.mem_map.mp h
    rw [DictEntry.update]
    split
    · exact Or.inr ⟨‹_›, rfl⟩
    · exact Or.inl he'
  · rcases List.mem_append.mp h with h | h
    · exact Or.inl h
    · rw [List.mem_singleton.mp h]
      exact Or.inr ⟨rfl, rfl⟩

/-- What has been inserted is there. -/
theorem exists_mem_insert (d : Dictionary β) (k : HashKey) (value : β) :
    ∃ e ∈ (d.insert k value).entries, e.name = k.name ∧ e.value = value := by
  simp only [insert]
  split
  case isTrue h =>
    obtain ⟨e, he, hname⟩ := List.any_eq_true.mp h
    have hname : e.name = k.name := of_decide_eq_true hname
    exact ⟨e.update k value, List.mem_map_of_mem he, by simp [hname], by simp [DictEntry.update, hname]⟩
  case isFalse => exact ⟨.ofKey k value, by simp, rfl, rfl⟩

theorem mem_of_mem_remove (h : e ∈ (d.remove k).entries) : e ∈ d.entries :=
  List.mem_of_mem_eraseP h

end Dictionary

end OFM.Bro
