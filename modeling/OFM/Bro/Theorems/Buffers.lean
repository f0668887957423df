import OFM.Bro.Buffers

/-!
# Buffers that come back

Class by class, which objects are the same when they have been archived and loaded.
-/

namespace OFM.Bro.Buffers
open OFM.Lib

/-! ## Buffers with their length -/

section Lengths

variable {Base Ref : Type} [Archived Base] [Archived Ref]

theorem CompositeHash.roundTrips {h : CompositeHash Ref} (hv : h.Valid) :
    RoundTrips CompositeHash.save CompositeHash.load CompositeHash.Same h := by
  obtain ⟨b, hb⟩ := Option.isSome_iff_exists.mp hv
  obtain ⟨items, hbuffer, hrun⟩ := buffer_run hb
  have hsave : h.save = some (Lib.save h.type ++ Lib.save h.size ++ items ++ Lib.save h.isSingleton ++
      Lib.save h.isComplexType ++ Lib.save h.singletonTag) := by
    simp [CompositeHash.save, hbuffer]
  have hload : ∀ rest, load.run (Lib.save h.type ++ Lib.save h.size ++ items ++ Lib.save h.isSingleton ++
      Lib.save h.isComplexType ++ Lib.save h.singletonTag ++ rest) =
        some ({ h with key := loadedBuffer h.size b }, rest) := by
    intro rest
    simp only [load, List.append_assoc, Archived.bind_run, Loader.bind_of_run hrun]
    rfl
  exact (roundTrips_iff_same hsave hload).mpr ⟨(read_loadedBuffer hb).trans hb.symm, rfl⟩

theorem DataBlock.roundTrips {d : DataBlock Ref} (hv : d.Valid) :
    RoundTrips DataBlock.save DataBlock.load DataBlock.Same d := by
  obtain ⟨b, hb⟩ := Option.isSome_iff_exists.mp hv
  obtain ⟨items, hbuffer, hrun⟩ := buffer_run hb
  have hsave : d.save = some (Lib.save d.next ++ Lib.save d.prev ++ Lib.save d.seq ++ Lib.save d.upper ++
      items) := by
    simp [DataBlock.save, hbuffer]
  have hload : ∀ rest, load.run (Lib.save d.next ++ Lib.save d.prev ++ Lib.save d.seq ++ Lib.save d.upper ++
      items ++ rest) = some ({ d with block := loadedBuffer d.size b }, rest) := by
    intro rest
    rw [size] at hrun
    simp only [load, List.append_assoc, Archived.bind_run, Loader.bind_of_run hrun, size]
    rfl
  exact (roundTrips_iff_same hsave hload).mpr ⟨(read_loadedBuffer hb).trans hb.symm, rfl⟩

/-- The fields of the word are taken apart again. -/
theorem bitfields_apart : ∀ (f : BitVec 1) (c : BitVec 2) (p : BitVec 1),
    let word : BitVec 32 := f.setWidth 32 ||| c.setWidth 32 <<< 1 ||| p.setWidth 32 <<< 3
    (word &&& 1).setWidth 1 = f ∧ (word >>> 1 &&& 3).setWidth 2 = c ∧ (word >>> 3 &&& 1).setWidth 1 = p := by
  decide

theorem ContentLineAnalyzer.roundTrips {a : ContentLineAnalyzer Base} (hv : a.Valid) :
    RoundTrips ContentLineAnalyzer.save ContentLineAnalyzer.load ContentLineAnalyzer.Same a := by
  obtain ⟨b, hb⟩ := Option.isSome_iff_exists.mp hv
  obtain ⟨items, hbuffer, hrun⟩ := buffer_run hb
  obtain ⟨hflag, hcrlf, hskip⟩ := bitfields_apart a.flagNULs a.crLfAsEOL a.skipPartial
  have hsave : a.save = some (Lib.save a.base ++ Lib.save a.bufLen ++ items ++ Lib.save a.offset ++
      Lib.save a.lastChar ++ Lib.save a.seq ++ Lib.save a.seqToSkip ++ Lib.save a.seqDeliveredInLines ++
      Lib.save a.skipPending ++ Lib.save a.plainDeliveryLength ++ Lib.save a.isPlain ++
      Lib.save a.skipDeliveries ++ Lib.save a.bitfields) := by
    simp [ContentLineAnalyzer.save, hbuffer]
  have hload : ∀ rest, load.run (Lib.save a.base ++ Lib.save a.bufLen ++ items ++ Lib.save a.offset ++
      Lib.save a.lastChar ++ Lib.save a.seq ++ Lib.save a.seqToSkip ++ Lib.save a.seqDeliveredInLines ++
      Lib.save a.skipPending ++ Lib.save a.plainDeliveryLength ++ Lib.save a.isPlain ++
      Lib.save a.skipDeliveries ++ Lib.save a.bitfields ++ rest) =
        some ({ a with buf := loadedBuffer a.bufLen b }, rest) := by
    intro rest
    simp only [load, List.append_assoc, Archived.bind_run, Loader.bind_of_run hrun]
    simp only [bitfields, hflag, hcrlf, hskip]
    rfl
  exact (roundTrips_iff_same hsave hload).mpr ⟨(read_loadedBuffer hb).trans hb.symm, rfl⟩

end Lengths

/-! ## Strings with a final NUL -/

namespace BroString

variable {s : BroString}

theorem toInt_size (hv : s.Valid) : s.size.toInt = s.n.toInt + s.finalNUL.toNat := by
  obtain ⟨hn, hle, -⟩ := hv
  have hbit : s.finalNUL.toNat < 2 := s.finalNUL.isLt
  have hn' : s.n.toInt = s.n.toNat := by
    rw [BitVec.toInt_eq_toNat_cond] at hn ⊢
    split at hn <;> omega
  rw [hn'] at hle ⊢
  have hsize : s.size.toNat = s.n.toNat + s.finalNUL.toNat := by
    rw [size, BitVec.toNat_add, BitVec.toNat_setWidth]
    omega
  rw [BitVec.toInt_eq_toNat_cond, hsize]
  split <;> omega

theorem restores_iff (hv : s.Valid) : RoundTrips save load Same s ↔ s.Restored := by
  have hsize := toInt_size hv
  obtain ⟨hn, hle, hread⟩ := hv
  obtain ⟨b, hb⟩ := Option.isSome_iff_exists.mp hread
  have hbit : ∀ f : BitVec 1, ((f.setWidth 32 : BitVec 32) &&& 1).setWidth 1 = f := by decide
  by_cases hpos : 0 < s.n.toInt
  · have hnonneg : 0 ≤ s.size.toInt := by omega
    have hsave : s.save = some (Lib.save (s.finalNUL.setWidth 32) ++ Lib.save s.n ++ [.block b]) := by
      simp [save, hpos, binaryObject_of_read hnonneg hb]
    have hload : ∀ rest, load.run (Lib.save (s.finalNUL.setWidth 32) ++ Lib.save s.n ++ [.block b] ++ rest) =
        some ({ s with b := some b, useFreeToDelete := 0 }, rest) := by
      intro rest
      have hblock : ∀ rest, (Loader.blockOf s.size).run ([.block b] ++ rest) = some (b, rest) :=
        Loader.blockOf_run hnonneg (CharPointer.length_of_read hb)
      simp only [load, List.append_assoc, Archived.bind_run, if_pos hpos, hbit]
      exact Loader.bind_of_run hblock _ rest
    rw [roundTrips_iff_same hsave hload]
    refine iff_of_true ⟨?_, rfl⟩ fun h0 => ?_
    · rw [hb, ← CharPointer.length_of_read hb]
      exact CharPointer.read_some_length b
    · rw [h0] at hpos
      exact absurd hpos (by decide)
  · have hzero : s.n = 0 := by
      apply BitVec.eq_of_toInt_eq
      have htoInt : (0 : BitVec 32).toInt = 0 := rfl
      omega
    have hsave : s.save = some (Lib.save (s.finalNUL.setWidth 32) ++ Lib.save s.n) := by
      simp [save, hpos]
    have hload : ∀ rest, load.run (Lib.save (s.finalNUL.setWidth 32) ++ Lib.save s.n ++ rest) =
        some ({ s with b := none, useFreeToDelete := 0 }, rest) := by
      intro rest
      simp only [load, List.append_assoc, Archived.bind_run, if_neg hpos, hbit]
      rfl
    rw [roundTrips_iff_same hsave hload]
    have hbytes : bytes s.size = s.finalNUL.toNat := by
      rw [bytes]
      omega
    constructor
    · rintro ⟨hsame, -⟩ -
      by_contra hnul
      have hone : s.finalNUL.toNat = 1 := by
        have hlt : s.finalNUL.toNat < 2 := s.finalNUL.isLt
        have hne : s.finalNUL.toNat ≠ 0 := fun h0 => hnul (BitVec.eq_of_toNat_eq h0)
        omega
      rw [hb, hbytes, hone] at hsame
      cases hsame
    · intro hrestored
      rw [hrestored hzero] at hbytes
      refine ⟨?_, rfl⟩
      rw [hbytes]
      simp

end BroString

/-! ## Keys -/

namespace HashKey

variable {k uninit : HashKey} {fresh : BitVec 64}

/-- A key that is not in the union is saved with the block it points to. -/
theorem exists_saved (ht : k.type = .none ∨ k.type = .ptr) (hsize : 0 ≤ k.size.toInt) (hvalue : k.value.isSome) :
    ∃ b, k.value = some b ∧
      (∀ rest, (Loader.blockOf k.size).run ([.block b] ++ rest) = some (b, rest)) ∧
      k.save = some (Lib.save k.size ++ Lib.save k.type ++ [.block b] ++ Lib.save k.hash) := by
  obtain ⟨b, hb⟩ := Option.isSome_iff_exists.mp hvalue
  have hobject := binaryObject_of_read hsize hb
  refine ⟨b, hb, Loader.blockOf_run hsize (CharPointer.length_of_read hb), ?_⟩
  rcases ht with ht | ht <;> simp [save, ht, hobject]

/-- A key in memory comes back in a block of its own. -/
theorem roundTrips_none (ht : k.type = .none) (hsize : 0 ≤ k.size.toInt) (hvalue : k.value.isSome) :
    RoundTrips save (load uninit fresh) Same k := by
  obtain ⟨b, hb, hblock, hsave⟩ := exists_saved (Or.inl ht) hsize hvalue
  have hload : ∀ rest, (load uninit fresh).run
      (Lib.save k.size ++ Lib.save k.type ++ [.block b] ++ Lib.save k.hash ++ rest) =
        some ({ uninit with
          key := .block (some b), isOurDynamic := 1, size := k.size, hash := k.hash, type := k.type }, rest) := by
    intro rest
    simp only [load, List.append_assoc, Archived.bind_run, ht, Loader.bind_of_run hblock]
    simp
  refine (roundTrips_iff_same hsave hload).mpr ⟨?_, rfl, rfl, rfl, ?_⟩
  · rw [hb, value, bytesOf, ← CharPointer.length_of_read hb]
    exact CharPointer.read_some_length b
  · exact iff_of_true (by simp) ⟨some b, rfl⟩

/-- A pointer comes back as another pointer, which is taken for the block itself. -/
theorem not_roundTrips_ptr (ht : k.type = .ptr) (hsize : 0 ≤ k.size.toInt) (hvalue : k.value.isSome) :
    ¬ RoundTrips save (load uninit fresh) Same k := by
  obtain ⟨b, hb, hblock, hsave⟩ := exists_saved (Or.inr ht) hsize hvalue
  have hload : ∀ rest, (load uninit fresh).run
      (Lib.save k.size ++ Lib.save k.type ++ [.block b] ++ Lib.save k.hash ++ rest) =
        some (⟨fresh, .union, 1, k.size, k.hash, k.type⟩, rest) := by
    intro rest
    simp only [load, List.append_assoc, Archived.bind_run, ht, Loader.bind_of_run hblock]
    simp
  rw [roundTrips_iff_same hsave hload]
  rintro ⟨-, -, -, -, hown⟩
  have hone : (1 : BitVec 32) ≠ 0 := by decide
  obtain ⟨p, hp⟩ := hown.mp hone
  cases hp

/-- A key in the union comes back there, and `is_our_dynamic` is what it happens to be. -/
theorem same_union {keyU : BitVec 64}
    (hvalue : (CharPointer.read (some (unionBytes keyU)) (bytes k.size)) = k.value) :
    Same k ⟨keyU, .union, uninit.isOurDynamic, k.size, k.hash, k.type⟩ ↔ uninit.isOurDynamic = 0 := by
  constructor
  · rintro ⟨-, -, -, -, hown⟩
    by_contra hne
    obtain ⟨p, hp⟩ := hown.mp hne
    cases hp
  · intro h0
    refine ⟨hvalue, rfl, rfl, rfl, iff_of_false (fun h => h h0) ?_⟩
    rintro ⟨p, hp⟩
    cases hp

theorem value_union (hk : k.key = .union) :
    CharPointer.read (some (unionBytes k.keyU)) (bytes k.size) = k.value := by
  rw [value, bytesOf, hk]

theorem roundTrips_int_iff (ht : k.type = .int) (hk : k.key = .union) :
    RoundTrips save (load uninit fresh) Same k ↔ uninit.isOurDynamic = 0 := by
  have hsave : k.save = some (Lib.save k.size ++ Lib.save k.type ++ Lib.save k.keyU ++ Lib.save k.hash) := by
    simp [save, ht]
  have hload : ∀ rest, (load uninit fresh).run
      (Lib.save k.size ++ Lib.save k.type ++ Lib.save k.keyU ++ Lib.save k.hash ++ rest) =
        some (⟨k.keyU, .union, uninit.isOurDynamic, k.size, k.hash, k.type⟩, rest) := by
    intro rest
    simp only [load, List.append_assoc, Archived.bind_run, ht]
    simp
  rw [roundTrips_iff_same hsave hload, same_union (value_union hk)]

theorem roundTrips_double_iff (ht : k.type = .double) (hk : k.key = .union) :
    RoundTrips save (load uninit fresh) Same k ↔ uninit.isOurDynamic = 0 ∧ Finite k.keyU := by
  have hsave : k.save = some (Lib.save k.size ++ Lib.save k.type ++ Lib.save k.keyU ++ Lib.save k.hash) := by
    simp [save, ht]
  have hload : ∀ rest, (load uninit fresh).run
      (Lib.save k.size ++ Lib.save k.type ++ Lib.save k.keyU ++ Lib.save k.hash ++ rest) =
        if Finite k.keyU then some (⟨k.keyU, .union, uninit.isOurDynamic, k.size, k.hash, k.type⟩, rest)
        else none := by
    intro rest
    simp only [load, List.append_assoc, Archived.bind_run, ht, Loader.double_bind]
    simp
  rw [roundTrips_iff_of_if hsave hload, same_union (value_union hk), and_comm]

/-- The first half of the union. -/
theorem unionBytes_take (above u : BitVec 32) : (unionBytes (above ++ u)).take 4 =
    (List.range 4).map fun i => u.extractLsb' (8 * i) 8 := by
  rw [unionBytes, ← List.map_take, List.take_range]
  apply List.map_congr_left
  intro i hi
  rw [List.mem_range] at hi
  exact BitVec.extractLsb'_append_eq_of_add_le (by omega)

theorem roundTrips_uint_iff {above u : BitVec 32} (ht : k.type = .uint) (hk : k.key = .union)
    (hu : k.keyU = above ++ u) (hs : k.size = 4) :
    RoundTrips save (load uninit fresh) Same k ↔ uninit.isOurDynamic = 0 := by
  have hlow : k.keyU.setWidth 32 = u := by
    rw [hu, BitVec.setWidth_append]
    simp
  have hsave : k.save = some (Lib.save k.size ++ Lib.save k.type ++ Lib.save u ++ Lib.save k.hash) := by
    simp [save, ht, hlow]
  have hload : ∀ rest, (load uninit fresh).run
      (Lib.save k.size ++ Lib.save k.type ++ Lib.save u ++ Lib.save k.hash ++ rest) =
        some (⟨uninit.keyU.extractLsb' 32 32 ++ u, .union, uninit.isOurDynamic, k.size, k.hash, k.type⟩,
          rest) := by
    intro rest
    simp only [load, List.append_assoc, Archived.bind_run, ht]
    simp
  have hread : ∀ above : BitVec 32, CharPointer.read (some (unionBytes (above ++ u))) (bytes k.size) =
      some ((List.range 4).map fun i => u.extractLsb' (8 * i) 8) := by
    intro above
    rw [hs, ← unionBytes_take above]
    rfl
  rw [roundTrips_iff_same hsave hload, same_union]
  rw [hread, ← value_union hk, hu, hread]

end HashKey

namespace Construction

variable {hashBytes : List (BitVec 8) → BitVec 64} {c : Construction} {uninit : HashKey} {fresh : BitVec 64}

theorem restores_iff (hv : c.Valid hashBytes) :
    RoundTrips HashKey.save (HashKey.load uninit fresh) HashKey.Same (c.construct hashBytes) ↔
      c.Restored uninit := by
  obtain ⟨hsize, hvalue⟩ := hv
  cases c with
  | ofInt i => exact HashKey.roundTrips_int_iff rfl rfl
  | ofUint u => exact HashKey.roundTrips_int_iff rfl rfl
  | ofUint32 u above => exact HashKey.roundTrips_uint_iff rfl rfl rfl rfl
  | ofDouble d => exact HashKey.roundTrips_double_iff rfl rfl
  | ofPointer p => exact iff_of_false (HashKey.not_roundTrips_ptr rfl hsize hvalue) id
  | ofWords u n => exact iff_of_true (HashKey.roundTrips_none rfl hsize hvalue) trivial
  | ofChars s => exact iff_of_true (HashKey.roundTrips_none rfl hsize hvalue) trivial
  | ofBroString s => exact iff_of_true (HashKey.roundTrips_none rfl hsize hvalue) trivial
  | ofCopy key size => exact iff_of_true (HashKey.roundTrips_none rfl hsize hvalue) trivial
  | ofKey key size hash => exact iff_of_true (HashKey.roundTrips_none rfl hsize hvalue) trivial
  | dontCopy key size hash => exact iff_of_true (HashKey.roundTrips_none rfl hsize hvalue) trivial
  | ofBytes key size => exact iff_of_true (HashKey.roundTrips_none rfl hsize hvalue) trivial

/-- The keys of connections are archived as keys in memory. -/
theorem save_ofKey (k : Bro.HashKey) (hk : k.key.length < 2 ^ 31) :
    ((ofKey (some k.key) k.size k.hash).construct hashBytes).save = some (Lib.save k) := by
  have hbytes : bytes k.size = k.key.length := bytes_ofNat hk
  have hread : CharPointer.read (some k.key) (bytes k.size) = some k.key := by
    rw [hbytes]
    exact CharPointer.read_some_length k.key
  have hsize : 0 ≤ k.size.toInt := by
    by_contra hneg
    rw [bytes] at hbytes
    have hzero : k.key = [] := List.eq_nil_of_length_eq_zero (by omega)
    rw [Bro.HashKey.size, hzero] at hneg
    exact hneg (by decide)
  have hobject := binaryObject_of_read hsize hread
  simp only [construct, inMemory, HashKey.save, HashKey.bytesOf, hobject]
  rfl

end Construction

/-! ## Strings -/

namespace Location

variable {l : Location} {s : List (BitVec 8)}

/-- A location as it is loaded, the file name being these bytes. -/
theorem roundTrips_iff_same_of_read {b : List (BitVec 8)} {len : BitVec 32}
    (hs : l.filename.strlen = some s.length) (hlen : len = BitVec.ofNat 32 (s.length + 1))
    (hsize : 0 ≤ len.toInt) (hb : l.filename.read (bytes len) = some b) (ht : l.text.NullOrString) :
    RoundTrips save load Same l ↔ l.filename.SameString (some b) ∧ l.text = none := by
  obtain ⟨text, p, htext, hrun, hsame⟩ := chars_run ht
  have hobject := binaryObject_of_read hsize hb
  have hblock : ∀ rest, (Loader.blockOf len).run ([.block b] ++ rest) = some (b, rest) :=
    Loader.blockOf_run hsize (CharPointer.length_of_read hb)
  have hsave : l.save = some (Lib.save len ++ [.block b] ++ l.saveNumbers ++ text) := by
    simp [save, hs, ← hlen, hobject, htext]
  have hload : ∀ rest, load.run (Lib.save len ++ [.block b] ++ l.saveNumbers ++ text ++ rest) =
      some ({ l with filename := some b, text := p, deleteData := true }, rest) := by
    intro rest
    simp only [load, saveNumbers, List.append_assoc, Archived.bind_run, Loader.bind_of_run hblock,
      Loader.bind_of_run hrun]
    rfl
  rw [roundTrips_iff_same hsave hload]
  constructor
  · rintro ⟨hfilename, htext, -⟩
    exact ⟨hfilename, hsame.mp htext⟩
  · rintro ⟨hfilename, htext⟩
    exact ⟨hfilename, hsame.mpr htext, rfl⟩

theorem restores_iff (hv : l.Valid) : RoundTrips save load Same l ↔ l.Restored := by
  obtain ⟨hfilename, htext⟩ := hv
  rcases hfilename with hnull | ⟨s, hs⟩
  · refine iff_of_false (not_roundTrips_of_none ?_) ?_
    · simp [save, hnull, CharPointer.strlen]
    · rintro ⟨⟨s, hs, -⟩, -⟩
      exact hs.ne_none hnull
  · by_cases hfit : s.length + 1 < 2 ^ 31
    · have hbytes := bytes_ofNat hfit
      have hsize : 0 ≤ (BitVec.ofNat 32 (s.length + 1)).toInt := by
        rw [bytes] at hbytes
        omega
      have hread : l.filename.read (bytes (BitVec.ofNat 32 (s.length + 1))) = some (s ++ [0]) := by
        rw [hbytes, hs.read_succ]
      rw [roundTrips_iff_same_of_read hs.strlen rfl hsize hread htext]
      have hstring : l.filename.SameString (some (s ++ [0])) :=
        Or.inr ⟨s, hs, CharPointer.isString_append_zero hs.1⟩
      exact and_congr (iff_of_true hstring ⟨s, hs, hfit⟩) Iff.rfl
    · -- The length does not fit an `int`.
      have hnot : ¬ l.Restored := by
        rintro ⟨⟨s', hs', hfit'⟩, -⟩
        rw [hs'.eq hs] at hfit'
        exact hfit hfit'
      refine iff_of_false ?_ hnot
      by_cases hsize : 0 ≤ (BitVec.ofNat 32 (s.length + 1)).toInt
      · have hle : bytes (BitVec.ofNat 32 (s.length + 1)) ≤ s.length := by
          have hlt := BitVec.toInt_lt (x := BitVec.ofNat 32 (s.length + 1))
          rw [bytes]
          omega
        rw [roundTrips_iff_same_of_read hs.strlen rfl hsize (hs.read hle) htext]
        rintro ⟨⟨hnull, -⟩ | ⟨s', -, hs'⟩, -⟩
        · exact hs.ne_none hnull
        · exact CharPointer.not_isString (fun h => hs.1 (List.mem_of_mem_take h)) hs'
      · apply not_roundTrips_of_none
        simp [save, hs.strlen, binaryObject, hsize]

end Location

namespace BroFile

variable {Base Ref : Type} [Archived Base] [Archived Ref] {f : BroFile Base Ref}

/-- A file whose cipher buffer can be read. -/
theorem roundTrips_iff_of_read {b : List (BitVec 8)} (hname : f.name.NullOrString)
    (haccess : f.access.NullOrString) (hb : f.cipherBuffer.read (bytes f.cipherSize) = some b) :
    RoundTrips save load Same f ↔ f.name = none ∧ f.access = none ∧ f.FiniteTimes := by
  obtain ⟨name, p, hname, hnrun, hnsame⟩ := chars_run hname
  obtain ⟨access, q, haccess, harun, hasame⟩ := chars_run haccess
  obtain ⟨cipher, hcipher, hcrun⟩ := buffer_run hb
  have hsave : f.save = some (Lib.save f.base ++ Lib.save f.t ++ name ++ access ++ f.saveMembers ++ cipher) := by
    simp [save, hname, haccess, hcipher]
  have hload : ∀ rest, load.run (Lib.save f.base ++ Lib.save f.t ++ name ++ access ++ f.saveMembers ++ cipher ++
      rest) = if f.FiniteTimes then
        some ({ f with name := p, access := q, cipherBuffer := loadedBuffer f.cipherSize b }, rest) else none := by
    intro rest
    simp only [load, saveMembers, List.append_assoc, Archived.bind_run, Loader.bind_of_run hnrun,
      Loader.bind_of_run harun, Loader.bind_of_run hcrun, Loader.double_bind]
    by_cases hinterval : Finite f.rotateInterval
    · by_cases hsize : Finite f.rotateSize
      · by_cases hcurrent : Finite f.currentSize
        · by_cases hopen : Finite f.openTime
          · simp [FiniteTimes, hinterval, hsize, hcurrent, hopen]
          · simp [FiniteTimes, hopen]
        · simp [FiniteTimes, hcurrent]
      · simp [FiniteTimes, hsize]
    · simp [FiniteTimes, hinterval]
  rw [roundTrips_iff_of_if hsave hload]
  constructor
  · rintro ⟨hfinite, hn, ha, -⟩
    exact ⟨hnsame.mp hn, hasame.mp ha, hfinite⟩
  · rintro ⟨hn, ha, hfinite⟩
    exact ⟨hfinite, hnsame.mpr hn, hasame.mpr ha, (read_loadedBuffer hb).trans hb.symm, rfl⟩

theorem restores_iff (hv : f.Valid) : RoundTrips save load Same f ↔ f.Restored := by
  obtain ⟨hname, haccess, hcipher⟩ := hv
  by_cases hnull : f.cipherBuffer = none
  · by_cases hsize : 0 < f.cipherSize.toInt
    · refine iff_of_false (not_roundTrips_of_none ?_) fun h => h.2.2.1 hnull hsize
      rw [save, hnull, saveBuffer_null hsize]
      cases saveChars f.name <;> cases saveChars f.access <;> rfl
    · have hb : f.cipherBuffer.read (bytes f.cipherSize) = some [] := by
        rw [bytes_eq_zero hsize, CharPointer.read_zero]
      rw [roundTrips_iff_of_read hname haccess hb, Restored]
      simp [hsize]
  · obtain ⟨b, hb⟩ := Option.isSome_iff_exists.mp (hcipher hnull)
    rw [roundTrips_iff_of_read hname haccess hb, Restored]
    simp [hnull]

end BroFile

/-! ## All classes -/

/-- An object of any of the classes comes back the same exactly if it has no string but a file name, no empty
string with a final NUL, no cipher buffer that is only a size, and no key that is a pointer or relies on a
flag that loading does not set. -/
theorem roundTrips_iff_restored {Base Ref : Type} [Archived Base] [Archived Ref]
    (hashBytes : List (BitVec 8) → BitVec 64) (o : Buffered Base Ref) (hv : o.Valid hashBytes) :
    o.RoundTrips hashBytes ↔ o.Restored := by
  cases o with
  | location l => exact Location.restores_iff hv
  | broFile f => exact BroFile.restores_iff hv
  | broString s => exact BroString.restores_iff hv
  | hashKey c uninit fresh => exact Construction.restores_iff hv
  | compositeHash h => exact iff_of_true (CompositeHash.roundTrips hv) trivial
  | contentLineAnalyzer a => exact iff_of_true (ContentLineAnalyzer.roundTrips hv) trivial
  | dataBlock d => exact iff_of_true (DataBlock.roundTrips hv) trivial

/-- A string of two letters, with a final NUL. -/
def twoLetters : Buffered Bool Bool := .broString ⟨some [0x61, 0x62, 0], 2, 1, 0⟩

theorem roundTrips_iff_restored_twoLetters : twoLetters.RoundTrips fun _ => 0 := by
  have hvalid : twoLetters.Valid fun _ => 0 := ⟨by decide, by decide, rfl⟩
  refine (roundTrips_iff_restored (fun _ => 0) twoLetters hvalid).mpr fun hempty => ?_
  cases hempty

/-- `BroFile()`, with strings. -/
def plainFile (name access : CharPointer) : BroFile Bool Bool :=
  ⟨false, false, name, access, 0, 0, 0, 0, false, false, false, 0, true, 0, 0, 0, false, true, false, none, 0⟩

/-- A file with the name `x`, to be written. -/
theorem not_roundTrips_named :
    ¬ (Buffered.broFile (plainFile (some [0x78, 0]) (some [0x77, 0]))).RoundTrips fun _ => 0 := by
  have hname : CharPointer.IsString (some [0x78, 0]) [0x78] := ⟨by decide, [], rfl⟩
  have haccess : CharPointer.IsString (some [0x77, 0]) [0x77] := ⟨by decide, [], rfl⟩
  have hvalid : (plainFile (some [0x78, 0]) (some [0x77, 0])).Valid :=
    ⟨Or.inr ⟨_, hname⟩, Or.inr ⟨_, haccess⟩, fun h => absurd rfl h⟩
  intro h
  have hrestored := (BroFile.restores_iff hvalid).mp h
  cases hrestored.1

end OFM.Bro.Buffers
