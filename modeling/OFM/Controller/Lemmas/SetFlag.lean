import OFM.Controller.Lemmas.Segments

/-!
# Frames whose flag is set

What `setFlag` makes of a frame, by the parts of the frame: its addresses, the header of IPv4, and the
segment that follows.
-/

namespace OFM.Controller
open OFM.Lib ByteBuffer

variable {data rest segment segment' out : Bytes} {flag : UInt8}

/-! ## Headers -/

namespace IPv4Header

variable {header : IPv4Header}

/-- The fields that are read have as many bits as they have in a header. -/
structure Read (header : IPv4Header) : Prop where
  version : header.version.toNat < 2 ^ 4
  headerLength : header.headerLength.toNat < 2 ^ 4
  flags : header.flags.toNat < 2 ^ 3
  fragmentOffset : header.fragmentOffset.toNat < 2 ^ 13
  options : header.options.length = (header.headerLength.toNat - 5) * 4

/-- The first byte, as it is written. -/
def first (version headerLength : UInt8) : UInt8 := ((version &&& 0xf) <<< 4) ||| (headerLength &&& 0xf)

/-- The word with the flags and the fragment offset, as it is written. -/
def fragment (flags fragmentOffset : BitVec 16) : BitVec 16 :=
  ((flags &&& 0x7) <<< 13) ||| (fragmentOffset &&& 0x1fff)

theorem first_read (byte : UInt8) :
    first ((byte >>> 4) &&& 0xf) (byte &&& 0xf) = byte ∧ ((byte >>> 4) &&& 0xf).toNat < 2 ^ 4 ∧
      (byte &&& 0xf).toNat < 2 ^ 4 := by
  have h : ∀ n : Fin 256,
      first ((UInt8.ofNat n >>> 4) &&& 0xf) (UInt8.ofNat n &&& 0xf) = UInt8.ofNat n ∧
        ((UInt8.ofNat n >>> 4) &&& 0xf).toNat < 2 ^ 4 ∧ (UInt8.ofNat n &&& 0xf).toNat < 2 ^ 4 := by
    decide +kernel
  simpa only [UInt8.ofNat_toNat] using h ⟨byte.toNat, byte.toNat_lt⟩

theorem read_first {version headerLength : UInt8} (hversion : version.toNat < 2 ^ 4)
    (hlength : headerLength.toNat < 2 ^ 4) :
    (first version headerLength >>> 4) &&& 0xf = version ∧ first version headerLength &&& 0xf = headerLength := by
  have h : ∀ m n : Fin 16,
      (first (UInt8.ofNat m) (UInt8.ofNat n) >>> 4) &&& 0xf = UInt8.ofNat m ∧
        first (UInt8.ofNat m) (UInt8.ofNat n) &&& 0xf = UInt8.ofNat n := by
    decide
  simpa only [UInt8.ofNat_toNat] using h ⟨version.toNat, hversion⟩ ⟨headerLength.toNat, hlength⟩

theorem toNat_flags (word : BitVec 16) : ((word >>> 13) &&& 0x7).toNat = word.toNat / 2 ^ 13 := by
  have hlt := word.isLt
  rw [BitVec.toNat_and, BitVec.toNat_ushiftRight, Nat.shiftRight_eq_div_pow]
  refine (Nat.and_two_pow_sub_one_eq_mod _ 3).trans (Nat.mod_eq_of_lt ?_)
  omega

theorem toNat_fragmentOffset (word : BitVec 16) : (word &&& 0x1fff).toNat = word.toNat % 2 ^ 13 := by
  rw [BitVec.toNat_and]
  exact Nat.and_two_pow_sub_one_eq_mod _ 13

theorem toNat_fragment {flags fragmentOffset : BitVec 16} (hflags : flags.toNat < 2 ^ 3)
    (hoffset : fragmentOffset.toNat < 2 ^ 13) :
    (fragment flags fragmentOffset).toNat = flags.toNat * 2 ^ 13 + fragmentOffset.toNat := by
  have hlow : (flags &&& 0x7).toNat = flags.toNat := by
    rw [BitVec.toNat_and]
    exact (Nat.and_two_pow_sub_one_eq_mod _ 3).trans (Nat.mod_eq_of_lt hflags)
  have hoffset' : (fragmentOffset &&& 0x1fff).toNat = fragmentOffset.toNat := by
    rw [toNat_fragmentOffset, Nat.mod_eq_of_lt hoffset]
  have hshift : ((flags &&& 0x7) <<< 13).toNat = flags.toNat <<< 13 := by
    rw [BitVec.toNat_shiftLeft, hlow, Nat.shiftLeft_eq]
    omega
  rw [fragment, BitVec.toNat_or, hshift, hoffset', ← Nat.shiftLeft_add_eq_or_of_lt hoffset, Nat.shiftLeft_eq]

theorem fragment_read (word : BitVec 16) : fragment ((word >>> 13) &&& 0x7) (word &&& 0x1fff) = word := by
  have hlt := word.isLt
  rw [← BitVec.toNat_inj, toNat_fragment (by rw [toNat_flags]; omega) (by rw [toNat_fragmentOffset]; omega),
    toNat_flags, toNat_fragmentOffset]
  omega

theorem read_fragment {flags fragmentOffset : BitVec 16} (hflags : flags.toNat < 2 ^ 3)
    (hoffset : fragmentOffset.toNat < 2 ^ 13) :
    (fragment flags fragmentOffset >>> 13) &&& 0x7 = flags ∧
      fragment flags fragmentOffset &&& 0x1fff = fragmentOffset := by
  rw [← BitVec.toNat_inj, ← BitVec.toNat_inj, toNat_flags, toNat_fragmentOffset, toNat_fragment hflags hoffset]
  omega

/-- A header in one piece, as the reads take it. -/
theorem bytes_eq (header : IPv4Header) :
    header.bytes = first header.version header.headerLength :: header.diffServ ::
      (putShort header.totalLength ++ (putShort header.identification ++
        (putShort (fragment header.flags header.fragmentOffset) ++ (header.ttl :: header.protocol ::
          (putShort header.checksum ++ (putInt header.sourceAddress ++
            (putInt header.destinationAddress ++ header.options))))))) := by
  simp only [bytes, List.append_assoc, List.cons_append, List.nil_append]
  rfl

theorem readOptions_eq_ok {headerLength : UInt8} {options : Bytes} :
    readOptions headerLength data = .ok (options, rest) ↔
      data = options ++ rest ∧ options.length = (headerLength.toNat - 5) * 4 := by
  have hlt : 5 < headerLength ↔ 5 < headerLength.toNat := UInt8.lt_iff_toNat_lt
  rw [readOptions]
  split
  · exact getBytes_eq_ok
  · rename_i hle
    rw [hlt] at hle
    rw [Reader.pure_eq_ok, show (headerLength.toNat - 5) * 4 = 0 by omega, List.length_eq_zero_iff]
    constructor
    · rintro ⟨rfl, rfl⟩
      exact ⟨rfl, rfl⟩
    · rintro ⟨rfl, rfl⟩
      exact ⟨rfl, rfl⟩

theorem read_eq_ok :
    IPv4Header.read data = .ok (header, rest) ↔ header.Read ∧ data = header.bytes ++ rest := by
  simp only [read, Reader.bind_eq_ok, getByte_eq_ok, getShort_eq_ok, getInt_eq_ok, readOptions_eq_ok,
    Reader.pure_eq_ok, bytes_eq]
  constructor
  · rintro ⟨byte, _, rfl, diffServ, _, rfl, totalLength, _, rfl, identification, _, rfl, sscratch, _, rfl,
      ttl, _, rfl, protocol, _, rfl, checksum, _, rfl, sourceAddress, _, rfl, destinationAddress, _, rfl,
      options, _, ⟨rfl, hoptions⟩, rfl, rfl⟩
    obtain ⟨hbyte, hversion, hlength⟩ := first_read byte
    refine ⟨⟨hversion, hlength, ?_, ?_, hoptions⟩, ?_⟩
    · have hlt := sscratch.isLt
      rw [toNat_flags]
      omega
    · rw [toNat_fragmentOffset]
      exact Nat.mod_lt _ (by decide)
    · simp only [hbyte, fragment_read, List.cons_append, List.append_assoc]
  · rintro ⟨h, rfl⟩
    obtain ⟨hversion, hlength⟩ := read_first h.version h.headerLength
    obtain ⟨hflags, hoffset⟩ := read_fragment h.flags h.fragmentOffset
    simp only [List.cons_append, List.append_assoc]
    refine ⟨_, _, rfl, _, _, rfl, _, _, rfl, _, _, rfl, _, _, rfl, _, _, rfl, _, _, rfl, _, _, rfl, _, _,
      rfl, _, _, rfl, header.options, rest, ⟨rfl, ?_⟩, ?_, rfl⟩
    · rw [hlength]
      exact h.options
    · rw [hversion, hlength, hflags, hoffset]

/-- A header that is whole is read. -/
theorem exists_read {first : UInt8} (h : 20 ≤ (first :: data).length)
    (hlength : 4 * (first &&& 0xf).toNat ≤ (first :: data).length) :
    ∃ header rest, IPv4Header.read (first :: data) = .ok (header, rest) := by
  simp only [List.length_cons] at h hlength
  match data, h, hlength with
  | [], h, _ => exact absurd h (by decide)
  | diffServ :: data, h, hlength =>
  simp only [List.length_cons] at h hlength
  obtain ⟨totalLength, data, rfl⟩ := exists_putShort data (by omega)
  rw [List.length_append, putShort_length] at h hlength
  obtain ⟨identification, data, rfl⟩ := exists_putShort data (by omega)
  rw [List.length_append, putShort_length] at h hlength
  obtain ⟨sscratch, data, rfl⟩ := exists_putShort data (by omega)
  rw [List.length_append, putShort_length] at h hlength
  match data, h, hlength with
  | [], h, _ => exact absurd h (by simp)
  | [_], h, _ => exact absurd h (by simp)
  | ttl :: protocol :: data, h, hlength =>
  simp only [List.length_cons] at h hlength
  obtain ⟨checksum, data, rfl⟩ := exists_putShort data (by omega)
  rw [List.length_append, putShort_length] at h hlength
  obtain ⟨sourceAddress, data, rfl⟩ := exists_putInt data (by omega)
  rw [List.length_append, putInt_length] at h hlength
  obtain ⟨destinationAddress, data, rfl⟩ := exists_putInt data (by omega)
  rw [List.length_append, putInt_length] at h hlength
  simp only [read, Reader.bind_eq_ok, getByte_eq_ok, getShort_eq_ok, getInt_eq_ok, readOptions_eq_ok,
    Reader.pure_eq_ok]
  have hoptions : ((first &&& 0xf).toNat - 5) * 4 ≤ data.length := by omega
  exact ⟨_, _, _, _, rfl, _, _, rfl, _, _, rfl, _, _, rfl, _, _, rfl, _, _, rfl, _, _, rfl, _, _, rfl, _, _,
    rfl, _, _, rfl, _, _, ⟨(List.take_append_drop _ data).symm, List.length_take_of_le hoptions⟩, rfl, rfl⟩

theorem bytes_length (header : IPv4Header) : header.bytes.length = 20 + header.options.length := by
  simp only [bytes_eq, List.length_cons, List.length_append, putShort_length, putInt_length]
  omega

theorem wordAt_totalLength (header : IPv4Header) (rest : Bytes) :
    wordAt 2 2 (header.bytes ++ rest) = header.totalLength := by
  rw [bytes_eq]
  simp only [List.cons_append, List.append_assoc]
  exact @wordAt_append _ _ [_, _] _ _ rfl

/-- The header that is written for one that was read, but for its checksum. -/
def flagged (header : IPv4Header) (flag : UInt8) (totalLength : Nat) : IPv4Header :=
  { header with
    headerLength := UInt8.ofNat (5 + header.options.length / 4)
    diffServ := flag
    totalLength := BitVec.ofNat 16 totalLength
    checksum := 0 }

/-- The checksum is computed over a header. -/
def summed (header : IPv4Header) : IPv4Header :=
  { header with checksum := checksumOf (wordSum header.bytes) }

/-- A header before its checksum. -/
def front (header : IPv4Header) : Bytes :=
  [first header.version header.headerLength, header.diffServ] ++ putShort header.totalLength ++
    (putShort header.identification ++ putShort (fragment header.flags header.fragmentOffset) ++
      [header.ttl, header.protocol])

/-- A header behind its checksum. -/
def back (header : IPv4Header) : Bytes :=
  putInt header.sourceAddress ++ putInt header.destinationAddress ++ header.options

theorem front_length (header : IPv4Header) : header.front.length = 10 := rfl

theorem bytes_split (header : IPv4Header) :
    header.bytes = header.front ++ (putShort header.checksum ++ header.back) := by
  simp only [bytes_eq, front, back, List.append_assoc, List.cons_append, List.nil_append]

theorem withChecksum_bytes (h : header.checksum = 0) (accumulation : Nat) (payload : Bytes) :
    withChecksum 10 header.checksum accumulation (header.bytes ++ payload) =
      { header with checksum := checksumOf accumulation }.bytes ++ payload := by
  have hcomputed : computed header.checksum accumulation = checksumOf accumulation := if_pos h
  rw [bytes_split, bytes_split, List.append_assoc, List.append_assoc, List.append_assoc, List.append_assoc,
    withChecksum_append _ (front_length header), hcomputed]
  rfl

end IPv4Header

/-! ## Packets -/

/-- What is made of the bytes of an IPv4 packet. -/
def reflag (flag : UInt8) (data : Bytes) : Except JavaException Bytes := do
  let ip ← IPv4.deserialize data
  IPv4.serialize { ip with diffServ := flag, checksum := 0 }

/-- A packet with a new flag, its segment written again. -/
def rewritten (header : IPv4Header) (flag : UInt8) (segment : Bytes) : Bytes :=
  (header.flagged flag (header.bytes.length + segment.length)).summed.bytes ++ segment

theorem serialize_eq_ok {header : IPv4Header} (h : header.Read) {payload : IPv4Payload} :
    IPv4.serialize { header with payload, diffServ := flag, checksum := 0 } = .ok out ↔ ∃ segment',
      payload.serialize header.sourceAddress header.destinationAddress = .ok segment' ∧
        header.bytes.length + segment'.length < 2 ^ 15 ∧ out = rewritten header flag segment' := by
  have hlength : (5 + header.options.length / 4) * 4 = header.bytes.length := by
    rw [IPv4Header.bytes_length, h.options]
    omega
  have hflagged : ∀ size, (header.flagged flag size).bytes.length = header.bytes.length := fun size => by
    rw [IPv4Header.bytes_length, IPv4Header.bytes_length]
    rfl
  have hfilled : ∀ segment' bytes : Bytes,
      filled (BitVec.ofNat 16 ((5 + header.options.length / 4) * 4 + segment'.length)).toInt
          ((header.flagged flag ((5 + header.options.length / 4) * 4 + segment'.length)).bytes ++ segment') =
            .ok bytes ↔
        header.bytes.length + segment'.length < 2 ^ 15 ∧
          bytes = (header.flagged flag (header.bytes.length + segment'.length)).bytes ++ segment' :=
    fun segment' bytes => by
      rw [hlength]
      exact filled_short (by rw [List.length_append, hflagged])
  have hchecksum : ∀ segment' : Bytes, let size := header.bytes.length + segment'.length
      let bytes := (header.flagged flag size).bytes ++ segment'
      withChecksum 10 0 (wordSum (bytes.take ((5 + header.options.length / 4) * 4))) bytes =
        rewritten header flag segment' := fun segment' => by
    intro size bytes
    have htake : bytes.take ((5 + header.options.length / 4) * 4) = (header.flagged flag size).bytes :=
      List.take_left' (by rw [hflagged, hlength])
    rw [htake]
    exact @IPv4Header.withChecksum_bytes (header.flagged flag size) rfl _ segment'
  rw [IPv4.serialize, bind_eq_ok]
  constructor
  · rintro ⟨segment', hsegment, hout⟩
    obtain ⟨bytes, hbytes, hout⟩ := bind_eq_ok.mp hout
    obtain ⟨hlt, rfl⟩ := (hfilled segment' bytes).mp hbytes
    refine ⟨segment', hsegment, hlt, ?_⟩
    rw [← hchecksum segment']
    exact (Except.ok.inj hout).symm
  · rintro ⟨segment', hsegment, hlt, rfl⟩
    refine ⟨segment', hsegment, bind_eq_ok.mpr ⟨_, (hfilled segment' _).mpr ⟨hlt, rfl⟩, ?_⟩⟩
    exact congrArg Except.ok (hchecksum segment')

theorem reflag_eq_ok {header : IPv4Header} (h : header.Read) :
    reflag flag (header.bytes ++ segment) = .ok out ↔ ∃ segment',
      IPv4Payload.Rebuilt header.protocol header.sourceAddress header.destinationAddress segment segment' ∧
        header.bytes.length + segment'.length < 2 ^ 15 ∧ out = rewritten header flag segment' := by
  have hread : IPv4Header.read (header.bytes ++ segment) = .ok (header, segment) :=
    IPv4Header.read_eq_ok.mpr ⟨h, rfl⟩
  rw [reflag, bind_eq_ok]
  constructor
  · rintro ⟨ip, hip, hout⟩
    obtain ⟨_, hpair, hip⟩ := bind_eq_ok.mp hip
    rw [hread] at hpair
    cases hpair
    obtain ⟨payload, hpayload, hip⟩ := bind_eq_ok.mp hip
    cases hip
    obtain ⟨segment', hsegment, hlt, hout⟩ := (serialize_eq_ok h).mp hout
    exact ⟨segment', ⟨payload, hpayload, hsegment⟩, hlt, hout⟩
  · rintro ⟨segment', ⟨payload, hpayload, hsegment⟩, hlt, hout⟩
    refine ⟨{ header with payload }, ?_, (serialize_eq_ok h).mpr ⟨segment', hsegment, hlt, hout⟩⟩
    exact bind_eq_ok.mpr ⟨_, hread, bind_eq_ok.mpr ⟨payload, hpayload, rfl⟩⟩

theorem header_of_reflag (h : reflag flag data = .ok out) :
    ∃ (header : IPv4Header) (segment : Bytes), header.Read ∧ data = header.bytes ++ segment := by
  obtain ⟨ip, hip, -⟩ := bind_eq_ok.mp h
  obtain ⟨⟨header, segment⟩, hread, -⟩ := bind_eq_ok.mp hip
  obtain ⟨hheader, hdata⟩ := IPv4Header.read_eq_ok.mp hread
  exact ⟨header, segment, hheader, hdata⟩

/-! ## Frames -/

namespace Floodlight

variable {dst src junk packet : Bytes}

/-- A frame of IPv4 without a tag. -/
def frame (dst src data : Bytes) : Packet := dst ++ (src ++ (putShort Ethernet.typeIPv4 ++ data))

theorem frame_length (hdst : dst.length = 6) (hsrc : src.length = 6) :
    (frame dst src data).length = 14 + data.length := by
  simp only [frame, List.length_append, putShort_length]
  omega

/-- The bytes of a packet that its own length announces. -/
structure Sized (data : Bytes) : Prop where
  atLeast : 4 ≤ data.length
  announced : (wordAt 2 2 data).toInt = data.length

theorem deserialize_frame (hdst : dst.length = 6) (hsrc : src.length = 6) :
    Ethernet.deserialize (frame dst src data) (14 + data.length : Nat) =
      (IPv4.deserialize data).map fun payload => some ⟨dst, src, Ethernet.typeIPv4, payload⟩ := by
  have hget : getBytes 6 (frame dst src data) = .ok (dst, src ++ (putShort Ethernet.typeIPv4 ++ data)) :=
    getBytes_eq_ok.mpr ⟨rfl, hdst⟩
  have hget' : getBytes 6 (src ++ (putShort Ethernet.typeIPv4 ++ data)) =
      .ok (src, putShort Ethernet.typeIPv4 ++ data) := getBytes_eq_ok.mpr ⟨rfl, hsrc⟩
  have htype : getShort (putShort Ethernet.typeIPv4 ++ data) = .ok (Ethernet.typeIPv4, data) :=
    getShort_eq_ok.mpr rfl
  have hlength := @frame_length data dst src hdst hsrc
  rw [Ethernet.deserialize, if_neg (by omega), if_neg (by omega)]
  simp only [hget, hget', htype, ok_bind]
  cases IPv4.deserialize data with
  | error e => rfl
  | ok payload => rfl

theorem actualPacket_frame (hdst : dst.length = 6) (hsrc : src.length = 6) :
    actualPacket (frame dst src (data ++ junk)) (14 + data.length : Nat) = .ok (frame dst src data) := by
  have hlength := @frame_length (data ++ junk) dst src hdst hsrc
  have hframe : frame dst src (data ++ junk) = frame dst src data ++ junk := by
    simp only [frame, List.append_assoc]
  rw [List.length_append] at hlength
  rw [actualPacket]
  split
  · rw [copyOf, if_neg (by omega), Int.toNat_natCast, hframe,
      List.take_left' (frame_length hdst hsrc)]
  · rw [hframe, show junk = [] from List.length_eq_zero_iff.mp (by omega), List.append_nil]

/-- What is made of a frame whose packet has the length that it announces. -/
theorem setFlag_frame (hdst : dst.length = 6) (hsrc : src.length = 6) (hdata : Sized data) :
    setFlag (frame dst src (data ++ junk)) flag =
      (reflag flag data).map fun out => some (frame dst src out) := by
  obtain ⟨first, second, rest, hrest⟩ : ∃ first second rest,
      data = first :: second :: (putShort (wordAt 2 2 data) ++ rest) := by
    have hsplit := @wordAt_split 2 2 data hdata.atLeast
    obtain ⟨first, second, htake⟩ := List.length_eq_two.mp (List.length_take_of_le
      (show 2 ≤ data.length from Nat.le_of_succ_le (Nat.le_of_succ_le hdata.atLeast)))
    rw [htake] at hsplit
    exact ⟨first, second, _, hsplit⟩
  have hget : getBytes 6 (frame dst src (data ++ junk)) =
      .ok (dst, src ++ (putShort Ethernet.typeIPv4 ++ (data ++ junk))) := getBytes_eq_ok.mpr ⟨rfl, hdst⟩
  have hget' : getBytes 6 (src ++ (putShort Ethernet.typeIPv4 ++ (data ++ junk))) =
      .ok (src, putShort Ethernet.typeIPv4 ++ (data ++ junk)) := getBytes_eq_ok.mpr ⟨rfl, hsrc⟩
  have htype : getShort (putShort Ethernet.typeIPv4 ++ (data ++ junk)) =
      .ok (Ethernet.typeIPv4, data ++ junk) := getShort_eq_ok.mpr rfl
  have hfirst : getByte (data ++ junk) =
      .ok (first, second :: (putShort (wordAt 2 2 data) ++ rest) ++ junk) :=
    getByte_eq_ok.mpr (congrArg (· ++ junk) hrest)
  have hsecond : getByte (second :: (putShort (wordAt 2 2 data) ++ rest) ++ junk) =
      .ok (second, putShort (wordAt 2 2 data) ++ rest ++ junk) := getByte_eq_ok.mpr rfl
  have hlen : getShort (putShort (wordAt 2 2 data) ++ rest ++ junk) =
      .ok (wordAt 2 2 data, rest ++ junk) := getShort_eq_ok.mpr (List.append_assoc ..)
  have hactual : (ethHdrLen + (wordAt 2 2 data).toInt : Int) = (14 + data.length : Nat) := by
    rw [hdata.announced]
    rfl
  rw [setFlag]
  simp only [hget, hget', htype, hfirst, hsecond, hlen, ok_bind, if_true, hactual,
    actualPacket_frame hdst hsrc, deserialize_frame hdst hsrc, reflag]
  cases IPv4.deserialize data with
  | error e => rfl
  | ok ip =>
      simp only [Except.map, ok_bind, Ethernet.serialize]
      cases IPv4.serialize { ip with diffServ := flag, checksum := 0 } with
      | error e => rfl
      | ok out =>
          have hframe : dst ++ src ++ putShort Ethernet.typeIPv4 ++ out = frame dst src out := by
            simp only [frame, List.append_assoc]
          exact congrArg (fun frame => Except.ok (some frame)) hframe

/-- What has been read of a frame: its header is whole, and it is as long as was said. -/
theorem length_of_deserialize {actual : Packet} {size : Int} {eth : Ethernet}
    (h : Ethernet.deserialize actual size = .ok (some eth)) : 34 ≤ actual.length ∧ size ≤ actual.length := by
  rw [Ethernet.deserialize] at h
  split at h
  · cases h
  split at h
  · cases h
  rename_i hle
  simp only [bind_eq_ok, Prod.exists, getBytes_eq_ok, getShort_eq_ok] at h
  obtain ⟨dst, _, ⟨rfl, hdst⟩, src, _, ⟨rfl, hsrc⟩, etherType, bb, rfl, payload, hpayload, -⟩ := h
  obtain ⟨⟨header, rest⟩, hread, -⟩ := bind_eq_ok.mp hpayload
  obtain ⟨-, rfl⟩ := IPv4Header.read_eq_ok.mp hread
  refine ⟨?_, by omega⟩
  simp only [List.length_append, putShort_length, IPv4Header.bytes_length]
  omega

/-- The part that is left, where it is as long as was said. -/
theorem length_of_actualPacket {actual : Packet} {size : Int} (h : actualPacket packet size = .ok actual)
    (hle : size ≤ actual.length) : (actual.length : Int) = size ∧ actual.length ≤ packet.length := by
  rw [actualPacket] at h
  split at h
  · rw [copyOf] at h
    split at h
    · cases h
    · cases h
      rw [List.length_take] at hle ⊢
      omega
  · cases h
    omega

/-- A frame that `setFlag` has rebuilt is one of IPv4. -/
theorem frame_of_setFlag {result : Packet} (h : setFlag packet flag = .ok (some result)) :
    ∃ dst src data junk, dst.length = 6 ∧ src.length = 6 ∧ Sized data ∧
      packet = frame dst src (data ++ junk) := by
  simp only [setFlag, bind_eq_ok, Prod.exists, getBytes_eq_ok, getShort_eq_ok] at h
  obtain ⟨dst, _, ⟨rfl, hdst⟩, src, _, ⟨rfl, hsrc⟩, etherType, bb, rfl, h⟩ := h
  split at h
  · rename_i htype
    subst htype
    simp only [bind_eq_ok, Prod.exists, getByte_eq_ok, getShort_eq_ok] at h
    obtain ⟨first, _, rfl, second, _, rfl, ipLen, rest, rfl, actual, hactual, eth, heth, h⟩ := h
    cases eth with
    | none => cases h
    | some eth =>
        obtain ⟨hwhole, hle⟩ := length_of_deserialize heth
        obtain ⟨hsize, hfits⟩ := length_of_actualPacket hactual hle
        simp only [List.length_append, List.length_cons, putShort_length, hdst, hsrc] at hfits
        obtain ⟨n, hn⟩ : ∃ n : Nat, ipLen.toInt = n + 4 := ⟨(ipLen.toInt - 4).toNat, by
          simp only [ethHdrLen] at hsize
          omega⟩
        have hrest : n ≤ rest.length := by
          simp only [ethHdrLen] at hsize
          omega
        have hdata : first :: second :: (putShort ipLen ++ rest) =
            (first :: second :: (putShort ipLen ++ rest.take n)) ++ rest.drop n := by
          simp only [List.cons_append, List.append_assoc, List.take_append_drop]
        refine ⟨dst, src, first :: second :: (putShort ipLen ++ rest.take n), rest.drop n, hdst, hsrc, ⟨?_, ?_⟩, ?_⟩
        · simp only [List.length_cons, List.length_append, putShort_length]
          omega
        · have hwordAt : wordAt 2 2 (first :: second :: (putShort ipLen ++ rest.take n)) = ipLen :=
            @wordAt_append _ _ [first, second] _ _ rfl
          rw [hwordAt, hn]
          simp only [List.length_cons, List.length_append, putShort_length, List.length_take_of_le hrest]
          omega
        · rw [frame, ← hdata]
  · cases h

/-! ## Frames by their parts -/

/-- A frame of IPv4 and what follows it. -/
structure IPv4Frame where
  dst : Bytes
  src : Bytes
  header : IPv4Header
  segment : Bytes
  junk : Bytes
  dst_length : dst.length = 6
  src_length : src.length = 6
  read : header.Read
  announced : header.totalLength.toNat = header.bytes.length + segment.length

namespace IPv4Frame

variable (f : IPv4Frame)

def bytes : Packet := frame f.dst f.src (f.header.bytes ++ f.segment ++ f.junk)

/-- What a segment is written to again in this frame. -/
def Rebuilt (segment' : Bytes) : Prop :=
  IPv4Payload.Rebuilt f.header.protocol f.header.sourceAddress f.header.destinationAddress f.segment segment'

/-- A frame too long for its length to be positive is not rebuilt. -/
theorem lt_of_setFlag {result : Packet} (h : setFlag f.bytes flag = .ok (some result)) :
    f.header.bytes.length + f.segment.length < 2 ^ 15 := by
  obtain ⟨dst, src, data, junk, hdst, hsrc, hdata, heq⟩ := frame_of_setFlag h
  obtain ⟨-, heq⟩ := List.append_inj heq (f.dst_length.trans hdst.symm)
  obtain ⟨-, heq⟩ := List.append_inj heq (f.src_length.trans hsrc.symm)
  obtain ⟨-, heq⟩ := List.append_inj heq rfl
  have hword : wordAt 2 2 data = f.header.totalLength := by
    rw [← wordAt_append_left hdata.atLeast junk, ← heq, List.append_assoc]
    exact f.header.wordAt_totalLength _
  have hint := hdata.announced
  rw [hword, BitVec.toInt_eq_toNat_cond] at hint
  rw [← f.announced]
  split at hint <;> omega

theorem setFlag_eq_ok {result : Packet} :
    setFlag f.bytes flag = .ok (some result) ↔
      f.header.bytes.length + f.segment.length < 2 ^ 15 ∧ ∃ segment', f.Rebuilt segment' ∧
        f.header.bytes.length + segment'.length < 2 ^ 15 ∧
        result = frame f.dst f.src (rewritten f.header flag segment') := by
  have hsized : f.header.bytes.length + f.segment.length < 2 ^ 15 → Sized (f.header.bytes ++ f.segment) := by
    intro hlt
    refine ⟨?_, ?_⟩
    · rw [List.length_append, IPv4Header.bytes_length]
      omega
    · rw [f.header.wordAt_totalLength, BitVec.toInt_eq_toNat_cond, f.announced, if_pos (by omega), List.length_append]
  constructor
  · intro h
    have hlt := f.lt_of_setFlag h
    rw [bytes, setFlag_frame f.dst_length f.src_length (hsized hlt), map_eq_ok] at h
    obtain ⟨out, hout, hresult⟩ := h
    obtain ⟨segment', hrebuilt, hlt', rfl⟩ := (reflag_eq_ok f.read).mp hout
    exact ⟨hlt, segment', hrebuilt, hlt', (Option.some.inj hresult).symm⟩
  · rintro ⟨hlt, segment', hrebuilt, hlt', rfl⟩
    rw [bytes, setFlag_frame f.dst_length f.src_length (hsized hlt), map_eq_ok]
    exact ⟨_, (reflag_eq_ok f.read).mpr ⟨segment', hrebuilt, hlt', rfl⟩, rfl⟩

/-- The header of a rebuilt frame is one that is read. -/
theorem read_summed (size : Nat) : (f.header.flagged flag size).summed.Read := by
  have h := f.read
  have hoptions := h.options
  have hlength := h.headerLength
  have hofNat : (UInt8.ofNat (5 + f.header.options.length / 4)).toNat = 5 + f.header.options.length / 4 := by
    rw [UInt8.toNat_ofNat']
    omega
  refine ⟨h.version, ?_, h.flags, h.fragmentOffset, ?_⟩
  · show (UInt8.ofNat (5 + f.header.options.length / 4)).toNat < 2 ^ 4
    omega
  · show f.header.options.length = ((UInt8.ofNat (5 + f.header.options.length / 4)).toNat - 5) * 4
    omega

/-- A rebuilt frame, by its parts. -/
def result (flag : UInt8) (segment' : Bytes) (h : f.header.bytes.length + segment'.length < 2 ^ 15) :
    IPv4Frame where
  dst := f.dst
  src := f.src
  header := (f.header.flagged flag (f.header.bytes.length + segment'.length)).summed
  segment := segment'
  junk := []
  dst_length := f.dst_length
  src_length := f.src_length
  read := f.read_summed _
  announced := by
    show (BitVec.ofNat 16 _).toNat = _
    rw [BitVec.toNat_ofNat, Nat.mod_eq_of_lt (by omega), IPv4Header.bytes_length, IPv4Header.bytes_length]
    rfl

theorem bytes_result {segment' : Bytes} (h : f.header.bytes.length + segment'.length < 2 ^ 15) :
    (f.result flag segment' h).bytes = frame f.dst f.src (rewritten f.header flag segment') := by
  rw [bytes, rewritten]
  exact congrArg _ (List.append_nil _)

/-- What has been rebuilt is rebuilt with another flag as the frame itself is. -/
theorem setFlag_result {segment' : Bytes} (hlt : f.header.bytes.length + f.segment.length < 2 ^ 15)
    (hrebuilt : f.Rebuilt segment') (h : f.header.bytes.length + segment'.length < 2 ^ 15) (g : UInt8) :
    setFlag (f.result flag segment' h).bytes g = setFlag f.bytes g := by
  have hlength : (f.result flag segment' h).header.bytes.length = f.header.bytes.length := by
    rw [IPv4Header.bytes_length, IPv4Header.bytes_length]
    rfl
  have hfirst : setFlag f.bytes g = .ok (some (frame f.dst f.src (rewritten f.header g segment'))) :=
    f.setFlag_eq_ok.mpr ⟨hlt, segment', hrebuilt, h, rfl⟩
  have hlt' : (f.result flag segment' h).header.bytes.length + segment'.length < 2 ^ 15 := by
    rw [hlength]
    exact h
  rw [hfirst, (f.result flag segment' h).setFlag_eq_ok]
  refine ⟨hlt', segment', hrebuilt.again, hlt', ?_⟩
  rw [rewritten, rewritten, hlength]
  rfl

end IPv4Frame

theorem exists_frame {result : Packet} (h : setFlag packet flag = .ok (some result)) :
    ∃ f : IPv4Frame, packet = f.bytes := by
  obtain ⟨dst, src, data, junk, hdst, hsrc, hdata, rfl⟩ := frame_of_setFlag h
  rw [setFlag_frame hdst hsrc hdata, map_eq_ok] at h
  obtain ⟨out, hout, -⟩ := h
  obtain ⟨header, segment, hread, rfl⟩ := header_of_reflag hout
  have hint := hdata.announced
  rw [header.wordAt_totalLength, BitVec.toInt_eq_toNat_cond, List.length_append] at hint
  exact ⟨⟨dst, src, header, segment, junk, hdst, hsrc, hread, by split at hint <;> omega⟩, rfl⟩

/-- A packet that has been given a flag is not changed by giving it that flag. -/
theorem setFlag_self {result : Packet} (h : setFlag packet flag = .ok (some result)) :
    setFlag result flag = .ok (some result) := by
  obtain ⟨parts, rfl⟩ := exists_frame h
  obtain ⟨hlt, segment', hrebuilt, hlt', hresult⟩ := parts.setFlag_eq_ok.mp h
  have hbytes : result = (parts.result flag segment' hlt').bytes := hresult.trans (parts.bytes_result hlt').symm
  rw [hbytes, parts.setFlag_result hlt hrebuilt hlt', h, hbytes]

end Floodlight

end OFM.Controller
