import OFM.Controller.Lemmas.SetFlag

/-!
# What setting a flag leaves alone

The fields of a frame of IPv4 by their places in it, for frames given as bytes, and what they are in a frame given
by its parts. A flag overwrites the one before. The checksum of the header that is written verifies exactly when one
fold is enough for its sum. All other bytes of a frame are left alone exactly when its length is a
positive number of 16 bits and what the packet carries is written as it was read.
-/

namespace OFM.Controller.Floodlight
open OFM.Lib ByteBuffer

/-! ## Places -/

section Places

variable {packet : Packet} {flag : UInt8}

/-- What an Ethernet header is followed by. -/
def ipPacket (packet : Packet) : Bytes := packet.drop 14

/-- The header length, in words of four bytes. -/
def ihl (packet : Packet) : Nat := ((ipPacket packet).getD 0 0 &&& 0xf).toNat

/-- The bytes of a header as it is read: a header length below five counts as five. -/
def headerSize (packet : Packet) : Nat := 4 * max 5 (ihl packet)

def totalLength (packet : Packet) : Nat := (wordAt 2 2 (ipPacket packet)).toNat

def protocol (packet : Packet) : UInt8 := (ipPacket packet).getD 9 0

def source (packet : Packet) : BitVec 32 := wordAt 4 12 (ipPacket packet)

def destination (packet : Packet) : BitVec 32 := wordAt 4 16 (ipPacket packet)

/-- What a header is followed by, up to the total length. -/
def segment (packet : Packet) : Bytes := ((ipPacket packet).take (totalLength packet)).drop (headerSize packet)

def ipHeader (packet : Packet) : Bytes := (ipPacket packet).take (4 * ihl packet)

/-- An Ethernet frame with a packet of IPv4, which may be followed by more bytes. -/
structure IsIPv4 (packet : Packet) : Prop where
  etherType : wordAt 2 12 packet = Ethernet.typeIPv4
  ihl : 5 ≤ ihl packet
  header : 4 * Floodlight.ihl packet ≤ totalLength packet
  whole : 14 + totalLength packet ≤ packet.length

/-! ## Frames given by their parts -/

namespace IPv4Frame

variable (f : IPv4Frame)

theorem ipPacket_bytes : ipPacket f.bytes = f.header.bytes ++ (f.segment ++ f.junk) := by
  have hsplit : f.bytes = (f.dst ++ f.src ++ putShort Ethernet.typeIPv4) ++
      (f.header.bytes ++ (f.segment ++ f.junk)) := by
    simp only [bytes, frame, List.append_assoc]
  rw [hsplit]
  refine List.drop_left' ?_
  simp only [List.length_append, f.dst_length, f.src_length, putShort_length]

theorem ihl_bytes : ihl f.bytes = f.header.headerLength.toNat := by
  rw [ihl, ipPacket_bytes, IPv4Header.bytes_eq]
  exact congrArg UInt8.toNat (IPv4Header.read_first f.read.version f.read.headerLength).2

theorem headerSize_bytes : headerSize f.bytes = f.header.bytes.length := by
  have hoptions := f.read.options
  rw [headerSize, ihl_bytes, IPv4Header.bytes_length]
  omega

theorem totalLength_bytes : totalLength f.bytes = f.header.bytes.length + f.segment.length := by
  rw [totalLength, ipPacket_bytes, IPv4Header.wordAt_totalLength, f.announced]

theorem protocol_bytes : protocol f.bytes = f.header.protocol := by
  rw [protocol, ipPacket_bytes, IPv4Header.bytes_eq]
  rfl

theorem source_bytes : source f.bytes = f.header.sourceAddress := by
  have hsplit : f.header.bytes ++ (f.segment ++ f.junk) =
      (f.header.front ++ putShort f.header.checksum) ++ (wordBytes 4 f.header.sourceAddress ++
        (putInt f.header.destinationAddress ++ (f.header.options ++ (f.segment ++ f.junk)))) := by
    simp only [IPv4Header.bytes_split, IPv4Header.back, List.append_assoc]
    rfl
  rw [source, ipPacket_bytes, hsplit]
  exact wordAt_append rfl

theorem destination_bytes : destination f.bytes = f.header.destinationAddress := by
  have hsplit : f.header.bytes ++ (f.segment ++ f.junk) =
      (f.header.front ++ putShort f.header.checksum ++ putInt f.header.sourceAddress) ++
        (wordBytes 4 f.header.destinationAddress ++ (f.header.options ++ (f.segment ++ f.junk))) := by
    simp only [IPv4Header.bytes_split, IPv4Header.back, List.append_assoc]
    rfl
  rw [destination, ipPacket_bytes, hsplit]
  exact wordAt_append rfl

theorem segment_bytes : Floodlight.segment f.bytes = f.segment := by
  rw [Floodlight.segment, totalLength_bytes, headerSize_bytes, ipPacket_bytes, ← List.append_assoc,
    List.take_left' List.length_append, List.drop_left]

theorem ipHeader_bytes (h : 5 ≤ ihl f.bytes) : ipHeader f.bytes = f.header.bytes := by
  have hsize := f.headerSize_bytes
  rw [headerSize, Nat.max_eq_right h] at hsize
  rw [ipHeader, hsize, ipPacket_bytes, List.take_left]

end IPv4Frame

/-- A frame of IPv4 is made of parts. -/
theorem IsIPv4.exists_frame (h : IsIPv4 packet) : ∃ f : IPv4Frame, packet = f.bytes := by
  have hihl := h.ihl
  have hheader := h.header
  have hwhole := h.whole
  have hdst : (packet.take 6).length = 6 := List.length_take_of_le (by omega)
  have hsrc : ((packet.drop 6).take 6).length = 6 := List.length_take_of_le (by
    rw [List.length_drop]
    omega)
  have hip : totalLength packet ≤ (ipPacket packet).length := by
    rw [ipPacket, List.length_drop]
    omega
  have hframe : packet = frame (packet.take 6) ((packet.drop 6).take 6) (ipPacket packet) := by
    have hsplit := @wordAt_split 2 12 packet (by omega)
    have htake : packet.take 12 = packet.take 6 ++ (packet.drop 6).take 6 :=
      List.take_add (l := packet) (i := 6) (j := 6)
    rw [h.etherType, htake, List.append_assoc] at hsplit
    exact hsplit
  obtain ⟨data, junk, hdata, hlength⟩ : ∃ data junk, ipPacket packet = data ++ junk ∧
      data.length = totalLength packet :=
    ⟨_, _, (List.take_append_drop _ _).symm, List.length_take_of_le hip⟩
  obtain ⟨first, data, rfl⟩ : ∃ first data', data = first :: data' :=
    List.exists_cons_of_length_pos (by omega)
  have hfirst : Floodlight.ihl packet = (first &&& 0xf).toNat := by
    rw [Floodlight.ihl, hdata]
    rfl
  obtain ⟨header, segment, hread⟩ := @IPv4Header.exists_read data first (by omega) (by omega)
  obtain ⟨hheader, hbytes⟩ := IPv4Header.read_eq_ok.mp hread
  have hannounced : header.totalLength.toNat = header.bytes.length + segment.length := by
    rw [← List.length_append, ← hbytes, hlength, totalLength, hdata, hbytes, List.append_assoc,
      header.wordAt_totalLength]
  refine ⟨⟨_, _, header, segment, junk, hdst, hsrc, hheader, hannounced⟩, ?_⟩
  rw [IPv4Frame.bytes, ← hbytes, ← hdata]
  exact hframe

end Places

variable {packet result : Packet} {flag : UInt8}

/-! ## Samples -/

/-- A datagram without a payload, from port 4096 to port 4097. -/
def datagram (checksum : BitVec 16) : Packet :=
  frame [0, 0, 0, 0, 0, 2] [0, 0, 0, 0, 0, 1]
    ([0x45, 0, 0, 28, 0, 0, 0, 0, 64, 17, 0, 0, 10, 0, 0, 1, 10, 0, 0, 2] ++
      ([0x10, 0x00, 0x10, 0x01, 0, 8] ++ putShort checksum))

/-- The same with the flag that keeps a packet from being dropped. -/
def flaggedDatagram (checksum : BitVec 16) : Packet :=
  frame [0, 0, 0, 0, 0, 2] [0, 0, 0, 0, 0, 1]
    ([0x45, 8, 0, 28, 0, 0, 0, 0, 64, 17, 102, 199, 10, 0, 0, 1, 10, 0, 0, 2] ++
      ([0x10, 0x00, 0x10, 0x01, 0, 8] ++ putShort checksum))

/-- A header between two hosts, without a payload. -/
def headerOnly (identification checksum : BitVec 16) (flag : UInt8) : Packet :=
  frame [0, 0, 0, 0, 0, 2] [0, 0, 0, 0, 0, 1]
    ([0x45, flag, 0, 20] ++ putShort identification ++ [0, 0, 64, 253] ++ putShort checksum ++
      [192, 168, 0, 1, 192, 168, 0, 2])

/-! ## A second flag -/

theorem setFlag_setFlag (f g : UInt8) (h : setFlag packet f = .ok (some result)) :
    setFlag result g = setFlag packet g := by
  obtain ⟨parts, rfl⟩ := exists_frame h
  obtain ⟨hlt, segment', hrebuilt, hlt', rfl⟩ := parts.setFlag_eq_ok.mp h
  have hbytes : frame parts.dst parts.src (rewritten parts.header f segment') =
      (parts.result f segment' hlt').bytes := (parts.bytes_result hlt').symm
  rw [hbytes, parts.setFlag_result hlt hrebuilt hlt']

theorem setFlag_setFlag_sample :
    setFlag (flaggedDatagram 0x1234) PacketUtil.flagNone = setFlag (datagram 0x1234) PacketUtil.flagNone :=
  setFlag_setFlag PacketUtil.flagDoNotDrop PacketUtil.flagNone
    (show setFlag (datagram 0x1234) PacketUtil.flagDoNotDrop = .ok (some (flaggedDatagram 0x1234)) by
      decide)

/-! ## The checksum of the header -/

/-- The header that a packet is written with, but for its checksum: the flag in its place, a header
length below five made five, and the length of what is carried as it is written. -/
def flaggedHeader (packet : Packet) (flag : UInt8) : Bytes :=
  let ip := ipPacket packet
  let length := headerSize packet + IPv4Payload.rebuiltLength (protocol packet) (segment packet)
  [(ip.getD 0 0 &&& 0xf0) ||| UInt8.ofNat (max 5 (ihl packet)), flag] ++ putShort (BitVec.ofNat 16 length) ++
    (ip.drop 4).take 6 ++ putShort 0 ++ (ip.drop 12).take (headerSize packet - 12)

theorem verifies_summed_iff {header : IPv4Header} (hzero : header.checksum = 0)
    (hlength : header.options.length ≤ 40) :
    Verifies header.summed.bytes ↔ fold (wordSum header.bytes) < 2 ^ 16 := by
  have hsum : wordSum header.summed.bytes =
      wordSum header.bytes + (checksumOf (wordSum header.bytes)).toNat := by
    have heven : Even header.front.length := by
      rw [IPv4Header.front_length]
      decide
    have hinsert := @wordSum_insert header.front header.back heven (checksumOf (wordSum header.bytes))
    have hsplit : header.front ++ (wordBytes 2 0 ++ header.back) = header.bytes := by
      rw [IPv4Header.bytes_split header, hzero]
      rfl
    rw [List.append_assoc, List.append_assoc, hsplit] at hinsert
    rw [IPv4Header.bytes_split header.summed]
    exact hinsert
  have hle := wordSum_le header.bytes
  rw [IPv4Header.bytes_length] at hle
  rw [Verifies, hsum]
  exact foldAll_add_checksumOf (by omega)

theorem first_flagged {version headerLength : UInt8} (hversion : version.toNat < 2 ^ 4)
    (hlength : headerLength.toNat < 2 ^ 4) :
    (IPv4Header.first version headerLength &&& 0xf0) ||| UInt8.ofNat (max 5 headerLength.toNat) =
      IPv4Header.first version (UInt8.ofNat (max 5 headerLength.toNat)) := by
  have h : ∀ m n : Fin 16,
      (IPv4Header.first (UInt8.ofNat m) (UInt8.ofNat n) &&& 0xf0) ||| UInt8.ofNat (max 5 (UInt8.ofNat n).toNat) =
        IPv4Header.first (UInt8.ofNat m) (UInt8.ofNat (max 5 (UInt8.ofNat n).toNat)) := by
    decide
  simpa only [UInt8.ofNat_toNat] using h ⟨version.toNat, hversion⟩ ⟨headerLength.toNat, hlength⟩

theorem flaggedHeader_bytes (parts : IPv4Frame) (flag : UInt8) :
    flaggedHeader parts.bytes flag = (parts.header.flagged flag (parts.header.bytes.length +
      IPv4Payload.rebuiltLength parts.header.protocol parts.segment)).bytes := by
  have hoptions := parts.read.options
  have hlength : max 5 parts.header.headerLength.toNat = 5 + parts.header.options.length / 4 := by omega
  have hfront : ipPacket parts.bytes =
      ([IPv4Header.first parts.header.version parts.header.headerLength, parts.header.diffServ] ++
        putShort parts.header.totalLength) ++ ((putShort parts.header.identification ++
          putShort (IPv4Header.fragment parts.header.flags parts.header.fragmentOffset) ++
            [parts.header.ttl, parts.header.protocol]) ++ (putShort parts.header.checksum ++
              (parts.header.back ++ (parts.segment ++ parts.junk)))) := by
    simp only [parts.ipPacket_bytes, IPv4Header.bytes_split, IPv4Header.front, List.append_assoc]
  have hmiddle : ((ipPacket parts.bytes).drop 4).take 6 = putShort parts.header.identification ++
      putShort (IPv4Header.fragment parts.header.flags parts.header.fragmentOffset) ++
        [parts.header.ttl, parts.header.protocol] := by
    rw [hfront]
    exact take_drop_append rfl rfl
  have hback : ((ipPacket parts.bytes).drop 12).take (headerSize parts.bytes - 12) = parts.header.back := by
    have hsplit : ipPacket parts.bytes = (parts.header.front ++ putShort parts.header.checksum) ++
        (parts.header.back ++ (parts.segment ++ parts.junk)) := by
      simp only [parts.ipPacket_bytes, IPv4Header.bytes_split, List.append_assoc]
    have hsize : parts.header.back.length = headerSize parts.bytes - 12 := by
      rw [parts.headerSize_bytes, IPv4Header.bytes_length]
      simp only [IPv4Header.back, List.length_append, putInt_length]
      omega
    rw [hsplit]
    exact take_drop_append rfl hsize
  have hfirst : (ipPacket parts.bytes).getD 0 0 =
      IPv4Header.first parts.header.version parts.header.headerLength := by
    rw [hfront]
    rfl
  rw [flaggedHeader, hmiddle, hback, hfirst, parts.ihl_bytes, parts.headerSize_bytes, parts.protocol_bytes,
    parts.segment_bytes, first_flagged parts.read.version parts.read.headerLength, hlength,
    IPv4Header.bytes_split]
  simp only [IPv4Header.front, List.append_assoc]
  rfl

theorem verifies_iff (h : setFlag packet flag = .ok (some result)) :
    Verifies (ipHeader result) ↔ fold (wordSum (flaggedHeader packet flag)) < 2 ^ 16 := by
  obtain ⟨parts, rfl⟩ := exists_frame h
  obtain ⟨hlt, segment', hrebuilt, hlt', rfl⟩ := parts.setFlag_eq_ok.mp h
  have hoptions := parts.read.options
  have hread := parts.read.headerLength
  have hihl : 5 ≤ ihl (parts.result flag segment' hlt').bytes := by
    rw [IPv4Frame.ihl_bytes]
    show 5 ≤ (UInt8.ofNat (5 + parts.header.options.length / 4)).toNat
    rw [UInt8.toNat_ofNat']
    omega
  have hbytes : frame parts.dst parts.src (rewritten parts.header flag segment') =
      (parts.result flag segment' hlt').bytes := (parts.bytes_result hlt').symm
  rw [flaggedHeader_bytes, ← hrebuilt.length, hbytes, IPv4Frame.ipHeader_bytes _ hihl]
  exact verifies_summed_iff rfl (show parts.header.options.length ≤ 40 by omega)

theorem verifies_iff_sample :
    Verifies (ipHeader (flaggedDatagram 0x1234)) ↔
      fold (wordSum (flaggedHeader (datagram 0x1234) PacketUtil.flagDoNotDrop)) < 2 ^ 16 :=
  verifies_iff (show setFlag (datagram 0x1234) PacketUtil.flagDoNotDrop =
    .ok (some (flaggedDatagram 0x1234)) by decide)

/-- A header whose sum leaves a carry after one fold. -/
theorem not_verifies :
    ¬ ∀ (packet : Packet) (flag : UInt8) (result : Packet), setFlag packet flag = .ok (some result) →
      Verifies (ipHeader result) := by
  intro h
  have hflagged : setFlag (headerOnly 0xf892 0 0) PacketUtil.flagDoNotDrop =
      .ok (some (headerOnly 0xf892 0xffff PacketUtil.flagDoNotDrop)) := by decide
  exact absurd (h _ _ _ hflagged) (by decide)

/-! ## The other bytes -/

/-- The frame is cut to its packet, its ToS byte is the flag, and every byte but that one and the two of
the header checksum is as it was. -/
structure Untouched (packet result : Packet) (flag : UInt8) : Prop where
  length : result.length = 14 + totalLength packet
  diffServ : result[15]? = some flag
  others : ∀ i < 14 + totalLength packet, i ≠ 15 → i ≠ 24 → i ≠ 25 → result[i]? = packet[i]?

theorem getElem?_append_add {before after : Bytes} {n : Nat} (h : before.length = n) (i : Nat) :
    (before ++ after)[n + i]? = after[i]? := by
  rw [List.getElem?_append_right (by omega), h, Nat.add_sub_cancel_left]

/-- A byte of a frame behind its Ethernet header. -/
theorem getElem?_frame {dst src data : Bytes} (hdst : dst.length = 6) (hsrc : src.length = 6) (i : Nat) :
    (frame dst src data)[14 + i]? = data[i]? := by
  have hsplit : frame dst src data = (dst ++ src ++ putShort Ethernet.typeIPv4) ++ data := by
    simp only [frame, List.append_assoc]
  have hlength : (dst ++ src ++ putShort Ethernet.typeIPv4).length = 14 := by
    simp only [List.length_append, hdst, hsrc, putShort_length]
  rw [hsplit, getElem?_append_add hlength]

/-- Two packets that differ in the ToS byte and the two of the checksum. -/
theorem getElem?_header {first tos tos' : UInt8} {middle checksum checksum' after : Bytes} {i : Nat}
    (hmiddle : middle.length = 8) (hchecksum : checksum.length = 2) (hchecksum' : checksum'.length = 2)
    (htos : i ≠ 1) (hlow : i ≠ 10) (hhigh : i ≠ 11) :
    (first :: tos' :: (middle ++ (checksum' ++ after)))[i]? =
      (first :: tos :: (middle ++ (checksum ++ after)))[i]? := by
  match i with
  | 0 => rfl
  | 1 => exact absurd rfl htos
  | i + 2 =>
      simp only [List.getElem?_cons_succ]
      by_cases hlt : i < middle.length
      · rw [List.getElem?_append_left hlt, List.getElem?_append_left hlt]
      · rw [List.getElem?_append_right (by omega), List.getElem?_append_right (by omega),
          List.getElem?_append_right (by omega), List.getElem?_append_right (by omega), hchecksum, hchecksum']

theorem flagged_of_ihl (parts : IPv4Frame) (hihl : 5 ≤ ihl parts.bytes) :
    parts.header.flagged flag (parts.header.bytes.length + parts.segment.length) =
      { parts.header with diffServ := flag, checksum := 0 } := by
  have hoptions := parts.read.options
  have hlength : UInt8.ofNat (5 + parts.header.options.length / 4) = parts.header.headerLength := by
    rw [parts.ihl_bytes] at hihl
    rw [hoptions, show 5 + (parts.header.headerLength.toNat - 5) * 4 / 4 = parts.header.headerLength.toNat by
      omega, UInt8.ofNat_toNat]
  have htotal : BitVec.ofNat 16 (parts.header.bytes.length + parts.segment.length) =
      parts.header.totalLength := by
    rw [← parts.announced, BitVec.ofNat_toNat, BitVec.setWidth_eq]
  rw [IPv4Header.flagged, hlength, htotal]

/-- A header between its ToS byte and its checksum. -/
def middle (header : IPv4Header) : Bytes :=
  putShort header.totalLength ++ (putShort header.identification ++
    putShort (IPv4Header.fragment header.flags header.fragmentOffset) ++ [header.ttl, header.protocol])

theorem bytes_append (header : IPv4Header) (rest : Bytes) :
    header.bytes ++ rest = IPv4Header.first header.version header.headerLength :: header.diffServ ::
      (middle header ++ (putShort header.checksum ++ (header.back ++ rest))) := by
  simp only [IPv4Header.bytes_split, IPv4Header.front, middle, List.append_assoc, List.cons_append,
    List.nil_append]

/-- With its segment as it was, a frame is untouched. -/
theorem untouched_rewritten (parts : IPv4Frame) (hihl : 5 ≤ ihl parts.bytes) :
    Untouched parts.bytes (frame parts.dst parts.src (rewritten parts.header flag parts.segment)) flag := by
  have hflagged : (rewritten parts.header flag parts.segment).length =
      parts.header.bytes.length + parts.segment.length := by
    rw [rewritten, List.length_append, IPv4Header.bytes_length, IPv4Header.bytes_length]
    rfl
  refine ⟨?_, ?_, ?_⟩
  · rw [frame_length parts.dst_length parts.src_length, hflagged, parts.totalLength_bytes]
  · rw [rewritten, bytes_append]
    exact getElem?_frame parts.dst_length parts.src_length 1
  · intro i hi htos hlow hhigh
    rw [parts.totalLength_bytes] at hi
    by_cases hlt : i < 14
    · have hprefix : ∀ data, (frame parts.dst parts.src data)[i]? =
          (parts.dst ++ parts.src ++ putShort Ethernet.typeIPv4)[i]? := fun data => by
        have hlength : (parts.dst ++ parts.src ++ putShort Ethernet.typeIPv4).length = 14 := by
          simp only [List.length_append, parts.dst_length, parts.src_length, putShort_length]
        have hsplit : frame parts.dst parts.src data =
            (parts.dst ++ parts.src ++ putShort Ethernet.typeIPv4) ++ data := by
          simp only [frame, List.append_assoc]
        rw [hsplit, List.getElem?_append_left (by omega)]
      rw [IPv4Frame.bytes, hprefix, hprefix]
    · obtain ⟨j, rfl⟩ : ∃ j, i = 14 + j := ⟨i - 14, by omega⟩
      have hj : j < (parts.header.bytes ++ parts.segment).length := by
        rw [List.length_append]
        omega
      rw [IPv4Frame.bytes, getElem?_frame parts.dst_length parts.src_length,
        getElem?_frame parts.dst_length parts.src_length, List.getElem?_append_left hj, rewritten,
        flagged_of_ihl parts hihl, bytes_append, bytes_append]
      exact getElem?_header rfl rfl rfl (by omega) (by omega) (by omega)

/-- A segment that was changed is seen. -/
theorem segment_of_untouched {parts : IPv4Frame} {segment' : Bytes}
    (h : Untouched parts.bytes (frame parts.dst parts.src (rewritten parts.header flag segment')) flag) :
    segment' = parts.segment := by
  have hsummed : (parts.header.flagged flag (parts.header.bytes.length + segment'.length)).summed.bytes.length =
      parts.header.bytes.length := by
    rw [IPv4Header.bytes_length, IPv4Header.bytes_length]
    rfl
  have hlength := h.length
  rw [frame_length parts.dst_length parts.src_length, rewritten, List.length_append, hsummed,
    parts.totalLength_bytes] at hlength
  have hheader := parts.header.bytes_length
  refine List.ext_getElem? fun j => ?_
  by_cases hj : j < parts.segment.length
  · have hothers := h.others (14 + (parts.header.bytes.length + j)) (by rw [parts.totalLength_bytes]; omega)
      (by omega) (by omega) (by omega)
    rw [IPv4Frame.bytes, getElem?_frame parts.dst_length parts.src_length,
      getElem?_frame parts.dst_length parts.src_length, rewritten, getElem?_append_add hsummed,
      List.append_assoc, getElem?_append_add rfl, List.getElem?_append_left hj] at hothers
    exact hothers
  · rw [List.getElem?_eq_none (by omega), List.getElem?_eq_none (by omega)]

theorem untouched_iff (flag : UInt8) (h : IsIPv4 packet) :
    (∃ result, setFlag packet flag = .ok (some result) ∧ Untouched packet result flag) ↔
      totalLength packet < 2 ^ 15 ∧
        IPv4Payload.Survives (protocol packet) (source packet) (destination packet) (segment packet) := by
  obtain ⟨parts, rfl⟩ := h.exists_frame
  rw [parts.totalLength_bytes, parts.protocol_bytes, parts.source_bytes, parts.destination_bytes,
    parts.segment_bytes]
  constructor
  · rintro ⟨result, hresult, huntouched⟩
    obtain ⟨hlt, segment', hrebuilt, hlt', rfl⟩ := parts.setFlag_eq_ok.mp hresult
    obtain rfl := segment_of_untouched huntouched
    exact ⟨hlt, (IPv4Payload.rebuilt_self_iff (by omega)).mp hrebuilt⟩
  · rintro ⟨hlt, hsurvives⟩
    have hrebuilt := (IPv4Payload.rebuilt_self_iff (by omega)).mpr hsurvives
    exact ⟨_, parts.setFlag_eq_ok.mpr ⟨hlt, parts.segment, hrebuilt, hlt, rfl⟩, untouched_rewritten parts h.ihl⟩

theorem survives_datagram :
    IPv4Payload.Survives (protocol (datagram 0x1234)) (source (datagram 0x1234))
      (destination (datagram 0x1234)) (Floodlight.segment (datagram 0x1234)) := by
  have hprotocol : protocol (datagram 0x1234) = 17 := rfl
  rw [IPv4Payload.Survives, hprotocol, if_neg (by decide), if_neg (by decide), if_pos rfl]
  refine ⟨by decide, by decide, ?_⟩
  rw [if_neg (by decide)]
  exact Or.inl (by decide)

theorem untouched_iff_sample :
    ∃ result, setFlag (datagram 0x1234) PacketUtil.flagDoNotDrop = .ok (some result) ∧
      Untouched (datagram 0x1234) result PacketUtil.flagDoNotDrop :=
  (untouched_iff PacketUtil.flagDoNotDrop ⟨by decide, by decide, by decide, by decide⟩).mpr
    ⟨by decide, survives_datagram⟩

/-- A datagram without a checksum is given one. -/
theorem not_untouched :
    ¬ ∀ (packet : Packet) (flag : UInt8), IsIPv4 packet →
      ∃ result, setFlag packet flag = .ok (some result) ∧ Untouched packet result flag := by
  intro h
  obtain ⟨result, hresult, huntouched⟩ := h (datagram 0) PacketUtil.flagDoNotDrop
    ⟨by decide, by decide, by decide, by decide⟩
  have hflagged : setFlag (datagram 0) PacketUtil.flagDoNotDrop = .ok (some (flaggedDatagram 0xcbda)) := by
    decide
  rw [hflagged] at hresult
  cases hresult
  exact absurd (huntouched.others 40 (by decide) (by decide) (by decide) (by decide)) (by decide)

end OFM.Controller.Floodlight
