import OFM.Controller.SetFlag
import OFM.Controller.Lemmas.DHCP

/-!
# Segments that are read and written again

What ICMP, TCP and UDP make of the bytes they were read from: the bytes a packet is written to, when
they are the ones that were read, and that a second time changes nothing.
-/

namespace OFM.Controller
open OFM.Lib ByteBuffer

variable {data rest bytes out : Bytes} {k : Nat}

/-! ## Checksums -/

/-- The checksum that is written for one that was read. -/
def computed (checksum : BitVec 16) (accumulation : Nat) : BitVec 16 :=
  if checksum = 0 then checksumOf accumulation else checksum

theorem withChecksum_append {before after : Bytes} {index accumulation : Nat} (checksum : BitVec 16)
    (h : before.length = index) :
    withChecksum index checksum accumulation (before ++ (putShort checksum ++ after)) =
      before ++ (putShort (computed checksum accumulation) ++ after) := by
  have hdrop : (before ++ (putShort checksum ++ after)).drop (index + 2) = after := by
    rw [← List.drop_drop, List.drop_left' h]
    exact List.drop_left' (putShort_length checksum)
  rw [withChecksum, computed]
  split
  · rw [List.take_left' h, hdrop, List.append_assoc]
  · rfl

theorem computed_eq_self_iff {checksum : BitVec 16} {accumulation : Nat} :
    computed checksum accumulation = checksum ↔ checksum ≠ 0 ∨ checksumOf accumulation = 0 := by
  rw [computed]
  split
  · rename_i hzero
    rw [hzero]
    simp only [ne_eq, not_true_eq_false, false_or]
  · rename_i hzero
    simp only [hzero, ne_eq, not_false_eq_true, true_or]

/-- A checksum that was written is kept the next time. -/
theorem computed_computed (accumulation : BitVec 16 → Nat) (checksum : BitVec 16) :
    computed (computed checksum (accumulation checksum))
        (accumulation (computed checksum (accumulation checksum))) =
      computed checksum (accumulation checksum) := by
  rw [computed_eq_self_iff]
  by_cases h : computed checksum (accumulation checksum) = 0
  · refine Or.inr ?_
    have hzero : checksum = 0 := by
      rw [computed] at h
      split at h
      · assumption
      · exact h
    subst hzero
    rw [h]
    rwa [computed, if_pos rfl] at h
  · exact Or.inl h

/-- The checksum of a segment is not zero, or computed as zero. -/
def ChecksumKept (index pseudo : Nat) (segment : Bytes) : Prop :=
  wordAt 2 index segment ≠ 0 ∨ checksumOf (pseudo + wordSum segment) = 0

instance (index pseudo : Nat) (segment : Bytes) : Decidable (ChecksumKept index pseudo segment) :=
  inferInstanceAs (Decidable (_ ∨ _))

/-! ## ICMP -/

namespace ICMP

variable {icmp : ICMP}

def layout (icmp : ICMP) (checksum : BitVec 16) : Bytes :=
  [icmp.icmpType, icmp.icmpCode] ++ (putShort checksum ++ icmp.payload)

theorem read_eq_ok :
    ICMP.read data = .ok (icmp, rest) ↔ data = icmp.layout icmp.checksum ∧ rest = [] := by
  simp only [ICMP.read, Reader.bind_eq_ok, getByte_eq_ok, getShort_eq_ok, Reader.remaining_eq_ok,
    Reader.pure_eq_ok]
  constructor
  · rintro ⟨type, _, rfl, code, _, rfl, checksum, _, rfl, payload, _, ⟨rfl, rfl⟩, rfl, rfl⟩
    exact ⟨rfl, rfl⟩
  · rintro ⟨rfl, rfl⟩
    exact ⟨_, _, rfl, _, _, rfl, _, _, rfl, _, _, ⟨rfl, rfl⟩, rfl, rfl⟩

theorem layout_length (checksum : BitVec 16) :
    (icmp.layout checksum).length = 4 + icmp.payload.length := by
  simp only [layout, List.length_append, List.length_cons, List.length_nil, putShort_length]
  omega

theorem wordAt_layout (checksum : BitVec 16) : wordAt 2 2 (icmp.layout checksum) = checksum :=
  wordAt_append rfl

theorem serialize_eq :
    icmp.serialize = .ok (icmp.layout (computed icmp.checksum (wordSum (icmp.layout icmp.checksum)))) := by
  have hlayout : [icmp.icmpType, icmp.icmpCode] ++ putShort icmp.checksum ++ icmp.payload =
      icmp.layout icmp.checksum := List.append_assoc ..
  have hfilled : filled (4 + icmp.payload.length) (icmp.layout icmp.checksum) =
      .ok (icmp.layout icmp.checksum) := filled_exact (layout_length _)
  rw [serialize, hlayout, hfilled]
  exact congrArg Except.ok (withChecksum_append _ rfl)

/-- What a segment is written to again. -/
def Rebuilt (data out : Bytes) : Prop :=
  ∃ icmp : ICMP, data = icmp.layout icmp.checksum ∧
    out = icmp.layout (computed icmp.checksum (wordSum (icmp.layout icmp.checksum)))

theorem rebuilt_iff :
    Rebuilt data out ↔ ∃ icmp rest, ICMP.read data = .ok (icmp, rest) ∧ icmp.serialize = .ok out := by
  constructor
  · rintro ⟨icmp, hdata, rfl⟩
    exact ⟨icmp, [], read_eq_ok.mpr ⟨hdata, rfl⟩, serialize_eq⟩
  · rintro ⟨icmp, rest, hread, hout⟩
    obtain ⟨hdata, -⟩ := read_eq_ok.mp hread
    rw [serialize_eq] at hout
    exact ⟨icmp, hdata, (Except.ok.inj hout).symm⟩

theorem Rebuilt.again (h : Rebuilt data out) : Rebuilt out out := by
  obtain ⟨icmp, rfl, rfl⟩ := h
  refine ⟨{ icmp with checksum := computed icmp.checksum (wordSum (icmp.layout icmp.checksum)) }, rfl, ?_⟩
  exact congrArg icmp.layout
    (computed_computed (fun checksum => wordSum (icmp.layout checksum)) icmp.checksum).symm

theorem Rebuilt.length (h : Rebuilt data out) : out.length = data.length := by
  obtain ⟨icmp, rfl, rfl⟩ := h
  rw [layout_length, layout_length]

/-- A segment is left as it is: its header is whole, and a checksum of zero is computed as zero. -/
def Survives (segment : Bytes) : Prop := 4 ≤ segment.length ∧ ChecksumKept 2 0 segment

theorem rebuilt_self_iff : Rebuilt data data ↔ Survives data := by
  constructor
  · rintro ⟨icmp, hdata, hout⟩
    have hchecksum : computed icmp.checksum (wordSum (icmp.layout icmp.checksum)) = icmp.checksum := by
      rw [← @wordAt_layout icmp (computed _ _), ← hout, hdata, wordAt_layout]
    refine ⟨by rw [hdata, layout_length]; omega, ?_⟩
    rw [ChecksumKept, hdata, wordAt_layout, Nat.zero_add]
    exact computed_eq_self_iff.mp hchecksum
  · rintro ⟨hlength, hkept⟩
    obtain ⟨type, code, rest, rfl⟩ : ∃ type code rest, data = type :: code :: rest := by
      match data, hlength with
      | type :: code :: rest, _ => exact ⟨type, code, rest, rfl⟩
    rw [List.length_cons, List.length_cons] at hlength
    obtain ⟨checksum, payload, rfl⟩ := exists_putShort rest (by omega)
    refine ⟨⟨type, code, checksum, payload⟩, rfl, ?_⟩
    have hlayout : type :: code :: (putShort checksum ++ payload) =
        layout ⟨type, code, checksum, payload⟩ checksum := rfl
    rw [hlayout, ChecksumKept, wordAt_layout, Nat.zero_add] at hkept
    rw [hlayout, computed_eq_self_iff.mpr hkept]

end ICMP

/-! ## TCP -/

namespace TCP

variable {tcp : TCP}

def layout (tcp : TCP) (word checksum : BitVec 16) (options : Bytes) : Bytes :=
  (putShort tcp.sourcePort ++ putShort tcp.destinationPort ++ putInt tcp.sequence ++
    putInt tcp.acknowledge ++ putShort word ++ putShort tcp.windowSize) ++
    (putShort checksum ++ (putShort tcp.urgentPointer ++ (options ++ tcp.payload)))

/-- The options that are read where a number of bytes is left. -/
def optLength (dataOffset left : Nat) : Nat :=
  if 5 < dataOffset then min (4 * dataOffset - 20) left else 0

/-- What is read of a header: the word with the data offset, and as many options as there are. -/
structure ReadFrom (tcp : TCP) (word : BitVec 16) : Prop where
  dataOffset : tcp.dataOffset = (word >>> 12).toNat
  flags : tcp.flags = word &&& 0x1ff
  options : tcp.options.length = optLength tcp.dataOffset (tcp.options.length + tcp.payload.length)

theorem read_eq_ok :
    TCP.read data = .ok (tcp, rest) ↔
      ∃ word, tcp.ReadFrom word ∧ data = tcp.layout word tcp.checksum tcp.options ∧ rest = [] := by
  simp only [TCP.read, Reader.bind_eq_ok, getShort_eq_ok, getInt_eq_ok, Reader.remaining_eq_ok,
    Reader.pure_eq_ok]
  constructor
  · rintro ⟨sourcePort, _, rfl, destinationPort, _, rfl, sequence, _, rfl, acknowledge, _, rfl,
      word, _, rfl, windowSize, _, rfl, checksum, _, rfl, urgentPointer, left, rfl, _, _, ⟨rfl, rfl⟩,
      rfl, rfl⟩
    refine ⟨word, ⟨rfl, rfl, ?_⟩, ?_, rfl⟩
    · have hle : optLength (word >>> 12).toNat left.length ≤ left.length := by
        rw [optLength]
        split <;> omega
      rw [← List.length_append, List.take_append_drop]
      exact List.length_take_of_le hle
    · simp only [layout, List.take_append_drop, List.append_assoc]
  · rintro ⟨word, h, rfl, rfl⟩
    have hoptions := h.options
    rw [optLength, ← List.length_append, h.dataOffset] at hoptions
    refine ⟨tcp.sourcePort, _, by simp only [layout, List.append_assoc]; rfl, _, _, rfl, _, _, rfl, _, _,
      rfl, _, _, rfl, _, _, rfl, _, _, rfl, _, _, rfl, _, _, ⟨rfl, rfl⟩, ?_, rfl⟩
    rw [← hoptions, List.take_left, List.drop_left, ← h.dataOffset, ← h.flags]

theorem layout_length (word checksum : BitVec 16) (options : Bytes) :
    (tcp.layout word checksum options).length = 20 + options.length + tcp.payload.length := by
  simp only [layout, List.length_append, putShort_length, putInt_length]
  omega

theorem wordAt_word (word checksum : BitVec 16) (options : Bytes) :
    wordAt 2 12 (tcp.layout word checksum options) = word := by
  have hsplit : tcp.layout word checksum options =
      (putShort tcp.sourcePort ++ putShort tcp.destinationPort ++ putInt tcp.sequence ++
        putInt tcp.acknowledge) ++ (wordBytes 2 word ++ (putShort tcp.windowSize ++
          (putShort checksum ++ (putShort tcp.urgentPointer ++ (options ++ tcp.payload))))) := by
    simp only [layout, List.append_assoc]
    rfl
  rw [hsplit]
  exact wordAt_append rfl

theorem wordAt_checksum (word checksum : BitVec 16) (options : Bytes) :
    wordAt 2 16 (tcp.layout word checksum options) = checksum :=
  wordAt_append rfl

theorem withChecksum_layout (word checksum : BitVec 16) (options : Bytes) (accumulation : Nat) :
    withChecksum 16 checksum accumulation (tcp.layout word checksum options) =
      tcp.layout word (computed checksum accumulation) options :=
  withChecksum_append checksum rfl

/-- The data offset that is written. -/
def offset (tcp : TCP) : Nat := if tcp.dataOffset = 0 then 5 else tcp.dataOffset

/-- The word that is written. -/
def word (tcp : TCP) : BitVec 16 := tcp.flags ||| BitVec.ofNat 16 tcp.offset <<< 12

/-- The options that are written. -/
def padded (tcp : TCP) : Bytes :=
  if 5 < tcp.offset then tcp.options ++ List.replicate (4 * tcp.offset - 20 - tcp.options.length) 0 else []

/-- The sum over what is written, with a checksum. -/
def sum (tcp : TCP) (sourceAddress destinationAddress : BitVec 32) (checksum : BitVec 16) : Nat :=
  pseudoHeader sourceAddress destinationAddress 6 (4 * tcp.offset + tcp.payload.length) +
    wordSum (tcp.layout tcp.word checksum tcp.padded)

theorem ReadFrom.options_le {word : BitVec 16} (h : tcp.ReadFrom word) :
    tcp.options.length ≤ 4 * tcp.offset - 20 := by
  rw [h.options, optLength, offset]
  split <;> split <;> omega

theorem padded_length {word : BitVec 16} (h : tcp.ReadFrom word) (hoffset : 5 ≤ tcp.offset) :
    tcp.padded.length = 4 * tcp.offset - 20 := by
  have hle := h.options_le
  rw [padded]
  split
  · rw [List.length_append, List.length_replicate]
    omega
  · rw [List.length_nil]
    omega

theorem serialize_eq_ok {word : BitVec 16} (h : tcp.ReadFrom word)
    {sourceAddress destinationAddress : BitVec 32} :
    tcp.serialize sourceAddress destinationAddress = .ok out ↔
      5 ≤ tcp.offset ∧ out = tcp.layout tcp.word
        (computed tcp.checksum (tcp.sum sourceAddress destinationAddress tcp.checksum)) tcp.padded := by
  have hlayout : putShort tcp.sourcePort ++ putShort tcp.destinationPort ++ putInt tcp.sequence ++
      putInt tcp.acknowledge ++ putShort tcp.word ++ putShort tcp.windowSize ++ putShort tcp.checksum ++
      putShort tcp.urgentPointer ++ tcp.padded ++ tcp.payload =
        tcp.layout tcp.word tcp.checksum tcp.padded := by
    simp only [layout, List.append_assoc]
  have hserialize : tcp.serialize sourceAddress destinationAddress =
      (do
        let data ← filled (4 * tcp.offset + tcp.payload.length : Nat)
          (tcp.layout tcp.word tcp.checksum tcp.padded)
        pure (withChecksum 16 tcp.checksum (pseudoHeader sourceAddress destinationAddress 6
          (4 * tcp.offset + tcp.payload.length) + wordSum data) data)) := by
    rw [← hlayout]
    rfl
  have hlength := @layout_length tcp tcp.word tcp.checksum tcp.padded
  rw [hserialize]
  by_cases hoffset : 5 ≤ tcp.offset
  · rw [padded_length h hoffset] at hlength
    have hfilled : filled (4 * tcp.offset + tcp.payload.length : Nat)
        (tcp.layout tcp.word tcp.checksum tcp.padded) = .ok (tcp.layout tcp.word tcp.checksum tcp.padded) :=
      filled_exact (by omega)
    rw [hfilled]
    show Except.ok (withChecksum _ _ _ _) = _ ↔ _
    rw [withChecksum_layout, Except.ok.injEq, eq_comm]
    exact (and_iff_right hoffset).symm
  · have hpadded : tcp.padded = [] := if_neg (by omega)
    rw [hpadded, List.length_nil] at hlength
    refine ⟨fun hout => ?_, fun h => absurd h.1 hoffset⟩
    cases hfilled : filled (4 * tcp.offset + tcp.payload.length : Nat)
        (tcp.layout tcp.word tcp.checksum tcp.padded) with
    | error e =>
        rw [hfilled] at hout
        cases hout
    | ok data =>
        -- a header that is shorter than its fields overflows
        have hle := (filled_eq_ok.mp hfilled).1
        rw [hpadded] at hle
        omega

/-! ### The word with the data offset -/

theorem toNat_low (word : BitVec 16) : (word &&& 0x1ff).toNat = word.toNat % 2 ^ 9 := by
  rw [BitVec.toNat_and]
  exact Nat.and_two_pow_sub_one_eq_mod word.toNat 9

theorem toNat_high (word : BitVec 16) : (word >>> 12).toNat = word.toNat / 2 ^ 12 := by
  rw [BitVec.toNat_ushiftRight, Nat.shiftRight_eq_div_pow]

theorem ReadFrom.flags_lt {word : BitVec 16} (h : tcp.ReadFrom word) : tcp.flags.toNat < 2 ^ 9 := by
  rw [h.flags, toNat_low]
  exact Nat.mod_lt _ (by decide)

theorem ReadFrom.offset_lt {word : BitVec 16} (h : tcp.ReadFrom word) : tcp.offset < 2 ^ 4 := by
  have hoffset := h.dataOffset
  rw [toNat_high] at hoffset
  have hlt := word.isLt
  rw [offset]
  split <;> omega

theorem toNat_word {word : BitVec 16} (h : tcp.ReadFrom word) :
    tcp.word.toNat = tcp.offset * 2 ^ 12 + tcp.flags.toNat := by
  have hflags := h.flags_lt
  have hoffset := h.offset_lt
  have hshift : (BitVec.ofNat 16 tcp.offset <<< 12).toNat = tcp.offset <<< 12 := by
    rw [BitVec.toNat_shiftLeft, BitVec.toNat_ofNat, Nat.shiftLeft_eq, Nat.shiftLeft_eq]
    omega
  rw [TCP.word, BitVec.toNat_or, hshift, Nat.or_comm, ← Nat.shiftLeft_add_eq_or_of_lt (by omega),
    Nat.shiftLeft_eq]

/-- The word is the one that was read if the data offset was not zero and no reserved bit was set. -/
theorem word_eq_iff {word : BitVec 16} (h : tcp.ReadFrom word) :
    tcp.word = word ↔ tcp.offset = tcp.dataOffset ∧ (word >>> 9) &&& 7 = 0 := by
  have hreserved : ((word >>> 9) &&& 7).toNat = word.toNat / 2 ^ 9 % 2 ^ 3 := by
    rw [BitVec.toNat_and, BitVec.toNat_ushiftRight, Nat.shiftRight_eq_div_pow]
    exact Nat.and_two_pow_sub_one_eq_mod _ 3
  have hflags : tcp.flags.toNat = word.toNat % 2 ^ 9 := by rw [h.flags, toNat_low]
  have hoffset : tcp.dataOffset = word.toNat / 2 ^ 12 := by rw [h.dataOffset, toNat_high]
  have hlt := word.isLt
  rw [← BitVec.toNat_inj, toNat_word h, ← BitVec.toNat_inj (x := (word >>> 9) &&& 7), hreserved, hflags]
  have hzero : (0 : BitVec 16).toNat = 0 := rfl
  omega

/-! ### A second time -/

/-- The header that is read where one was written. -/
def rewritten (tcp : TCP) (checksum : BitVec 16) : TCP :=
  { tcp with dataOffset := tcp.offset, checksum, options := tcp.padded }

theorem rewritten_offset (hoffset : 5 ≤ tcp.offset) (checksum : BitVec 16) :
    (tcp.rewritten checksum).offset = tcp.offset :=
  if_neg (show tcp.offset ≠ 0 by omega)

theorem rewritten_word (hoffset : 5 ≤ tcp.offset) (checksum : BitVec 16) :
    (tcp.rewritten checksum).word = tcp.word := by
  rw [TCP.word, rewritten_offset hoffset]
  rfl

theorem rewritten_padded {word : BitVec 16} (h : tcp.ReadFrom word) (hoffset : 5 ≤ tcp.offset)
    (checksum : BitVec 16) : (tcp.rewritten checksum).padded = tcp.padded := by
  have hlength := padded_length h hoffset
  rw [padded, rewritten_offset hoffset]
  show (if 5 < tcp.offset then tcp.padded ++ List.replicate (4 * tcp.offset - 20 - tcp.padded.length) 0
    else []) = tcp.padded
  rw [hlength, Nat.sub_self]
  split
  · exact List.append_nil _
  · exact (List.length_eq_zero_iff.mp (by omega)).symm

theorem rewritten_sum {word : BitVec 16} (h : tcp.ReadFrom word) (hoffset : 5 ≤ tcp.offset)
    (sourceAddress destinationAddress : BitVec 32) (checksum : BitVec 16) :
    (tcp.rewritten checksum).sum sourceAddress destinationAddress =
      tcp.sum sourceAddress destinationAddress := by
  funext sumChecksum
  rw [sum, rewritten_offset hoffset, rewritten_word hoffset, rewritten_padded h hoffset]
  rfl

theorem ReadFrom.rewritten {word : BitVec 16} (h : tcp.ReadFrom word) (hoffset : 5 ≤ tcp.offset)
    (checksum : BitVec 16) : (tcp.rewritten checksum).ReadFrom tcp.word where
  dataOffset := by
    have hflags := h.flags_lt
    show tcp.offset = _
    rw [toNat_high, toNat_word h]
    omega
  flags := by
    have hflags := h.flags_lt
    show tcp.flags = _
    rw [← BitVec.toNat_inj, toNat_low, toNat_word h]
    omega
  options := by
    have hlength := padded_length h hoffset
    show tcp.padded.length = optLength tcp.offset (tcp.padded.length + tcp.payload.length)
    rw [optLength]
    split <;> omega

/-! ### Segments -/

variable {sourceAddress destinationAddress : BitVec 32}

/-- What a segment is written to again. -/
def Rebuilt (sourceAddress destinationAddress : BitVec 32) (data out : Bytes) : Prop :=
  ∃ (tcp : TCP) (word : BitVec 16), tcp.ReadFrom word ∧ data = tcp.layout word tcp.checksum tcp.options ∧
    5 ≤ tcp.offset ∧ out = tcp.layout tcp.word
      (computed tcp.checksum (tcp.sum sourceAddress destinationAddress tcp.checksum)) tcp.padded

theorem rebuilt_iff :
    Rebuilt sourceAddress destinationAddress data out ↔
      ∃ tcp rest, TCP.read data = .ok (tcp, rest) ∧
        tcp.serialize sourceAddress destinationAddress = .ok out := by
  constructor
  · rintro ⟨tcp, word, h, hdata, hout⟩
    exact ⟨tcp, [], read_eq_ok.mpr ⟨word, h, hdata, rfl⟩, (serialize_eq_ok h).mpr hout⟩
  · rintro ⟨tcp, rest, hread, hout⟩
    obtain ⟨word, h, hdata, -⟩ := read_eq_ok.mp hread
    exact ⟨tcp, word, h, hdata, (serialize_eq_ok h).mp hout⟩

/-- A segment that has been written is written to itself. -/
theorem Rebuilt.again (h : Rebuilt sourceAddress destinationAddress data out) :
    Rebuilt sourceAddress destinationAddress out out := by
  obtain ⟨tcp, word, h, rfl, hoffset, rfl⟩ := h
  refine ⟨tcp.rewritten (computed tcp.checksum (tcp.sum _ _ tcp.checksum)), tcp.word,
    h.rewritten hoffset _, rfl, ?_, ?_⟩
  · rw [rewritten_offset hoffset]
    exact hoffset
  · rw [rewritten_word hoffset, rewritten_padded h hoffset, rewritten_sum h hoffset]
    exact congrArg (fun checksum => tcp.layout tcp.word checksum tcp.padded)
      (computed_computed (tcp.sum sourceAddress destinationAddress) tcp.checksum).symm

/-- How long the bytes are that a segment is written to: options that are cut short are padded. -/
def rebuiltLength (segment : Bytes) : Nat :=
  max segment.length (4 * (wordAt 2 12 segment >>> 12).toNat)

theorem Rebuilt.length (h : Rebuilt sourceAddress destinationAddress data out) :
    out.length = rebuiltLength data := by
  obtain ⟨tcp, word, h, rfl, hoffset, rfl⟩ := h
  have hoptions := h.options
  rw [rebuiltLength, wordAt_word, ← h.dataOffset, layout_length, layout_length, padded_length h hoffset]
  rw [optLength] at hoptions
  rw [offset] at hoffset ⊢
  split at hoptions <;> split <;> omega

/-- A segment is left as it is: its header is whole, its options are not cut short, no reserved bit is
set and a checksum of zero is computed as zero. -/
def Survives (sourceAddress destinationAddress : BitVec 32) (segment : Bytes) : Prop :=
  let dataOffset := (wordAt 2 12 segment >>> 12).toNat
  20 ≤ segment.length ∧ 5 ≤ dataOffset ∧ 4 * dataOffset ≤ segment.length ∧
    (wordAt 2 12 segment >>> 9) &&& 7 = 0 ∧
    ChecksumKept 16 (pseudoHeader sourceAddress destinationAddress 6 segment.length) segment

theorem exists_read (h : 20 ≤ data.length) : ∃ tcp, TCP.read data = .ok (tcp, []) := by
  obtain ⟨sourcePort, data, rfl⟩ := exists_putShort data (by omega)
  rw [List.length_append, putShort_length] at h
  obtain ⟨destinationPort, data, rfl⟩ := exists_putShort data (by omega)
  rw [List.length_append, putShort_length] at h
  obtain ⟨sequence, data, rfl⟩ := exists_putInt data (by omega)
  rw [List.length_append, putInt_length] at h
  obtain ⟨acknowledge, data, rfl⟩ := exists_putInt data (by omega)
  rw [List.length_append, putInt_length] at h
  obtain ⟨word, data, rfl⟩ := exists_putShort data (by omega)
  rw [List.length_append, putShort_length] at h
  obtain ⟨windowSize, data, rfl⟩ := exists_putShort data (by omega)
  rw [List.length_append, putShort_length] at h
  obtain ⟨checksum, data, rfl⟩ := exists_putShort data (by omega)
  rw [List.length_append, putShort_length] at h
  obtain ⟨urgentPointer, left, rfl⟩ := exists_putShort data (by omega)
  simp only [TCP.read, Reader.bind_eq_ok, getShort_eq_ok, getInt_eq_ok, Reader.remaining_eq_ok,
    Reader.pure_eq_ok]
  exact ⟨_, _, _, rfl, _, _, rfl, _, _, rfl, _, _, rfl, _, _, rfl, _, _, rfl, _, _, rfl, _, _, rfl, _, _,
    ⟨rfl, rfl⟩, rfl, rfl⟩

theorem rebuilt_self_iff :
    Rebuilt sourceAddress destinationAddress data data ↔
      Survives sourceAddress destinationAddress data := by
  constructor
  · rintro ⟨tcp, word, h, hdata, hoffset, hout⟩
    have hword : tcp.word = word := by
      rw [← wordAt_word tcp.word _ tcp.padded, ← hout, hdata, wordAt_word]
    have hchecksum : computed tcp.checksum
        (tcp.sum sourceAddress destinationAddress tcp.checksum) = tcp.checksum := by
      rw [← wordAt_checksum tcp.word (computed _ _) tcp.padded, ← hout, hdata, wordAt_checksum]
    rw [hchecksum] at hout
    obtain ⟨heq, hreserved⟩ := (word_eq_iff h).mp hword
    have hlength : data.length = 4 * tcp.offset + tcp.payload.length := by
      rw [hout, layout_length, padded_length h hoffset]
      omega
    have hwordAt : wordAt 2 12 data = word := by rw [hdata, wordAt_word]
    have hsum : pseudoHeader sourceAddress destinationAddress 6 data.length + wordSum data =
        tcp.sum sourceAddress destinationAddress tcp.checksum := by
      rw [hlength, sum, ← hout]
    refine ⟨by omega, ?_, ?_, ?_, ?_⟩
    · rw [hwordAt, ← h.dataOffset]
      omega
    · rw [hwordAt, ← h.dataOffset]
      omega
    · rw [hwordAt]
      exact hreserved
    · rw [ChecksumKept, hsum, hdata, wordAt_checksum]
      exact computed_eq_self_iff.mp hchecksum
  · rintro ⟨hlength, hoffset, hwhole, hreserved, hkept⟩
    obtain ⟨tcp, hread⟩ := exists_read hlength
    obtain ⟨word, h, hdata, -⟩ := read_eq_ok.mp hread
    have hwordAt : wordAt 2 12 data = word := by rw [hdata, wordAt_word]
    rw [hwordAt, ← h.dataOffset] at hoffset hwhole
    have heq : tcp.offset = tcp.dataOffset := if_neg (by omega)
    have hword : tcp.word = word := (word_eq_iff h).mpr ⟨heq, hwordAt ▸ hreserved⟩
    have hoptions : tcp.padded = tcp.options := by
      have hlen := h.options
      rw [hdata, layout_length] at hwhole
      rw [optLength] at hlen
      rw [padded, heq]
      split
      · rw [if_pos (by assumption)] at hlen
        rw [show 4 * tcp.dataOffset - 20 - tcp.options.length = 0 by omega]
        exact List.append_nil _
      · rw [if_neg (by assumption)] at hlen
        exact (List.length_eq_zero_iff.mp hlen).symm
    have hsum : pseudoHeader sourceAddress destinationAddress 6 data.length + wordSum data =
        tcp.sum sourceAddress destinationAddress tcp.checksum := by
      have hoptionsLength := padded_length h (by omega)
      rw [sum, hword, hoptions, ← hdata]
      rw [hoptions] at hoptionsLength
      congr 2
      rw [hdata, layout_length]
      omega
    rw [ChecksumKept, hsum, hdata, wordAt_checksum] at hkept
    refine ⟨tcp, word, h, hdata, by omega, ?_⟩
    rw [computed_eq_self_iff.mpr hkept, hword, hoptions]
    exact hdata

end TCP

/-! ## UDP -/

namespace UDP

variable {sourceAddress destinationAddress : BitVec 32}

def layout (sourcePort destinationPort length checksum : BitVec 16) (payload : Bytes) : Bytes :=
  (putShort sourcePort ++ putShort destinationPort ++ putShort length) ++ (putShort checksum ++ payload)

/-- The checksum and the payload that are to be written for those that were read. -/
def Carried (sourcePort destinationPort checksum : BitVec 16) (payload : Bytes) (checksum' : BitVec 16)
    (payload' : Bytes) : Prop :=
  if Decodes sourcePort destinationPort then checksum' = 0 ∧ DHCP.Rebuilt payload payload'
  else checksum' = checksum ∧ payload' = payload

/-- The sum over what is written, with a checksum. -/
def sum (sourceAddress destinationAddress : BitVec 32) (sourcePort destinationPort : BitVec 16)
    (payload : Bytes) (checksum : BitVec 16) : Nat :=
  let length := BitVec.ofNat 16 (8 + payload.length)
  pseudoHeader sourceAddress destinationAddress 17 length.toNat +
    wordSum (layout sourcePort destinationPort length checksum payload)

/-- What a segment is written to again. -/
def Rebuilt (sourceAddress destinationAddress : BitVec 32) (data out : Bytes) : Prop :=
  ∃ (sourcePort destinationPort length checksum : BitVec 16) (payload : Bytes) (checksum' : BitVec 16)
    (payload' : Bytes), data = layout sourcePort destinationPort length checksum payload ∧
      Carried sourcePort destinationPort checksum payload checksum' payload' ∧
      8 + payload'.length < 2 ^ 15 ∧
      out = layout sourcePort destinationPort (BitVec.ofNat 16 (8 + payload'.length))
        (computed checksum' (sum sourceAddress destinationAddress sourcePort destinationPort payload'
          checksum')) payload'

theorem layout_length (sourcePort destinationPort length checksum : BitVec 16) (payload : Bytes) :
    (layout sourcePort destinationPort length checksum payload).length = 8 + payload.length := by
  simp only [layout, List.length_append, putShort_length]
  omega

theorem wordAt_length (sourcePort destinationPort length checksum : BitVec 16) (payload : Bytes) :
    wordAt 2 4 (layout sourcePort destinationPort length checksum payload) = length := by
  rw [layout, List.append_assoc]
  exact wordAt_append rfl

theorem wordAt_checksum (sourcePort destinationPort length checksum : BitVec 16) (payload : Bytes) :
    wordAt 2 6 (layout sourcePort destinationPort length checksum payload) = checksum :=
  wordAt_append rfl

theorem wordAt_sourcePort (sourcePort destinationPort length checksum : BitVec 16) (payload : Bytes) :
    wordAt 2 0 (layout sourcePort destinationPort length checksum payload) = sourcePort := by
  rw [layout, List.append_assoc, List.append_assoc]
  exact @wordAt_append _ _ [] _ _ rfl

theorem wordAt_destinationPort (sourcePort destinationPort length checksum : BitVec 16) (payload : Bytes) :
    wordAt 2 2 (layout sourcePort destinationPort length checksum payload) = destinationPort := by
  rw [layout, List.append_assoc, List.append_assoc]
  exact wordAt_append rfl

theorem layout_drop (sourcePort destinationPort length checksum : BitVec 16) (payload : Bytes) :
    (layout sourcePort destinationPort length checksum payload).drop 8 = payload := by
  rw [layout, ← List.append_assoc]
  exact List.drop_left' rfl

theorem layout_zero (sourcePort destinationPort length checksum : BitVec 16) (payload : Bytes) :
    (layout sourcePort destinationPort length checksum payload).take 6 ++ putShort 0 ++
        (layout sourcePort destinationPort length checksum payload).drop 8 =
      layout sourcePort destinationPort length 0 payload := by
  have htake : (layout sourcePort destinationPort length checksum payload).take 6 =
      putShort sourcePort ++ putShort destinationPort ++ putShort length := List.take_left' rfl
  rw [layout_drop, htake, layout, List.append_assoc]

theorem exists_layout (h : 8 ≤ data.length) :
    ∃ sourcePort destinationPort length checksum payload,
      data = layout sourcePort destinationPort length checksum payload := by
  obtain ⟨sourcePort, data, rfl⟩ := exists_putShort data (by omega)
  rw [List.length_append, putShort_length] at h
  obtain ⟨destinationPort, data, rfl⟩ := exists_putShort data (by omega)
  rw [List.length_append, putShort_length] at h
  obtain ⟨length, data, rfl⟩ := exists_putShort data (by omega)
  rw [List.length_append, putShort_length] at h
  obtain ⟨checksum, payload, rfl⟩ := exists_putShort data (by omega)
  exact ⟨sourcePort, destinationPort, length, checksum, payload, by simp only [layout, List.append_assoc]⟩

theorem carried_iff {sourcePort destinationPort checksum checksum' : BitVec 16} {payload payload' : Bytes} :
    Carried sourcePort destinationPort checksum payload checksum' payload' ↔
      ∃ carried, UDPPayload.deserialize sourcePort destinationPort payload = .ok carried ∧
        carried.serialize checksum = .ok (checksum', payload') := by
  rw [Carried, UDPPayload.deserialize]
  split
  · simp only [map_eq_ok, DHCP.Rebuilt]
    constructor
    · rintro ⟨rfl, message, hmessage, hout⟩
      exact ⟨_, ⟨message, hmessage, rfl⟩, map_eq_ok.mpr ⟨_, hout, rfl⟩⟩
    · rintro ⟨_, ⟨message, hmessage, rfl⟩, hout⟩
      obtain ⟨bytes, hbytes, heq⟩ := map_eq_ok.mp hout
      cases heq
      exact ⟨rfl, message, hmessage, hbytes⟩
  · constructor
    · rintro ⟨rfl, rfl⟩
      exact ⟨_, rfl, rfl⟩
    · rintro ⟨_, hcarried, hout⟩
      cases hcarried
      cases hout
      exact ⟨rfl, rfl⟩

theorem deserialize_eq_ok {udp : UDP} :
    UDP.deserialize data = .ok udp ↔ ∃ payload,
      data = layout udp.sourcePort udp.destinationPort udp.length udp.checksum payload ∧
      UDPPayload.deserialize udp.sourcePort udp.destinationPort payload = .ok udp.payload := by
  simp only [UDP.deserialize, bind_eq_ok, Prod.exists, getShort_eq_ok]
  constructor
  · rintro ⟨sourcePort, _, rfl, destinationPort, _, rfl, length, _, rfl, checksum, bb, rfl, payload,
      hpayload, h⟩
    cases h
    exact ⟨bb, by simp only [layout, List.append_assoc], hpayload⟩
  · rintro ⟨payload, rfl, hpayload⟩
    exact ⟨_, _, by simp only [layout, List.append_assoc], _, _, rfl, _, _, rfl, _, payload, rfl, _,
      hpayload, rfl⟩

theorem serialize_eq_ok {udp : UDP} :
    udp.serialize sourceAddress destinationAddress = .ok out ↔ ∃ checksum payload,
      udp.payload.serialize udp.checksum = .ok (checksum, payload) ∧ 8 + payload.length < 2 ^ 15 ∧
      out = layout udp.sourcePort udp.destinationPort (BitVec.ofNat 16 (8 + payload.length))
        (computed checksum (sum sourceAddress destinationAddress udp.sourcePort udp.destinationPort payload
          checksum)) payload := by
  have hlayout : ∀ (length checksum : BitVec 16) (payload : Bytes), putShort udp.sourcePort ++
      putShort udp.destinationPort ++ putShort length ++ putShort checksum ++ payload =
        layout udp.sourcePort udp.destinationPort length checksum payload := fun _ _ _ => by
    simp only [layout, List.append_assoc]
  have hchecksum : ∀ (length checksum : BitVec 16) (payload : Bytes) (accumulation : Nat),
      withChecksum 6 checksum accumulation
          (layout udp.sourcePort udp.destinationPort length checksum payload) =
        layout udp.sourcePort udp.destinationPort length (computed checksum accumulation) payload :=
    fun _ checksum _ _ => withChecksum_append checksum rfl
  simp only [UDP.serialize, bind_eq_ok, Prod.exists, hlayout]
  constructor
  · rintro ⟨checksum, payload, hpayload, bytes, hbytes, hout⟩
    obtain ⟨hlt, rfl⟩ := (filled_short (layout_length ..)).mp hbytes
    refine ⟨checksum, payload, hpayload, hlt, ?_⟩
    rw [hchecksum] at hout
    exact (Except.ok.inj hout).symm
  · rintro ⟨checksum, payload, hpayload, hlt, rfl⟩
    refine ⟨checksum, payload, hpayload, _, (filled_short (layout_length ..)).mpr ⟨hlt, rfl⟩, ?_⟩
    rw [hchecksum]
    rfl

theorem rebuilt_iff :
    Rebuilt sourceAddress destinationAddress data out ↔
      ∃ udp, UDP.deserialize data = .ok udp ∧
        udp.serialize sourceAddress destinationAddress = .ok out := by
  constructor
  · rintro ⟨sourcePort, destinationPort, length, checksum, payload, checksum', payload', hdata, hcarried,
      hlt, hout⟩
    obtain ⟨carried, hread, hwrite⟩ := carried_iff.mp hcarried
    exact ⟨⟨sourcePort, destinationPort, length, checksum, carried⟩,
      deserialize_eq_ok.mpr ⟨payload, hdata, hread⟩,
      serialize_eq_ok.mpr ⟨checksum', payload', hwrite, hlt, hout⟩⟩
  · rintro ⟨udp, hread, hwrite⟩
    obtain ⟨payload, hdata, hread⟩ := deserialize_eq_ok.mp hread
    obtain ⟨checksum, payload', hwrite, hlt, hout⟩ := serialize_eq_ok.mp hwrite
    exact ⟨_, _, _, _, payload, checksum, payload', hdata, carried_iff.mpr ⟨_, hread, hwrite⟩, hlt, hout⟩

/-- A segment that has been written is written to itself. -/
theorem Rebuilt.again (h : Rebuilt sourceAddress destinationAddress data out) :
    Rebuilt sourceAddress destinationAddress out out := by
  obtain ⟨sourcePort, destinationPort, length, checksum, payload, checksum', payload', rfl, hcarried, hlt,
    rfl⟩ := h
  refine ⟨_, _, _, _, payload', if Decodes sourcePort destinationPort then 0 else
    computed checksum' (sum sourceAddress destinationAddress sourcePort destinationPort payload' checksum'),
    payload', rfl, ?_, hlt, ?_⟩
  · rw [Carried] at hcarried ⊢
    split
    · rw [if_pos (by assumption)] at hcarried
      exact ⟨rfl, hcarried.2.again⟩
    · exact ⟨rfl, rfl⟩
  · rw [Carried] at hcarried
    split
    · rw [if_pos (by assumption)] at hcarried
      rw [hcarried.1]
    · rw [computed_computed (sum sourceAddress destinationAddress sourcePort destinationPort payload')]

/-- A segment is left as it is: its length is that of the segment, and, unless it is a message of DHCP, a
checksum of zero is computed as zero; a message is in the form in which messages are written, and the
checksum the computed one. -/
def Survives (sourceAddress destinationAddress : BitVec 32) (segment : Bytes) : Prop :=
  8 ≤ segment.length ∧ (wordAt 2 4 segment).toNat = segment.length ∧
    let pseudo := pseudoHeader sourceAddress destinationAddress 17 segment.length
    if Decodes (wordAt 2 0 segment) (wordAt 2 2 segment) then
      DHCP.Written (segment.drop 8) ∧ wordAt 2 6 segment =
        checksumOf (pseudo + wordSum (segment.take 6 ++ putShort 0 ++ segment.drop 8))
    else ChecksumKept 6 pseudo segment

theorem survives_layout {sourcePort destinationPort length checksum : BitVec 16} {payload : Bytes} :
    Survives sourceAddress destinationAddress (layout sourcePort destinationPort length checksum payload) ↔
      length.toNat = 8 + payload.length ∧
        let pseudo := pseudoHeader sourceAddress destinationAddress 17 (8 + payload.length)
        if Decodes sourcePort destinationPort then
          DHCP.Written payload ∧ checksum =
            checksumOf (pseudo + wordSum (layout sourcePort destinationPort length 0 payload))
        else checksum ≠ 0 ∨
          checksumOf (pseudo + wordSum (layout sourcePort destinationPort length checksum payload)) = 0 := by
  simp only [Survives, ChecksumKept, wordAt_sourcePort, wordAt_destinationPort, wordAt_length,
    wordAt_checksum, layout_zero, layout_length]
  rw [layout_drop]
  exact and_iff_right (by omega)

theorem rebuilt_self_iff (h : data.length < 2 ^ 15) :
    Rebuilt sourceAddress destinationAddress data data ↔
      Survives sourceAddress destinationAddress data := by
  constructor
  · rintro ⟨sourcePort, destinationPort, length, checksum, payload, checksum', payload', hdata, hcarried,
      hlt, hout⟩
    have hpayload : payload' = payload := by
      rw [← layout_drop _ _ _ _ payload', ← hout, hdata, layout_drop]
    subst hpayload
    have hlength : length = BitVec.ofNat 16 (8 + payload'.length) := by
      rw [← wordAt_length sourcePort destinationPort length checksum payload', ← hdata, hout, wordAt_length]
    have hchecksum : checksum = computed checksum'
        (sum sourceAddress destinationAddress sourcePort destinationPort payload' checksum') := by
      rw [← wordAt_checksum sourcePort destinationPort length checksum payload', ← hdata, hout,
        wordAt_checksum]
    have hsize : length.toNat = 8 + payload'.length := by
      rw [hlength, BitVec.toNat_ofNat, Nat.mod_eq_of_lt (by omega)]
    rw [sum, ← hlength, hsize] at hchecksum
    rw [hdata, survives_layout]
    refine ⟨hsize, ?_⟩
    rw [Carried] at hcarried
    split
    · rw [if_pos (by assumption)] at hcarried
      obtain ⟨rfl, hrebuilt⟩ := hcarried
      exact ⟨DHCP.rebuilt_self_iff.mp hrebuilt, hchecksum⟩
    · rw [if_neg (by assumption)] at hcarried
      obtain ⟨rfl, -⟩ := hcarried
      exact computed_eq_self_iff.mp hchecksum.symm
  · intro hsurvives
    obtain ⟨sourcePort, destinationPort, length, checksum, payload, rfl⟩ := exists_layout hsurvives.1
    obtain ⟨hsize, hkept⟩ := survives_layout.mp hsurvives
    rw [layout_length] at h
    have hlength : length = BitVec.ofNat 16 (8 + payload.length) := by
      rw [← hsize, BitVec.ofNat_toNat, BitVec.setWidth_eq]
    have hsum : ∀ checksum, sum sourceAddress destinationAddress sourcePort destinationPort payload checksum =
        pseudoHeader sourceAddress destinationAddress 17 (8 + payload.length) +
          wordSum (layout sourcePort destinationPort length checksum payload) := fun _ => by
      rw [sum, ← hlength, hsize]
    refine ⟨_, _, _, _, payload, if Decodes sourcePort destinationPort then 0 else checksum, payload, rfl,
      ?_, h, ?_⟩
    · rw [Carried]
      split
      · rw [if_pos (by assumption)] at hkept
        exact ⟨rfl, DHCP.rebuilt_self_iff.mpr hkept.1⟩
      · exact ⟨rfl, rfl⟩
    · rw [← hlength, hsum]
      split
      · rw [if_pos (by assumption)] at hkept
        exact congrArg (layout sourcePort destinationPort length · payload) hkept.2
      · rw [if_neg (by assumption)] at hkept
        rw [computed_eq_self_iff.mpr hkept]

/-- How long the bytes are that a segment is written to. -/
def rebuiltLength (segment : Bytes) : Nat :=
  if Decodes (wordAt 2 0 segment) (wordAt 2 2 segment) then 8 + DHCP.rebuiltLength (segment.drop 8)
  else segment.length

theorem Rebuilt.length (h : Rebuilt sourceAddress destinationAddress data out) :
    out.length = rebuiltLength data := by
  obtain ⟨sourcePort, destinationPort, length, checksum, payload, checksum', payload', rfl, hcarried, -,
    rfl⟩ := h
  rw [rebuiltLength, wordAt_sourcePort, wordAt_destinationPort, layout_drop, layout_length, layout_length]
  rw [Carried] at hcarried
  split
  · rw [if_pos (by assumption)] at hcarried
    rw [hcarried.2.length]
  · rw [if_neg (by assumption)] at hcarried
    rw [hcarried.2]

end UDP

/-! ## What IPv4 carries -/

namespace IPv4Payload

variable {protocol : UInt8} {sourceAddress destinationAddress : BitVec 32}

/-- What a segment is written to again. -/
def Rebuilt (protocol : UInt8) (sourceAddress destinationAddress : BitVec 32) (data out : Bytes) : Prop :=
  ∃ payload, IPv4Payload.deserialize protocol data = .ok payload ∧
    payload.serialize sourceAddress destinationAddress = .ok out

/-- A segment is left as it is, by the class that reads it. -/
def Survives (protocol : UInt8) (sourceAddress destinationAddress : BitVec 32) (segment : Bytes) : Prop :=
  if protocol = 1 then ICMP.Survives segment
  else if protocol = 6 then TCP.Survives sourceAddress destinationAddress segment
  else if protocol = 17 then UDP.Survives sourceAddress destinationAddress segment
  else True

/-- How long the bytes are that a segment is written to. -/
def rebuiltLength (protocol : UInt8) (segment : Bytes) : Nat :=
  if protocol = 6 then TCP.rebuiltLength segment
  else if protocol = 17 then UDP.rebuiltLength segment
  else segment.length

theorem rebuilt_iff :
    Rebuilt protocol sourceAddress destinationAddress data out ↔
      if protocol = 1 then ICMP.Rebuilt data out
      else if protocol = 6 then TCP.Rebuilt sourceAddress destinationAddress data out
      else if protocol = 17 then UDP.Rebuilt sourceAddress destinationAddress data out
      else out = data := by
  rw [Rebuilt, IPv4Payload.deserialize]
  split
  · simp only [map_eq_ok, ICMP.rebuilt_iff]
    constructor
    · rintro ⟨_, ⟨⟨icmp, rest⟩, hread, rfl⟩, hout⟩
      exact ⟨icmp, rest, hread, hout⟩
    · rintro ⟨icmp, rest, hread, hout⟩
      exact ⟨_, ⟨_, hread, rfl⟩, hout⟩
  split
  · simp only [map_eq_ok, TCP.rebuilt_iff]
    constructor
    · rintro ⟨_, ⟨⟨tcp, rest⟩, hread, rfl⟩, hout⟩
      exact ⟨tcp, rest, hread, hout⟩
    · rintro ⟨tcp, rest, hread, hout⟩
      exact ⟨_, ⟨_, hread, rfl⟩, hout⟩
  split
  · simp only [map_eq_ok, UDP.rebuilt_iff]
    constructor
    · rintro ⟨_, ⟨udp, hread, rfl⟩, hout⟩
      exact ⟨udp, hread, hout⟩
    · rintro ⟨udp, hread, hout⟩
      exact ⟨_, ⟨_, hread, rfl⟩, hout⟩
  · constructor
    · rintro ⟨_, hread, hout⟩
      cases hread
      exact (Except.ok.inj hout).symm
    · rintro rfl
      exact ⟨_, rfl, rfl⟩

/-- What has been written is written to itself. -/
theorem Rebuilt.again (h : Rebuilt protocol sourceAddress destinationAddress data out) :
    Rebuilt protocol sourceAddress destinationAddress out out := by
  rw [rebuilt_iff] at h ⊢
  split
  · rw [if_pos (by assumption)] at h
    exact h.again
  rw [if_neg (by assumption)] at h
  split
  · rw [if_pos (by assumption)] at h
    exact h.again
  rw [if_neg (by assumption)] at h
  split
  · rw [if_pos (by assumption)] at h
    exact h.again
  · rfl

theorem rebuilt_self_iff (hlength : data.length < 2 ^ 15) :
    Rebuilt protocol sourceAddress destinationAddress data data ↔
      Survives protocol sourceAddress destinationAddress data := by
  rw [rebuilt_iff, Survives]
  split
  · exact ICMP.rebuilt_self_iff
  split
  · exact TCP.rebuilt_self_iff
  split
  · exact UDP.rebuilt_self_iff hlength
  · exact iff_of_true rfl trivial

theorem Rebuilt.length (h : Rebuilt protocol sourceAddress destinationAddress data out) :
    out.length = rebuiltLength protocol data := by
  rw [rebuilt_iff] at h
  rw [rebuiltLength]
  split at h
  · rename_i hprotocol
    subst hprotocol
    exact h.length
  split at h
  · rw [if_pos (by assumption)]
    exact h.length
  split at h
  · rw [if_neg (by assumption), if_pos (by assumption)]
    exact h.length
  · rw [if_neg (by assumption), if_neg (by assumption), h]

end IPv4Payload

end OFM.Controller
