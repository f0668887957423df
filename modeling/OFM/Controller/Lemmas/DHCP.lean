import OFM.Lib.Computations
import OFM.Controller.DHCP

/-!
# DHCP messages that are read and written again

What a message was read from, and what it is written to. A message in the form in which messages are
written comes out as it was, and nothing else does.
-/

namespace OFM.Controller
open OFM.Lib ByteBuffer

variable {data rest bytes out : Bytes} {k : Nat}

/-! ## Relative reads and writes -/

namespace ByteBuffer

theorem getByte_eq_ok {value : UInt8} : getByte data = .ok (value, rest) ↔ data = value :: rest := by
  cases data with
  | nil =>
      constructor <;> intro h <;> cases h
  | cons byte data => rw [getByte, Except.ok.injEq, Prod.mk.injEq, List.cons.injEq]

theorem getBytes_eq_ok :
    getBytes k data = .ok (bytes, rest) ↔ data = bytes ++ rest ∧ bytes.length = k :=
  Reader.take_eq_ok

theorem getShort_eq_ok {value : BitVec 16} :
    getShort data = .ok (value, rest) ↔ data = putShort value ++ rest :=
  Reader.word_eq_ok

theorem getInt_eq_ok {value : BitVec 32} :
    getInt data = .ok (value, rest) ↔ data = putInt value ++ rest :=
  Reader.word_eq_ok

@[simp] theorem putShort_length (value : BitVec 16) : (putShort value).length = 2 := wordBytes_length _

@[simp] theorem putInt_length (value : BitVec 32) : (putInt value).length = 4 := wordBytes_length _

theorem filled_eq_ok {size : Nat} :
    filled size bytes = .ok out ↔
      bytes.length ≤ size ∧ out = bytes ++ List.replicate (size - bytes.length) 0 := by
  rw [filled, if_neg (by omega), Int.toNat_natCast]
  split
  · rename_i hlt
    constructor
    · intro h
      cases h
    · rintro ⟨hle, -⟩
      omega
  · rename_i hle
    rw [Except.ok.injEq, eq_comm]
    exact ⟨fun h => ⟨by omega, h⟩, fun h => h.2⟩

theorem exists_putShort (data : Bytes) (h : 2 ≤ data.length) : ∃ value rest, data = putShort value ++ rest :=
  ⟨wordOf 2 (data.take 2), data.drop 2, by
    rw [putShort, wordBytes_wordOf (List.length_take_of_le h), List.take_append_drop]⟩

theorem exists_putInt (data : Bytes) (h : 4 ≤ data.length) : ∃ value rest, data = putInt value ++ rest :=
  ⟨wordOf 4 (data.take 4), data.drop 4, by
    rw [putInt, wordBytes_wordOf (List.length_take_of_le h), List.take_append_drop]⟩

/-- An array of exactly what is put into it. -/
theorem filled_exact {size : Nat} (h : bytes.length = size) : filled size bytes = .ok bytes := by
  rw [filled_eq_ok, h, Nat.sub_self]
  exact ⟨Nat.le_refl _, (List.append_nil _).symm⟩

/-- An array whose length is kept in 16 bits. -/
theorem filled_short {size : Nat} (h : bytes.length = size) :
    filled (BitVec.ofNat 16 size).toInt bytes = .ok out ↔ size < 2 ^ 15 ∧ out = bytes := by
  have hint := BitVec.toInt_eq_toNat_cond (BitVec.ofNat 16 size)
  rw [BitVec.toNat_ofNat] at hint
  by_cases hsize : size < 2 ^ 15
  · have hlength : (BitVec.ofNat 16 size).toInt = size := by
      rw [hint, if_pos (by omega)]
      omega
    rw [hlength, filled_exact h, Except.ok.injEq, eq_comm]
    exact (and_iff_right hsize).symm
  · refine ⟨fun hout => ?_, fun h => absurd h.1 hsize⟩
    rw [filled] at hout
    split at hout
    · cases hout
    · rename_i hpos
      -- a length that wraps around is too small
      rw [if_pos (by split at hint <;> omega)] at hout
      cases hout

end ByteBuffer

/-! ## Texts -/

/-- A text that `trim` leaves alone. -/
structure Trimmed (text : JavaString) : Prop where
  first : ∀ unit ∈ text.head?, 0x20 < unit
  last : ∀ unit ∈ text.getLast?, 0x20 < unit

variable {text : JavaString}

theorem dropWhile_eq_self (h : ∀ unit ∈ text.head?, 0x20 < unit) :
    text.dropWhile (· ≤ 0x20) = text := by
  cases text with
  | nil => rfl
  | cons unit text =>
      have hunit := h unit rfl
      exact List.dropWhile_cons_of_neg (by simpa using hunit)

theorem rdropWhile_eq_self (h : ∀ unit ∈ text.getLast?, 0x20 < unit) :
    text.rdropWhile (· ≤ 0x20) = text := by
  rw [List.rdropWhile_eq_self_iff]
  intro hne
  have hlast := h _ (List.getLast?_eq_some_getLast hne)
  simpa using hlast

theorem trimmed_trim (text : JavaString) : Trimmed (trim text) where
  first unit hunit := by
    obtain ⟨rest, hrest⟩ := List.rdropWhile_prefix (fun unit => decide (unit ≤ 0x20))
      (text.dropWhile (· ≤ 0x20))
    have hhead : (text.dropWhile (· ≤ 0x20)).head? = some unit := by
      rw [← hrest, List.head?_append]
      exact congrArg (·.or rest.head?) hunit
    have hnot := List.head?_dropWhile_not (fun unit : UInt16 => decide (unit ≤ 0x20)) text
    rw [hhead] at hnot
    simpa using hnot
  last unit hunit := by
    have hne : trim text ≠ [] := by
      intro h
      rw [h] at hunit
      cases hunit
    have hnot : ¬ decide ((trim text).getLast hne ≤ 0x20) = true :=
      List.rdropWhile_last_not (fun unit => decide (unit ≤ 0x20)) _ hne
    have hunit' : (trim text).getLast hne = unit := by
      rw [List.getLast?_eq_some_getLast hne] at hunit
      exact Option.some.inj hunit
    rw [hunit'] at hnot
    simpa using hnot

/-- Zeros behind a text are trimmed. -/
theorem trim_append_zeros (h : Trimmed text) (k : Nat) : trim (text ++ List.replicate k 0) = text := by
  have hzeros : ∀ k, (text ++ List.replicate k 0).rdropWhile (· ≤ 0x20) = text := by
    intro k
    induction k with
    | zero =>
        rw [List.replicate_zero, List.append_nil]
        exact rdropWhile_eq_self h.last
    | succ k ih =>
        rw [List.replicate_succ', ← List.append_assoc]
        exact (List.rdropWhile_concat_pos _ _ _ rfl).trans ih
  cases text with
  | nil =>
      rw [trim, List.nil_append, List.dropWhile_replicate]
      rfl
  | cons unit text =>
      have hfirst : ∀ u ∈ (unit :: text ++ List.replicate k 0).head?, 0x20 < u := h.first
      rw [trim, dropWhile_eq_self hfirst, hzeros]

/-- A text of the characters that ASCII has, the others replaced as they are written. -/
def asWritten (text : JavaString) : JavaString := text.map fun unit => if unit < 0x80 then unit else 63

theorem isAscii_asWritten (text : JavaString) : IsAscii (asWritten text) := by
  intro unit hunit
  obtain ⟨u, -, rfl⟩ := List.mem_map.mp hunit
  split
  · assumption
  · decide

theorem getBytes_asWritten (text : JavaString) :
    usAscii.getBytes (asWritten text) = usAscii.getBytes text := by
  show (asWritten text).map _ = text.map _
  rw [asWritten, List.map_map]
  refine List.map_congr_left fun unit _ => ?_
  simp only [Function.comp_apply]
  split
  · rfl
  · rfl

theorem Trimmed.asWritten (h : Trimmed text) : Trimmed (asWritten text) := by
  have hlt : ∀ unit : UInt16, 0x20 < unit → 0x20 < if unit < 0x80 then unit else 63 := by
    intro unit hunit
    split
    · exact hunit
    · decide
  constructor
  · intro unit hunit
    rw [OFM.Controller.asWritten, List.head?_map] at hunit
    obtain ⟨u, hu, rfl⟩ := Option.map_eq_some_iff.mp hunit
    exact hlt u (h.first u hu)
  · intro unit hunit
    rw [OFM.Controller.asWritten, List.getLast?_map] at hunit
    obtain ⟨u, hu, rfl⟩ := Option.map_eq_some_iff.mp hunit
    exact hlt u (h.last u hu)

/-- The texts that are read as they are written to a field. -/
structure Name (maxLength : Nat) (text : JavaString) : Prop where
  length : text.length ≤ maxLength
  ascii : IsAscii text
  trimmed : Trimmed text

namespace DHCP

theorem writeString_length (text : JavaString) (maxLength : Nat) :
    (writeString text maxLength).length = maxLength := by
  simp only [writeString, List.length_append, List.length_replicate, List.length_take]
  omega

theorem writeString_asWritten (text : JavaString) (maxLength : Nat) :
    writeString (asWritten text) maxLength = writeString text maxLength := by
  rw [writeString, writeString, getBytes_asWritten]

theorem newString_getBytes (h : IsAscii text) : usAscii.newString (usAscii.getBytes text) = text := by
  show (text.map _).map _ = text
  rw [List.map_map]
  refine (List.map_congr_left fun unit hunit => ?_).trans (List.map_id text)
  have hlt : unit.toNat < 0x80 := h unit hunit
  have hbyte : unit.toUInt8.toNat = unit.toNat := by
    rw [UInt16.toNat_toUInt8]
    exact Nat.mod_eq_of_lt (by omega)
  have hascii : unit.toUInt8 < 0x80 := by
    rw [UInt8.lt_iff_toNat_lt, hbyte]
    exact hlt
  simp only [Function.comp_apply, if_pos (h unit hunit), if_pos hascii, id_eq]
  rw [← UInt16.toNat_inj, UInt8.toNat_toUInt16, hbyte]

theorem readString_eq_ok {maxLength : Nat} :
    readString maxLength data = .ok (text, rest) ↔
      ∃ bytes, bytes.length = maxLength ∧ data = bytes ++ rest ∧ text = trim (usAscii.newString bytes) := by
  simp only [readString, Reader.bind_eq_ok, getBytes_eq_ok, Reader.pure_eq_ok]
  constructor
  · rintro ⟨bytes, _, ⟨rfl, hlength⟩, rfl, rfl⟩
    exact ⟨bytes, hlength, rfl, rfl⟩
  · rintro ⟨bytes, hlength, rfl, rfl⟩
    exact ⟨bytes, rest, ⟨rfl, hlength⟩, rfl, rfl⟩

theorem readString_writeString {maxLength : Nat} (h : Name maxLength text) :
    readString maxLength (writeString text maxLength ++ rest) = .ok (text, rest) := by
  refine readString_eq_ok.mpr ⟨_, writeString_length text maxLength, rfl, ?_⟩
  have hlength : (usAscii.getBytes text).length = text.length := List.length_map ..
  have htake : (usAscii.getBytes text).take maxLength = usAscii.getBytes text :=
    List.take_of_length_le (by rw [hlength]; exact h.length)
  have hzeros : ∀ k, usAscii.newString (List.replicate k 0) = List.replicate k 0 := fun k =>
    List.map_replicate
  have happend : ∀ bytes bytes', usAscii.newString (bytes ++ bytes') =
      usAscii.newString bytes ++ usAscii.newString bytes' := fun _ _ => List.map_append
  rw [writeString, htake, happend, newString_getBytes h.ascii, hzeros, trim_append_zeros h.trimmed]

end DHCP

/-! ## Options -/

/-- An option that is neither padding nor the end, with its data. -/
structure DHCPOption.Plain (option : DHCPOption) : Prop where
  notPad : option.code ≠ 0
  notEnd : option.code ≠ 255
  data : option.data.length = option.length.toNat

namespace DHCP

/-- Plain options, with no more than the end behind them. -/
inductive WrittenOptions : List DHCPOption → Prop
  | nil : WrittenOptions []
  | ended : WrittenOptions [optionEnd]
  | cons {option options} : option.Plain → WrittenOptions options → WrittenOptions (option :: options)

theorem readOptions_nil : readOptions [] = [] := by rw [readOptions]

theorem readOptions_pad (rest : Bytes) : readOptions (0 :: rest) = readOptions rest := by
  rw [readOptions.eq_def]
  exact if_pos rfl

theorem readOptions_end (rest : Bytes) : readOptions (255 :: rest) = [optionEnd] := by
  rw [readOptions.eq_def]
  rfl

theorem readOptions_cut {code : UInt8} (hpad : code ≠ 0) (hend : code ≠ 255) :
    readOptions [code] = [optionEnd] := by
  rw [readOptions.eq_def]
  exact (if_neg hpad).trans (if_neg hend)

theorem readOptions_option {code l : UInt8} (hpad : code ≠ 0) (hend : code ≠ 255) (rest : Bytes) :
    readOptions (code :: l :: rest) =
      if l.toNat ≤ rest.length then
        ⟨code, l, rest.take l.toNat⟩ :: readOptions (rest.drop l.toNat)
      else [optionEnd] := by
  rw [readOptions.eq_def]
  exact (if_neg hpad).trans (if_neg hend)

theorem writtenOptions_readOptions (bytes : Bytes) : WrittenOptions (readOptions bytes) := by
  induction bytes using readOptions.induct with
  | case1 =>
      rw [readOptions_nil]
      exact .nil
  | case2 rest ih =>
      rw [readOptions_pad]
      exact ih
  | case3 rest h =>
      rw [readOptions_end]
      exact .ended
  | case4 code hpad hend =>
      rw [readOptions_cut hpad hend]
      exact .ended
  | case5 code hpad hend l rest hle ih =>
      rw [readOptions_option hpad hend, if_pos hle]
      exact .cons ⟨hpad, hend, List.length_take_of_le hle⟩ ih
  | case6 code hpad hend l rest hlt =>
      rw [readOptions_option hpad hend, if_neg hlt]
      exact .ended

theorem readOptions_zeros (k : Nat) : readOptions (List.replicate k 0) = [] := by
  induction k with
  | zero => exact readOptions_nil
  | succ k ih => rw [List.replicate_succ, readOptions_pad, ih]

/-- Options that are written are read, with zeros behind them. -/
theorem readOptions_written {options : List DHCPOption} (h : WrittenOptions options) (k : Nat) :
    readOptions (options.flatMap writeOption ++ List.replicate k 0) = options := by
  induction h with
  | nil => exact readOptions_zeros k
  | ended => exact readOptions_end _
  | @cons option options hplain _ ih =>
      have hwrite : writeOption option = option.code :: option.length :: option.data :=
        if_pos ⟨hplain.notPad, hplain.notEnd⟩
      rw [List.flatMap_cons, hwrite, List.append_assoc, List.cons_append, List.cons_append,
        readOptions_option hplain.notPad hplain.notEnd, ← hplain.data, List.take_left, List.drop_left, ih,
        if_pos (by rw [List.length_append]; omega)]

/-! ## Messages -/

/-- A message that is read as it is written. -/
structure WellFormed (dhcp : DHCP) : Prop where
  address : dhcp.clientHardwareAddress.length = dhcp.hardwareAddressLength.toNat
  serverName : Name 64 dhcp.serverName
  bootFileName : Name 128 dhcp.bootFileName
  options : WrittenOptions dhcp.options

theorem readFields_written {dhcp : DHCP} (h : dhcp.WellFormed) (k : Nat) :
    readFields (dhcp.written ++ List.replicate k 0) = .ok (dhcp, []) := by
  simp only [readFields, Reader.bind_eq_ok, getByte_eq_ok, getBytes_eq_ok, getShort_eq_ok, getInt_eq_ok,
    Reader.remaining_eq_ok, Reader.pure_eq_ok, written, List.append_assoc, List.cons_append,
    List.nil_append]
  refine ⟨_, _, rfl, _, _, rfl, _, _, rfl, _, _, rfl, _, _, rfl, _, _, rfl, _, _, rfl, _, _, rfl,
    _, _, rfl, _, _, rfl, _, _, rfl, _, _, ⟨rfl, h.address⟩, _, _, ⟨rfl, ?_⟩, _, _,
    readString_writeString h.serverName, _, _, readString_writeString h.bootFileName, magicCookie, _,
    ⟨rfl, rfl⟩, _, _, ⟨rfl, rfl⟩, ?_, rfl⟩
  · rw [List.length_replicate, h.address]
  · rw [readOptions_written h.options]

/-- What is read of a message, its names as they are written. -/
def normal (dhcp : DHCP) : DHCP :=
  { dhcp with serverName := asWritten dhcp.serverName, bootFileName := asWritten dhcp.bootFileName }

theorem written_normal (dhcp : DHCP) : dhcp.normal.written = dhcp.written := by
  simp only [written, normal, writeString_asWritten]

theorem name_of_readString {maxLength : Nat} {text : JavaString}
    (h : readString maxLength data = .ok (text, rest)) : Name maxLength (asWritten text) := by
  obtain ⟨bytes, hlength, -, rfl⟩ := readString_eq_ok.mp h
  have htrim : (trim (usAscii.newString bytes)).length ≤ (usAscii.newString bytes).length :=
    ((List.rdropWhile_prefix ..).length_le).trans (List.dropWhile_suffix _).length_le
  refine ⟨?_, isAscii_asWritten _, (trimmed_trim _).asWritten⟩
  rw [asWritten, List.length_map]
  exact htrim.trans (by rw [show (usAscii.newString bytes).length = bytes.length from List.length_map ..]; omega)

theorem wellFormed_normal {dhcp : DHCP} (h : readFields data = .ok (dhcp, rest)) :
    dhcp.normal.WellFormed := by
  simp only [readFields, Reader.bind_eq_ok, getByte_eq_ok, getBytes_eq_ok, getShort_eq_ok, getInt_eq_ok,
    Reader.remaining_eq_ok, Reader.pure_eq_ok] at h
  obtain ⟨_, _, -, _, _, -, _, _, -, _, _, -, _, _, -, _, _, -, _, _, -, _, _, -, _, _, -, _, _, -, _, _, -,
    _, _, ⟨-, haddress⟩, _, _, -, _, _, hserver, _, _, hboot, _, _, -, _, _, -, rfl, -⟩ := h
  exact ⟨haddress, name_of_readString hserver, name_of_readString hboot, writtenOptions_readOptions _⟩

/-- What the bytes of a message are written to again. -/
def Rebuilt (data out : Bytes) : Prop :=
  ∃ message, DHCP.deserialize data = .ok message ∧ DHCP.serialize message = .ok out

/-- The form in which messages are written. -/
def Written (data : Bytes) : Prop :=
  ∃ dhcp : DHCP, dhcp.WellFormed ∧ DHCP.serialize (some dhcp) = .ok data

theorem rebuilt_iff :
    Rebuilt data out ↔ minHeaderLength ≤ data.length ∧ ∃ dhcp rest, readFields data = .ok (dhcp, rest) ∧
      filled dhcp.size dhcp.written = .ok out := by
  rw [Rebuilt, deserialize]
  split
  · refine ⟨?_, fun h => absurd h.1 (by omega)⟩
    rintro ⟨message, hmessage, hout⟩
    cases hmessage
    cases hout
  · refine ⟨?_, ?_⟩
    · rintro ⟨message, hmessage, hout⟩
      cases hread : readFields data with
      | error e =>
          rw [hread] at hmessage
          cases hmessage
      | ok read =>
          rw [hread] at hmessage
          cases hmessage
          exact ⟨by omega, read.1, read.2, rfl, hout⟩
    · rintro ⟨-, dhcp, rest, hread, hout⟩
      rw [hread]
      exact ⟨some dhcp, rfl, hout⟩

theorem minHeaderLength_le_size (dhcp : DHCP) : minHeaderLength ≤ dhcp.size := by
  rw [size]
  omega

theorem Rebuilt.written (h : Rebuilt data out) : Written out := by
  obtain ⟨-, dhcp, rest, hread, hout⟩ := rebuilt_iff.mp h
  refine ⟨dhcp.normal, wellFormed_normal hread, ?_⟩
  rw [serialize, written_normal]
  exact hout

theorem Written.rebuilt (h : Written data) : Rebuilt data data := by
  obtain ⟨dhcp, hwell, hdata⟩ := h
  obtain ⟨hle, hzeros⟩ := filled_eq_ok.mp hdata
  have hsize := minHeaderLength_le_size dhcp
  have hlength : data.length = dhcp.size := by
    rw [hzeros, List.length_append, List.length_replicate]
    omega
  refine rebuilt_iff.mpr ⟨by omega, dhcp, [], ?_, hdata⟩
  rw [hzeros]
  exact readFields_written hwell _

/-- How long the bytes are that a message is written to. -/
def rebuiltLength (data : Bytes) : Nat :=
  match readFields data with
  | .ok (dhcp, _) => dhcp.size
  | .error _ => 0

theorem Rebuilt.length (h : Rebuilt data out) : out.length = rebuiltLength data := by
  obtain ⟨-, dhcp, rest, hread, hout⟩ := rebuilt_iff.mp h
  obtain ⟨hle, hzeros⟩ := filled_eq_ok.mp hout
  have hlength : rebuiltLength data = dhcp.size := by rw [rebuiltLength, hread]
  rw [hlength, hzeros, List.length_append, List.length_replicate]
  omega

/-- A message is left as it is exactly when it has that form. -/
theorem rebuilt_self_iff : Rebuilt data data ↔ Written data :=
  ⟨Rebuilt.written, Written.rebuilt⟩

theorem Rebuilt.again (h : Rebuilt data out) : Rebuilt out out := h.written.rebuilt

end DHCP

end OFM.Controller
