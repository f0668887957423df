import Mathlib.Algebra.Group.Nat.Defs
import Mathlib.Data.List.Basic

/-!
# Blobs as text

How `SDMBNCore.c` writes a block of memory as text, two characters a byte, and reads it back.
-/

namespace OFM.Shared

/-- `base64_encode_bits` -/
def base64EncodeBits (data : BitVec 8) : BitVec 8 :=
  if data < 26 then data + 65
  else if data < 52 then data - 26 + 97
  else if data < 62 then data - 52 + 48
  else if data = 62 then 43
  else if data = 63 then 47
  else 0

/-- The loop of `sdmbn_base64_encode`: the lower half of a byte comes first. -/
def encodeBytes : List (BitVec 8) → List (BitVec 8)
  | [] => []
  | byte :: blob =>
      base64EncodeBits (byte &&& 0x0f) :: base64EncodeBits ((byte &&& 0xf0) >>> 4) :: encodeBytes blob

/-- `sdmbn_base64_encode`: no text for an empty block. The size of the text, with its end, is an int, and
`malloc` finds no memory for one that has wrapped around. -/
def sdmbnBase64Encode (blob : List (BitVec 8)) : Option (List (BitVec 8)) :=
  if blob.length < 1 then none
  else if 2 ^ 31 ≤ blob.length * 2 + 1 then none
  else some (encodeBytes blob)

/-- `base64_decode_bits` -/
def base64DecodeBits (data : BitVec 8) : BitVec 8 :=
  if 65 ≤ data ∧ data ≤ 90 then data - 65
  else if 97 ≤ data ∧ data ≤ 122 then data + 26 - 97
  else if 48 ≤ data ∧ data ≤ 57 then data + 52 - 48
  else if data = 43 then 62
  else if data = 47 then 63
  else 0

/-- `sdmbn_base64_decode`: a character without a second one is followed by the end of the text. -/
def sdmbnBase64Decode : List (BitVec 8) → List (BitVec 8)
  | lower :: upper :: blob =>
      ((base64DecodeBits upper <<< 4) ||| base64DecodeBits lower) :: sdmbnBase64Decode blob
  | [lower] => [(base64DecodeBits 0 <<< 4) ||| base64DecodeBits lower]
  | [] => []

theorem decode_encode_byte (byte : BitVec 8) :
    (base64DecodeBits (base64EncodeBits ((byte &&& 0xf0) >>> 4)) <<< 4) |||
      base64DecodeBits (base64EncodeBits (byte &&& 0x0f)) = byte := by
  revert byte
  decide

theorem decode_encodeBytes (blob : List (BitVec 8)) : sdmbnBase64Decode (encodeBytes blob) = blob := by
  induction blob with
  | nil => rfl
  | cons byte blob ih => rw [encodeBytes, sdmbnBase64Decode, decode_encode_byte, ih]

/-- What has been written is read back. -/
theorem sdmbnBase64Decode_encode {blob text : List (BitVec 8)} (h : sdmbnBase64Encode blob = some text) :
    sdmbnBase64Decode text = blob := by
  rw [sdmbnBase64Encode] at h
  split_ifs at h
  cases h
  exact decode_encodeBytes blob

end OFM.Shared
