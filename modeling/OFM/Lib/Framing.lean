import Mathlib.Algebra.BigOperators.Group.List.Basic
import Mathlib.Data.List.Basic
import Mathlib.Data.List.Induction
import Mathlib.Tactic.Ring

/-!
# Frames with a length, and words on the wire

Byte strings on a stream, each behind its length as four bytes with the most significant one first, and
what is known of a decoder that takes them off the stream again. Words of a fixed number of bytes, the most
significant one first, and readers that take bytes off the front of a stream: what a reader yields tells what the
stream was.
-/

namespace OFM.Lib

abbrev Bytes := List UInt8

/-- The length of a field that says how long what follows is. -/
def lengthSize : Nat := 4

/-- The lower 32 bits of a number, most significant byte first. -/
def lengthBytes (n : Nat) : Bytes :=
  [UInt8.ofNat (n / 2 ^ 24), UInt8.ofNat (n / 2 ^ 16), UInt8.ofNat (n / 2 ^ 8), UInt8.ofNat n]

/-- The number that bytes stand for, most significant byte first. -/
def lengthOf (bytes : Bytes) : Nat :=
  bytes.foldl (fun n byte => n * 2 ^ 8 + byte.toNat) 0

@[simp] theorem lengthBytes_length (n : Nat) : (lengthBytes n).length = lengthSize := rfl

theorem lengthOf_lengthBytes (n : Nat) : lengthOf (lengthBytes n) = n % 2 ^ 32 := by
  simp only [lengthOf, lengthBytes, List.foldl_cons, List.foldl_nil, UInt8.toNat_ofNat']
  omega

theorem lengthOf_lengthBytes_of_lt {n : Nat} (h : n < 2 ^ 32) : lengthOf (lengthBytes n) = n := by
  rw [lengthOf_lengthBytes, Nat.mod_eq_of_lt h]

theorem lengthOf_append_singleton (bytes : Bytes) (byte : UInt8) :
    lengthOf (bytes ++ [byte]) = lengthOf bytes * 2 ^ 8 + byte.toNat := by
  rw [lengthOf, List.foldl_append]
  rfl

theorem lengthOf_lt (bytes : Bytes) : lengthOf bytes < 2 ^ (8 * bytes.length) := by
  induction bytes using List.reverseRecOn with
  | nil => decide
  | append_singleton bytes byte ih =>
      have hbyte := byte.toNat_lt
      rw [lengthOf_append_singleton, List.length_append, List.length_singleton, Nat.mul_add, Nat.pow_add]
      omega

/-! ## Frames -/

def frame (body : Bytes) : Bytes := lengthBytes body.length ++ body

/-- One frame behind the other. -/
def frames (bodies : List Bytes) : Bytes := bodies.flatMap frame

@[simp] theorem frame_length (body : Bytes) : (frame body).length = lengthSize + body.length := by
  rw [frame, List.length_append, lengthBytes_length]

@[simp] theorem frames_nil : frames [] = [] := rfl

@[simp] theorem frames_cons (body : Bytes) (bodies : List Bytes) :
    frames (body :: bodies) = frame body ++ frames bodies := rfl

@[simp] theorem frames_append (bodies bodies' : List Bytes) :
    frames (bodies ++ bodies') = frames bodies ++ frames bodies' := List.flatMap_append

/-- The bytes that frames take on the stream. -/
def framedSize (bodies : List Bytes) : Nat := (bodies.map fun body => lengthSize + body.length).sum

@[simp] theorem framedSize_nil : framedSize [] = 0 := rfl

@[simp] theorem framedSize_cons (body : Bytes) (bodies : List Bytes) :
    framedSize (body :: bodies) = lengthSize + body.length + framedSize bodies := rfl

@[simp] theorem framedSize_append (bodies bodies' : List Bytes) :
    framedSize (bodies ++ bodies') = framedSize bodies + framedSize bodies' := by
  simp only [framedSize, List.map_append, List.sum_append]

theorem frames_length (bodies : List Bytes) : (frames bodies).length = framedSize bodies := by
  induction bodies with
  | nil => rfl
  | cons body bodies ih => rw [frames_cons, List.length_append, frame_length, ih, framedSize_cons]

theorem length_le_framedSize (bodies : List Bytes) : bodies.length ≤ framedSize bodies := by
  induction bodies with
  | nil => exact Nat.le_refl 0
  | cons body bodies ih =>
      rw [List.length_cons, framedSize_cons, lengthSize]
      omega

/-! ## Decoders -/

/-- A decoder of a stream of frames that are no longer than a limit, their lengths included. -/
structure FrameDecoder (limit : Nat) where
  decode : Bytes → List Bytes
  /-- Frames up to the limit are delivered, each of them and in order. -/
  whole : ∀ bodies : List Bytes, (∀ body ∈ bodies, lengthSize + body.length ≤ limit) →
    decode (frames bodies) = bodies
  /-- What is delivered has come in a frame up to the limit. -/
  fits : ∀ stream, ∀ body ∈ decode stream, lengthSize + body.length ≤ limit
  /-- No byte of the stream belongs to two frames. -/
  sized : ∀ stream, framedSize (decode stream) ≤ stream.length

namespace FrameDecoder

variable {limit : Nat} (decoder : FrameDecoder limit)

/-- Whole frames are all delivered exactly when none of them is too long. -/
theorem decode_frames_iff (bodies : List Bytes) :
    decoder.decode (frames bodies) = bodies ↔ ∀ body ∈ bodies, lengthSize + body.length ≤ limit :=
  ⟨fun h body hb => decoder.fits _ body (h ▸ hb), decoder.whole bodies⟩

/-- What is missing on the stream is missing in what is delivered. -/
theorem decode_ne {stream : Bytes} {bodies : List Bytes} (h : stream.length < framedSize bodies) :
    decoder.decode stream ≠ bodies := by
  intro he
  have := decoder.sized stream
  rw [he] at this
  omega

end FrameDecoder

/-- Reads a length, then delivers what it announces or, where that is too long, passes over it. -/
def decodeFrames (limit : Nat) : Nat → Bytes → List Bytes
  | 0, _ => []
  | fuel + 1, stream =>
      let length := lengthOf (stream.take lengthSize)
      let body := (stream.drop lengthSize).take length
      let rest := (stream.drop lengthSize).drop length
      if stream.length < lengthSize + length then []
      else if limit < lengthSize + length then decodeFrames limit fuel rest
      else body :: decodeFrames limit fuel rest

theorem decodeFrames_frames {limit : Nat} (hlimit : limit < 2 ^ 32) {bodies : List Bytes} {fuel : Nat}
    (hfuel : bodies.length ≤ fuel) (hfit : ∀ body ∈ bodies, lengthSize + body.length ≤ limit) :
    decodeFrames limit fuel (frames bodies) = bodies := by
  induction bodies generalizing fuel with
  | nil => cases fuel <;> rfl
  | cons body bodies ih =>
      obtain ⟨fuel, rfl⟩ : ∃ n, fuel = n + 1 := ⟨fuel - 1, by simp at hfuel; omega⟩
      have hbody := hfit body (List.mem_cons_self ..)
      have hlen : lengthOf (lengthBytes body.length) = body.length :=
        lengthOf_lengthBytes_of_lt (by omega)
      have htake : (frames (body :: bodies)).take lengthSize = lengthBytes body.length := by
        rw [frames_cons, frame, List.append_assoc]
        exact List.take_left' (lengthBytes_length _)
      have hdrop : (frames (body :: bodies)).drop lengthSize = body ++ frames bodies := by
        rw [frames_cons, frame, List.append_assoc]
        exact List.drop_left' (lengthBytes_length _)
      have hsize : ¬ (frames (body :: bodies)).length < lengthSize + body.length := by
        rw [frames_length, framedSize_cons]
        omega
      simp only [decodeFrames, htake, hlen, hdrop, List.take_left', List.drop_left', if_neg hsize,
        if_neg (Nat.not_lt.mpr hbody)]
      rw [ih (by simpa using hfuel) fun b hb => hfit b (List.mem_cons_of_mem _ hb)]

theorem decodeFrames_fits {limit fuel : Nat} {stream body : Bytes}
    (h : body ∈ decodeFrames limit fuel stream) : lengthSize + body.length ≤ limit := by
  induction fuel generalizing stream with
  | zero => cases h
  | succ fuel ih =>
      simp only [decodeFrames] at h
      split at h
      · cases h
      · split at h
        · exact ih h
        · rename_i hle
          rcases List.mem_cons.mp h with rfl | h
          · rw [List.length_take]
            omega
          · exact ih h

theorem decodeFrames_sized (limit fuel : Nat) (stream : Bytes) :
    framedSize (decodeFrames limit fuel stream) ≤ stream.length := by
  induction fuel generalizing stream with
  | zero => exact Nat.zero_le _
  | succ fuel ih =>
      simp only [decodeFrames]
      split
      · exact Nat.zero_le _
      · have hrest := ih ((stream.drop lengthSize).drop (lengthOf (stream.take lengthSize)))
        rw [List.length_drop, List.length_drop] at hrest
        split
        · omega
        · rw [framedSize_cons, List.length_take, List.length_drop]
          omega

/-- A decoder for every limit that four bytes can announce. -/
def FrameDecoder.passingOver {limit : Nat} (hlimit : limit < 2 ^ 32) : FrameDecoder limit where
  decode stream := decodeFrames limit stream.length stream
  whole bodies hfit := by
    refine decodeFrames_frames hlimit ?_ hfit
    rw [frames_length]
    exact length_le_framedSize bodies
  fits _ _ h := decodeFrames_fits h
  sized stream := decodeFrames_sized limit stream.length stream

variable {ε α β : Type} {k n : Nat} {bytes stream rest : Bytes}

/-! ## Words -/

/-- The lower bytes of a number, most significant byte first. -/
def bigEndian : Nat → Nat → Bytes
  | 0, _ => []
  | k + 1, n => bigEndian k (n / 2 ^ 8) ++ [UInt8.ofNat n]

@[simp] theorem bigEndian_length : (bigEndian k n).length = k := by
  induction k generalizing n with
  | zero => rfl
  | succ k ih => rw [bigEndian, List.length_append, ih, List.length_singleton]

theorem lengthOf_bigEndian : lengthOf (bigEndian k n) = n % 2 ^ (8 * k) := by
  induction k generalizing n with
  | zero => exact (Nat.mod_one n).symm
  | succ k ih =>
      have hbyte : (UInt8.ofNat n).toNat = n % 2 ^ 8 := UInt8.toNat_ofNat'
      have hpow : 2 ^ (8 * (k + 1)) = 2 ^ 8 * 2 ^ (8 * k) := by rw [Nat.mul_add, Nat.pow_add, Nat.mul_comm]
      rw [bigEndian, lengthOf_append_singleton, ih, hbyte, hpow, Nat.mod_mul]
      omega

theorem bigEndian_lengthOf (bytes : Bytes) : bigEndian bytes.length (lengthOf bytes) = bytes := by
  induction bytes using List.reverseRecOn with
  | nil => rfl
  | append_singleton bytes byte ih =>
      have hbyte := byte.toNat_lt
      have hdiv : (lengthOf bytes * 2 ^ 8 + byte.toNat) / 2 ^ 8 = lengthOf bytes := by omega
      have hofNat : UInt8.ofNat (lengthOf bytes * 2 ^ 8 + byte.toNat) = byte := by
        refine UInt8.toNat_inj.mp ?_
        rw [UInt8.toNat_ofNat']
        omega
      rw [List.length_append, List.length_singleton, bigEndian, lengthOf_append_singleton, hdiv, ih,
        hofNat]

/-- The bytes of a word. -/
def wordBytes (k : Nat) (word : BitVec (8 * k)) : Bytes := bigEndian k word.toNat

/-- The word that bytes make up. -/
def wordOf (k : Nat) (bytes : Bytes) : BitVec (8 * k) := BitVec.ofNat _ (lengthOf bytes)

@[simp] theorem wordBytes_length (word : BitVec (8 * k)) : (wordBytes k word).length = k :=
  bigEndian_length

@[simp] theorem wordOf_wordBytes (word : BitVec (8 * k)) : wordOf k (wordBytes k word) = word := by
  refine BitVec.eq_of_toNat_eq ?_
  rw [wordOf, wordBytes, lengthOf_bigEndian, BitVec.toNat_ofNat, Nat.mod_mod,
    Nat.mod_eq_of_lt word.isLt]

theorem wordBytes_wordOf (h : bytes.length = k) : wordBytes k (wordOf k bytes) = bytes := by
  subst h
  have hlt := lengthOf_lt bytes
  rw [wordOf, wordBytes, BitVec.toNat_ofNat, Nat.mod_eq_of_lt hlt, bigEndian_lengthOf]

/-- Some bytes between others. -/
theorem take_drop_append {before after : Bytes} (hbefore : before.length = n) (hbytes : bytes.length = k) :
    ((before ++ (bytes ++ after)).drop n).take k = bytes := by
  rw [List.drop_left' hbefore, List.take_left' hbytes]

/-- The word at an index. -/
def wordAt (k index : Nat) (bytes : Bytes) : BitVec (8 * k) := wordOf k ((bytes.drop index).take k)

theorem wordAt_append {before after : Bytes} {word : BitVec (8 * k)} (h : before.length = n) :
    wordAt k n (before ++ (wordBytes k word ++ after)) = word := by
  rw [wordAt, take_drop_append h (wordBytes_length word), wordOf_wordBytes]

theorem wordAt_append_left (h : n + k ≤ bytes.length) (rest : Bytes) :
    wordAt k n (bytes ++ rest) = wordAt k n bytes := by
  have hdrop : k ≤ (bytes.drop n).length := by
    rw [List.length_drop]
    omega
  rw [wordAt, wordAt, List.drop_append_of_le_length (by omega), List.take_append_of_le_length hdrop]

theorem wordAt_split (h : n + k ≤ bytes.length) :
    bytes = bytes.take n ++ (wordBytes k (wordAt k n bytes) ++ bytes.drop (n + k)) := by
  have hlength : ((bytes.drop n).take k).length = k := by
    rw [List.length_take, List.length_drop]
    omega
  rw [wordAt, wordBytes_wordOf hlength, ← List.drop_drop, List.take_append_drop, List.take_append_drop]

/-! ## Readers -/

/-- What takes bytes off the front of a stream and may fail. -/
abbrev Reader (ε α : Type) := StateT Bytes (Except ε) α

namespace Reader

/-- Some bytes; a stream that is too short fails. -/
def take (short : ε) (k : Nat) : Reader ε Bytes := fun stream =>
  if k ≤ stream.length then .ok (stream.take k, stream.drop k) else .error short

def word (short : ε) (k : Nat) : Reader ε (BitVec (8 * k)) := do
  let bytes ← take short k
  pure (wordOf k bytes)

/-- All that is left. -/
def remaining : Reader ε Bytes := fun stream => .ok (stream, [])

theorem bind_eq_ok {r : Reader ε α} {f : α → Reader ε β} {b : β} :
    (r >>= f) stream = .ok (b, rest) ↔
      ∃ a stream', r stream = .ok (a, stream') ∧ f a stream' = .ok (b, rest) := by
  have hbind : (r >>= f) stream = (r stream >>= fun p => f p.1 p.2) := rfl
  rw [hbind]
  cases h : r stream with
  | error e =>
      refine ⟨fun h => ?_, ?_⟩
      · cases h
      · rintro ⟨_, _, h, _⟩
        cases h
  | ok p =>
      refine ⟨fun h => ⟨p.1, p.2, rfl, h⟩, ?_⟩
      rintro ⟨a, stream', hp, hf⟩
      cases hp
      exact hf

@[simp] theorem pure_eq_ok {a b : α} :
    (pure a : Reader ε α) stream = .ok (b, rest) ↔ a = b ∧ stream = rest := by
  have hpure : (pure a : Reader ε α) stream = .ok (a, stream) := rfl
  rw [hpure, Except.ok.injEq, Prod.mk.injEq]

theorem take_eq_ok {short : ε} :
    take short k stream = .ok (bytes, rest) ↔ stream = bytes ++ rest ∧ bytes.length = k := by
  rw [take]
  constructor
  · intro h
    split at h
    · rename_i hle
      cases h
      exact ⟨(List.take_append_drop k stream).symm, List.length_take_of_le hle⟩
    · cases h
  · rintro ⟨rfl, rfl⟩
    rw [if_pos (by rw [List.length_append]; omega), List.take_left, List.drop_left]

theorem word_eq_ok {short : ε} {v : BitVec (8 * k)} :
    word short k stream = .ok (v, rest) ↔ stream = wordBytes k v ++ rest := by
  rw [word, bind_eq_ok]
  constructor
  · rintro ⟨bytes, stream', hbytes, hv⟩
    obtain ⟨rfl, hk⟩ := take_eq_ok.mp hbytes
    obtain ⟨rfl, rfl⟩ := pure_eq_ok.mp hv
    rw [wordBytes_wordOf hk]
  · rintro rfl
    exact ⟨wordBytes k v, rest, take_eq_ok.mpr ⟨rfl, wordBytes_length v⟩, pure_eq_ok.mpr
      ⟨wordOf_wordBytes v, rfl⟩⟩

@[simp] theorem remaining_eq_ok :
    (remaining : Reader ε Bytes) stream = .ok (bytes, rest) ↔ stream = bytes ∧ rest = [] := by
  rw [remaining, Except.ok.injEq, Prod.mk.injEq, eq_comm (a := [])]

end Reader

end OFM.Lib
