import OFM.Bro.HashKey
import OFM.Lib.Pointer

/-!
# Classes with buffers

The classes of Bro whose `serialize` archives a buffer or a string by hand, as `bro.patch` has them. Members
that are not archived are left out; what other functions archive is a parameter.
-/

namespace OFM.Bro.Buffers
open OFM.Lib

/-! ## Location -/

structure Location where
  filename : CharPointer
  firstLine : BitVec 32
  lastLine : BitVec 32
  firstColumn : BitVec 32
  lastColumn : BitVec 32
  deleteData : Bool
  timestamp : BitVec 32
  text : CharPointer

namespace Location

/-- The lines, the columns and the time stamp. -/
def saveNumbers (l : Location) : List Item :=
  save l.firstLine ++ save l.lastLine ++ save l.firstColumn ++ save l.lastColumn ++ save l.timestamp

/-- `Location::serialize` -/
def save (l : Location) : Option (List Item) := do
  let filenameLen := BitVec.ofNat 32 ((← l.filename.strlen) + 1)
  let filename ← binaryObject l.filename filenameLen
  let text ← saveChars l.text
  return Lib.save filenameLen ++ filename ++ l.saveNumbers ++ text

def load : Loader Location := do
  let filenameLen ← Lib.load (α := BitVec 32)
  let filename ← Loader.blockOf filenameLen
  let firstLine ← Lib.load
  let lastLine ← Lib.load
  let firstColumn ← Lib.load
  let lastColumn ← Lib.load
  let timestamp ← Lib.load
  let text ← loadChars
  return ⟨some filename, firstLine, lastLine, firstColumn, lastColumn, true, timestamp, text⟩

/-- The strings and the numbers; the file name is now to be deleted with the object. -/
def Same (l l' : Location) : Prop :=
  l.filename.SameString l'.filename ∧ l.text.SameString l'.text ∧
    l' = { l with filename := l'.filename, text := l'.text, deleteData := true }

/-- The strings are strings. -/
def Valid (l : Location) : Prop := l.filename.NullOrString ∧ l.text.NullOrString

/-- There is a file name, of a length that fits an `int`, and no text. -/
def Restored (l : Location) : Prop :=
  (∃ s, l.filename.IsString s ∧ s.length + 1 < 2 ^ 31) ∧ l.text = none

end Location

/-! ## BroFile -/

section Parameters

variable (Base Ref : Type) [Archived Base] [Archived Ref]

/-- The base class and the pointers to other objects are of other types. -/
structure BroFile where
  base : Base
  t : Ref
  name : CharPointer
  access : CharPointer
  isInCache : BitVec 32
  isOpen : BitVec 32
  okayToManage : BitVec 32
  position : BitVec 64
  next : Ref
  prev : Ref
  attrs : Ref
  rotateInterval : BitVec 64
  buffered : Bool
  rotateSize : BitVec 64
  currentSize : BitVec 64
  openTime : BitVec 64
  dontRotate : Bool
  printHook : Bool
  rawOutput : Bool
  cipherBuffer : CharPointer
  cipherSize : BitVec 32

/-- Between `access` and the cipher buffer. -/
def BroFile.saveMembers {Base Ref : Type} [Archived Base] [Archived Ref] (f : BroFile Base Ref) : List Item :=
  save f.isInCache ++ save f.isOpen ++ save f.okayToManage ++ save f.position ++ save f.next ++ save f.prev ++
    save f.attrs ++ save f.rotateInterval ++ save f.buffered ++ save f.rotateSize ++ save f.currentSize ++
    save f.openTime ++ save f.dontRotate ++ save f.printHook ++ save f.rawOutput ++ save f.cipherSize

variable {Base Ref}

namespace BroFile

/-- `BroFile::serialize` -/
def save (f : BroFile Base Ref) : Option (List Item) := do
  let name ← saveChars f.name
  let access ← saveChars f.access
  let cipherBuffer ← saveBuffer f.cipherBuffer f.cipherSize
  return Lib.save f.base ++ Lib.save f.t ++ name ++ access ++ f.saveMembers ++ cipherBuffer

def load : Loader (BroFile Base Ref) := do
  let base ← Lib.load
  let t ← Lib.load
  let name ← loadChars
  let access ← loadChars
  let isInCache ← Lib.load
  let isOpen ← Lib.load
  let okayToManage ← Lib.load
  let position ← Lib.load
  let next ← Lib.load
  let prev ← Lib.load
  let attrs ← Lib.load
  let rotateInterval ← Loader.double
  let buffered ← Lib.load
  let rotateSize ← Loader.double
  let currentSize ← Loader.double
  let openTime ← Loader.double
  let dontRotate ← Lib.load
  let printHook ← Lib.load
  let rawOutput ← Lib.load
  let cipherSize ← Lib.load
  let cipherBuffer ← loadBuffer cipherSize
  return ⟨base, t, name, access, isInCache, isOpen, okayToManage, position, next, prev, attrs, rotateInterval,
    buffered, rotateSize, currentSize, openTime, dontRotate, printHook, rawOutput, cipherBuffer, cipherSize⟩

/-- The strings, what is in the cipher buffer, and all other members. -/
def Same (f f' : BroFile Base Ref) : Prop :=
  f.name.SameString f'.name ∧ f.access.SameString f'.access ∧
    f'.cipherBuffer.read (bytes f.cipherSize) = f.cipherBuffer.read (bytes f.cipherSize) ∧
    f' = { f with name := f'.name, access := f'.access, cipherBuffer := f'.cipherBuffer }

/-- The strings are strings, and a cipher buffer has its size; without one, the size has not been set. -/
def Valid (f : BroFile Base Ref) : Prop :=
  f.name.NullOrString ∧ f.access.NullOrString ∧
    (f.cipherBuffer ≠ none → (f.cipherBuffer.read (bytes f.cipherSize)).isSome)

def FiniteTimes (f : BroFile Base Ref) : Prop :=
  Finite f.rotateInterval ∧ Finite f.rotateSize ∧ Finite f.currentSize ∧ Finite f.openTime

instance (f : BroFile Base Ref) : Decidable f.FiniteTimes := inferInstanceAs (Decidable (_ ∧ _))

/-- There is neither a name nor an access mode, nor a size of a cipher buffer that is not there. -/
def Restored (f : BroFile Base Ref) : Prop :=
  f.name = none ∧ f.access = none ∧ (f.cipherBuffer = none → ¬ 0 < f.cipherSize.toInt) ∧ f.FiniteTimes

end BroFile

end Parameters

/-! ## BroString -/

structure BroString where
  b : CharPointer
  n : BitVec 32
  finalNUL : BitVec 1
  useFreeToDelete : BitVec 1

namespace BroString

/-- `n + final_NUL` -/
def size (s : BroString) : BitVec 32 := s.n + s.finalNUL.setWidth 32

/-- `BroString::serialize` -/
def save (s : BroString) : Option (List Item) := do
  let bitfields : BitVec 32 := s.finalNUL.setWidth 32
  let b ← if 0 < s.n.toInt then binaryObject s.b s.size else some []
  return Lib.save bitfields ++ Lib.save s.n ++ b

/-- Over an object that `BroString()` has made. -/
def load : Loader BroString := do
  let bitfields ← Lib.load (α := BitVec 32)
  let n ← Lib.load
  let s : BroString := ⟨none, n, (bitfields &&& 1).setWidth 1, 0⟩
  if 0 < n.toInt then return { s with b := some (← Loader.blockOf s.size) } else return s

/-- The bytes with the final NUL, and the length; the new buffer is not to be freed by `free`. -/
def Same (s s' : BroString) : Prop :=
  s'.b.read (bytes s.size) = s.b.read (bytes s.size) ∧ s' = { s with b := s'.b, useFreeToDelete := 0 }

/-- The bytes are there, and no more than an `int` counts. -/
def Valid (s : BroString) : Prop :=
  0 ≤ s.n.toInt ∧ s.n.toInt + s.finalNUL.toNat < 2 ^ 31 ∧ (s.b.read (bytes s.size)).isSome

/-- It is not a string of length 0 with a final NUL. -/
def Restored (s : BroString) : Prop := s.n = 0 → s.finalNUL = 0

end BroString

/-! ## HashKey -/

inductive HashKeyType where
  | int
  | uint
  | double
  | ptr
  | none
  deriving DecidableEq

namespace HashKeyType

def toNat : HashKeyType → Nat
  | int => 0
  | uint => 1
  | double => 2
  | ptr => 3
  | none => 4

def ofNat? : Nat → Option HashKeyType
  | 0 => some int
  | 1 => some uint
  | 2 => some double
  | 3 => some ptr
  | 4 => some none
  | _ => .none

end HashKeyType

instance : Archived HashKeyType where
  save type := [.number type.toNat]
  load := do
    match HashKeyType.ofNat? (← Loader.number) with
    | some type => pure type
    | .none => failure
  load_save type rest := by cases type <;> rfl

/-- Where the key is. -/
inductive KeyPointer where
  /-- In `key_u`. -/
  | union
  | block (p : CharPointer)

structure HashKey where
  /-- The bits of the union. -/
  keyU : BitVec 64
  key : KeyPointer
  isOurDynamic : BitVec 32
  size : BitVec 32
  hash : BitVec 32
  type : HashKeyType

namespace HashKey

/-- The union as it lies in memory. -/
def unionBytes (keyU : BitVec 64) : List (BitVec 8) := (List.range 8).map fun i => keyU.extractLsb' (8 * i) 8

/-- `key` as a pointer to bytes. -/
def bytesOf (k : HashKey) : CharPointer :=
  match k.key with
  | .union => some (unionBytes k.keyU)
  | .block p => p

/-- The bytes that the key is. -/
def value (k : HashKey) : Option (List (BitVec 8)) := k.bytesOf.read (bytes k.size)

/-- `HashKey::serialize` -/
def save (k : HashKey) : Option (List Item) := do
  let key ← match k.type with
    | .int => some (Lib.save k.keyU)
    | .uint => some (Lib.save (k.keyU.setWidth 32))
    | .double => some (Lib.save k.keyU)
    | .ptr => binaryObject k.bytesOf k.size
    | .none => binaryObject k.bytesOf k.size
  return Lib.save k.size ++ Lib.save k.type ++ key ++ Lib.save k.hash

/-- Over an object that `HashKey()` has left as it was; `fresh` is where `new` finds room. -/
def load (uninit : HashKey) (fresh : BitVec 64) : Loader HashKey := do
  let size ← Lib.load
  let type ← Lib.load
  let k := { uninit with size, type }
  let k ← match type with
    | .int => do
        let i ← Lib.load
        pure { k with keyU := i, key := .union }
    | .uint => do
        let u32 ← Lib.load (α := BitVec 32)
        pure { k with keyU := k.keyU.extractLsb' 32 32 ++ u32, key := .union }
    | .double => do
        let d ← Loader.double
        pure { k with keyU := d, key := .union }
    | .ptr => do
        let _ ← Loader.blockOf size
        pure { k with keyU := fresh, key := .union, isOurDynamic := 1 }
    | .none => do
        let ptr ← Loader.blockOf size
        pure { k with key := .block (some ptr), isOurDynamic := 1 }
  let hash ← Lib.load
  return { k with hash }

/-- The key and its hash, and `is_our_dynamic` says whether the key is in a block of its own. -/
def Same (k k' : HashKey) : Prop :=
  k'.value = k.value ∧ k'.size = k.size ∧ k'.hash = k.hash ∧ k'.type = k.type ∧
    (k'.isOurDynamic ≠ 0 ↔ ∃ p, k'.key = .block p)

end HashKey

/-- The constructors of `HashKey`, with their arguments. -/
inductive Construction where
  | ofInt (i : BitVec 64)
  | ofUint (u : BitVec 64)
  /-- Only half of the union is written. -/
  | ofUint32 (u : BitVec 32) (above : BitVec 32)
  | ofWords (u : CharPointer) (n : BitVec 32)
  | ofDouble (d : BitVec 64)
  | ofPointer (p : BitVec 64)
  | ofChars (s : CharPointer)
  | ofBroString (s : BroString)
  /-- With a copy of the key or with the key itself, which it then owns. -/
  | ofCopy (key : CharPointer) (size : BitVec 32)
  | ofKey (key : CharPointer) (size : BitVec 32) (hash : BitVec 32)
  | dontCopy (key : CharPointer) (size : BitVec 32) (hash : BitVec 32)
  | ofBytes (key : CharPointer) (size : BitVec 32)

namespace Construction

/-- With the key in the union. -/
def inUnion (hashBytes : List (BitVec 8) → BitVec 64) (keyU : BitVec 64) (size : BitVec 32)
    (type : HashKeyType) : HashKey :=
  ⟨keyU, .union, 0, size, (hashBytes ((HashKey.unionBytes keyU).take (bytes size))).setWidth 32, type⟩

/-- With the key in memory; the union is not written. -/
def inMemory (key : CharPointer) (size hash : BitVec 32) (own : BitVec 32) : HashKey :=
  ⟨0, .block key, own, size, hash, .none⟩

/-- What `HashBytes` makes of the key. -/
def hashOf (hashBytes : List (BitVec 8) → BitVec 64) (key : CharPointer) (size : BitVec 32) : BitVec 32 :=
  (hashBytes ((key.read (bytes size)).getD [])).setWidth 32

def construct (hashBytes : List (BitVec 8) → BitVec 64) : Construction → HashKey
  | ofInt i => inUnion hashBytes i 8 .int
  | ofUint u => inUnion hashBytes u 8 .int
  | ofUint32 u above => inUnion hashBytes (above ++ u) 4 .uint
  | ofWords u n => inMemory u (n * 4) (hashOf hashBytes u (n * 4)) 0
  | ofDouble d => inUnion hashBytes d 8 .double
  | ofPointer p => inUnion hashBytes p 8 .ptr
  | ofChars s =>
      let size := BitVec.ofNat 32 (s.strlen.getD 0)
      inMemory s size (hashOf hashBytes s size) 0
  | ofBroString s => inMemory s.b s.n (hashOf hashBytes s.b s.n) 0
  | ofCopy key size => inMemory key size (hashOf hashBytes key size) 1
  | ofKey key size hash => inMemory key size hash 1
  | dontCopy key size hash => inMemory key size hash 0
  | ofBytes key size => inMemory key size (hashOf hashBytes key size) 1

/-- The bytes of the key are there. -/
def Valid (hashBytes : List (BitVec 8) → BitVec 64) (c : Construction) : Prop :=
  0 ≤ (c.construct hashBytes).size.toInt ∧ ((c.construct hashBytes).value).isSome

/-- The key is not a pointer; where it is in the union, `is_our_dynamic` happens to be 0, and a number is
finite. -/
def Restored (uninit : HashKey) : Construction → Prop
  | ofInt _ | ofUint _ | ofUint32 .. => uninit.isOurDynamic = 0
  | ofDouble d => uninit.isOurDynamic = 0 ∧ Finite d
  | ofPointer _ => False
  | _ => True

end Construction

section Parameters

variable (Base Ref : Type) [Archived Base] [Archived Ref]

/-! ## CompositeHash -/

structure CompositeHash where
  type : Ref
  key : CharPointer
  size : BitVec 32
  isSingleton : BitVec 32
  isComplexType : BitVec 32
  singletonTag : BitVec 32

/-! ## ContentLine_Analyzer -/

structure ContentLineAnalyzer where
  base : Base
  buf : CharPointer
  offset : BitVec 32
  bufLen : BitVec 32
  lastChar : BitVec 32
  seq : BitVec 64
  seqToSkip : BitVec 64
  seqDeliveredInLines : BitVec 64
  skipPending : BitVec 64
  plainDeliveryLength : BitVec 64
  isPlain : BitVec 32
  skipDeliveries : BitVec 32
  flagNULs : BitVec 1
  crLfAsEOL : BitVec 2
  skipPartial : BitVec 1

/-! ## DataBlock -/

structure DataBlock where
  next : Ref
  prev : Ref
  seq : BitVec 32
  upper : BitVec 32
  block : CharPointer

variable {Base Ref}

namespace CompositeHash

/-- `CompositeHash::serialize` -/
def save (h : CompositeHash Ref) : Option (List Item) := do
  let key ← saveBuffer h.key h.size
  return Lib.save h.type ++ Lib.save h.size ++ key ++ Lib.save h.isSingleton ++ Lib.save h.isComplexType ++
    Lib.save h.singletonTag

def load : Loader (CompositeHash Ref) := do
  let type ← Lib.load
  let size ← Lib.load
  let key ← loadBuffer size
  let isSingleton ← Lib.load
  let isComplexType ← Lib.load
  let singletonTag ← Lib.load
  return ⟨type, key, size, isSingleton, isComplexType, singletonTag⟩

/-- The bytes of the key, and all other members. -/
def Same (h h' : CompositeHash Ref) : Prop :=
  h'.key.read (bytes h.size) = h.key.read (bytes h.size) ∧ h' = { h with key := h'.key }

/-- The key has its size. -/
def Valid (h : CompositeHash Ref) : Prop := (h.key.read (bytes h.size)).isSome

end CompositeHash

namespace ContentLineAnalyzer

/-- The bit fields in one word. -/
def bitfields (a : ContentLineAnalyzer Base) : BitVec 32 :=
  a.flagNULs.setWidth 32 ||| a.crLfAsEOL.setWidth 32 <<< 1 ||| a.skipPartial.setWidth 32 <<< 3

/-- `ContentLine_Analyzer::serialize` -/
def save (a : ContentLineAnalyzer Base) : Option (List Item) := do
  let buf ← saveBuffer a.buf a.bufLen
  return Lib.save a.base ++ Lib.save a.bufLen ++ buf ++ Lib.save a.offset ++ Lib.save a.lastChar ++
    Lib.save a.seq ++ Lib.save a.seqToSkip ++ Lib.save a.seqDeliveredInLines ++ Lib.save a.skipPending ++
    Lib.save a.plainDeliveryLength ++ Lib.save a.isPlain ++ Lib.save a.skipDeliveries ++ Lib.save a.bitfields

def load : Loader (ContentLineAnalyzer Base) := do
  let base ← Lib.load
  let bufLen ← Lib.load
  let buf ← loadBuffer bufLen
  let offset ← Lib.load
  let lastChar ← Lib.load
  let seq ← Lib.load
  let seqToSkip ← Lib.load
  let seqDeliveredInLines ← Lib.load
  let skipPending ← Lib.load
  let plainDeliveryLength ← Lib.load
  let isPlain ← Lib.load
  let skipDeliveries ← Lib.load
  let bitfields ← Lib.load (α := BitVec 32)
  return ⟨base, buf, offset, bufLen, lastChar, seq, seqToSkip, seqDeliveredInLines, skipPending,
    plainDeliveryLength, isPlain, skipDeliveries, (bitfields &&& 1).setWidth 1,
    (bitfields >>> 1 &&& 3).setWidth 2, (bitfields >>> 3 &&& 1).setWidth 1⟩

/-- What is in the buffer, and all other members. -/
def Same (a a' : ContentLineAnalyzer Base) : Prop :=
  a'.buf.read (bytes a.bufLen) = a.buf.read (bytes a.bufLen) ∧ a' = { a with buf := a'.buf }

/-- The buffer has its length. -/
def Valid (a : ContentLineAnalyzer Base) : Prop := (a.buf.read (bytes a.bufLen)).isSome

end ContentLineAnalyzer

namespace DataBlock

/-- `Size` -/
def size (d : DataBlock Ref) : BitVec 32 := d.upper - d.seq

/-- `DataBlock::serialize` -/
def save (d : DataBlock Ref) : Option (List Item) := do
  let block ← saveBuffer d.block d.size
  return Lib.save d.next ++ Lib.save d.prev ++ Lib.save d.seq ++ Lib.save d.upper ++ block

def load : Loader (DataBlock Ref) := do
  let next ← Lib.load
  let prev ← Lib.load
  let seq ← Lib.load
  let upper ← Lib.load
  let block ← loadBuffer (upper - seq)
  return ⟨next, prev, seq, upper, block⟩

/-- What is in the block, and all other members. -/
def Same (d d' : DataBlock Ref) : Prop :=
  d'.block.read (bytes d.size) = d.block.read (bytes d.size) ∧ d' = { d with block := d'.block }

/-- The block has its size. -/
def Valid (d : DataBlock Ref) : Prop := (d.block.read (bytes d.size)).isSome

end DataBlock

/-! ## All of them -/

variable (Base Ref)

/-- An object of one of the classes. -/
inductive Buffered where
  | location (l : Location)
  | broFile (f : BroFile Base Ref)
  | broString (s : BroString)
  /-- With what there is in memory when it is loaded. -/
  | hashKey (c : Construction) (uninit : HashKey) (fresh : BitVec 64)
  | compositeHash (h : CompositeHash Ref)
  | contentLineAnalyzer (a : ContentLineAnalyzer Base)
  | dataBlock (d : DataBlock Ref)

variable {Base Ref}

namespace Buffered

variable (hashBytes : List (BitVec 8) → BitVec 64)

def Valid : Buffered Base Ref → Prop
  | location l => l.Valid
  | broFile f => f.Valid
  | broString s => s.Valid
  | hashKey c _ _ => c.Valid hashBytes
  | compositeHash h => h.Valid
  | contentLineAnalyzer a => a.Valid
  | dataBlock d => d.Valid

/-- Saving and loading gives the object again. -/
def RoundTrips : Buffered Base Ref → Prop
  | location l => Lib.RoundTrips Location.save Location.load Location.Same l
  | broFile f => Lib.RoundTrips BroFile.save BroFile.load BroFile.Same f
  | broString s => Lib.RoundTrips BroString.save BroString.load BroString.Same s
  | hashKey c uninit fresh =>
      Lib.RoundTrips HashKey.save (HashKey.load uninit fresh) HashKey.Same (c.construct hashBytes)
  | compositeHash h => Lib.RoundTrips CompositeHash.save CompositeHash.load CompositeHash.Same h
  | contentLineAnalyzer a =>
      Lib.RoundTrips ContentLineAnalyzer.save ContentLineAnalyzer.load ContentLineAnalyzer.Same a
  | dataBlock d => Lib.RoundTrips DataBlock.save DataBlock.load DataBlock.Same d

def Restored : Buffered Base Ref → Prop
  | location l => l.Restored
  | broFile f => f.Restored
  | broString s => s.Restored
  | hashKey c uninit _ => c.Restored uninit
  | _ => True

end Buffered

end Parameters

end OFM.Bro.Buffers
