import OFM.Controller.Channel
import OFM.Controller.ReprocessEvent
import OFM.Controller.Text
import OFM.Lib.Framing

/-!
# What the controller writes

`sendMessage` of `StateChannel.java`: the message as a JSON text, and the text as a frame in a buffer of a
fixed size. What Gson and the charset of the platform do is a parameter.
-/

namespace OFM.Controller
open OFM.Lib (Bytes lengthBytes)

/-- The messages that are written, with the fields of their classes; of any other class a
`MessageException` is thrown. A field that is null is `none`. -/
inductive SentMessage
  | getPerflow (id : Int) (key : Option PerflowKey) (raiseEvents : Int)
  | getMultiflow (id : Int) (key : Option PerflowKey)
  | getAllflows (id : Int)
  | getConfig (id : Int) (key : Option PerflowKey)
  | putPerflow (id seq : Int) (key : Option PerflowKey) (hashkey : Int) (state : Option JavaString)
  | putMultiflow (id seq : Int) (key : Option PerflowKey) (hashkey : Int) (state : Option JavaString)
  | putAllflows (id hashkey : Int) (state : Option JavaString)
  | putConfig (id seq : Int) (key : Option PerflowKey) (hashkey : Int) (state : Option JavaString)
  | delPerflow (id : Int) (key : Option PerflowKey)
  | delMultiflow (id : Int) (key : Option PerflowKey) (deltype : Int)
  | enableEvents (id : Int) (key : Option PerflowKey) (action : Option JavaString)
  | disableEvents (id : Int) (key : Option PerflowKey)

namespace SentMessage

def id : SentMessage → Int
  | getPerflow id .. | getMultiflow id .. | getAllflows id | getConfig id .. | putPerflow id ..
  | putMultiflow id .. | putAllflows id .. | putConfig id .. | delPerflow id .. | delMultiflow id ..
  | enableEvents id .. | disableEvents id .. => id

def key : SentMessage → Option PerflowKey
  | getPerflow _ key _ | getMultiflow _ key | getConfig _ key | putPerflow _ _ key _ _
  | putMultiflow _ _ key _ _ | putConfig _ _ key _ _ | delPerflow _ key | delMultiflow _ key _
  | enableEvents _ key _ | disableEvents _ key => key
  | getAllflows _ | putAllflows .. => none

/-- The state of a put. -/
def state : SentMessage → Option JavaString
  | putPerflow _ _ _ _ state | putMultiflow _ _ _ _ state | putAllflows _ _ state
  | putConfig _ _ _ _ state => state
  | _ => none

def action : SentMessage → Option JavaString
  | enableEvents _ _ action => action
  | _ => none

/-- The string fields of a message and of its key, but for the type, which is a constant. -/
def texts (msg : SentMessage) : List JavaString :=
  (msg.key.elim [] fun key => key.nwSrc.toList ++ key.nwDst.toList) ++ msg.action.toList ++
    msg.state.toList

end SentMessage

/-- `toJson`. Gson writes a code unit of a string as it is or, where `escapes` says so, as an escape
sequence; all else it writes ASCII has. -/
class Gson where
  toJson : SentMessage → JavaString
  escapes : UInt16 → Bool
  isAscii_toJson : ∀ msg : SentMessage, IsAscii (toJson msg) ↔
    ∀ text ∈ msg.texts, ∀ unit ∈ text, unit < 0x80 ∨ escapes unit

/-! ## The buffer -/

/-- A `ChannelBuffer` of a fixed capacity. -/
structure ChannelBuffer where
  capacity : Nat
  bytes : Bytes

namespace ChannelBuffer

/-- `ChannelBuffers.buffer` -/
def buffer (capacity : Nat) : ChannelBuffer := ⟨capacity, []⟩

def writeBytes (buf : ChannelBuffer) (bytes : Bytes) : Except JavaException ChannelBuffer :=
  if buf.bytes.length + bytes.length ≤ buf.capacity then .ok { buf with bytes := buf.bytes ++ bytes }
  else .error .indexOutOfBounds

/-- The lower 32 bits, most significant byte first. -/
def writeInt (buf : ChannelBuffer) (value : Nat) : Except JavaException ChannelBuffer :=
  buf.writeBytes (lengthBytes value)

end ChannelBuffer

/-- `StateChannel.sendMessage`: the bytes that are written to the channel. -/
def sendMessage [Gson] [Charset] (msg : SentMessage) : Except JavaException Bytes := do
  let json := Gson.toJson msg
  let buf := ChannelBuffer.buffer (4 + json.length)
  let buf ← buf.writeInt json.length
  let buf ← buf.writeBytes (Charset.getBytes json)
  return buf.bytes

/-- The length counts the code units, and the buffer has room for one byte each. -/
theorem sendMessage_eq [Gson] [Charset] (msg : SentMessage) :
    sendMessage msg =
      if (Charset.getBytes (Gson.toJson msg)).length ≤ (Gson.toJson msg).length then
        .ok (lengthBytes (Gson.toJson msg).length ++ Charset.getBytes (Gson.toJson msg))
      else .error .indexOutOfBounds := by
  have hint : (ChannelBuffer.buffer (4 + (Gson.toJson msg).length)).writeInt (Gson.toJson msg).length =
      .ok ⟨4 + (Gson.toJson msg).length, lengthBytes (Gson.toJson msg).length⟩ :=
    if_pos (Nat.le_add_right 4 _)
  show ((ChannelBuffer.buffer _).writeInt _ >>= fun buf : ChannelBuffer => buf.writeBytes _ >>=
    fun buf => pure buf.bytes) = _
  rw [hint]
  show (ChannelBuffer.writeBytes _ _ >>= fun buf => pure buf.bytes) = _
  rw [ChannelBuffer.writeBytes, OFM.Lib.lengthBytes_length, OFM.Lib.lengthSize]
  dsimp only
  by_cases h : (Charset.getBytes (Gson.toJson msg)).length ≤ (Gson.toJson msg).length
  · rw [if_pos h, if_pos (by omega)]
    rfl
  · rw [if_neg h, if_neg (by omega)]
    rfl

/-! ## Compact JSON -/

/-- A part of a JSON text: one that the writer supplies, or the contents of a string. -/
inductive JsonPart
  | raw (text : String)
  | chars (text : JavaString)

namespace JsonPart

/-- What ASCII lacks is a question mark. -/
def ascii (text : String) : JavaString :=
  text.toList.map fun c => if c.toNat < 0x80 then UInt16.ofNat c.toNat else 63

def escapes (unit : UInt16) : Bool :=
  unit < 0x20 || unit ∈ [0x22, 0x26, 0x27, 0x3c, 0x3d, 0x3e, 0x5c, 0x2028, 0x2029]

/-- Four hexadecimal digits. -/
def escaped (unit : UInt16) : JavaString :=
  ascii ("\\u" ++ String.ofList ([12, 8, 4, 0].map fun n => Nat.digitChar (unit.toNat / 2 ^ n % 16)))

def write : JsonPart → JavaString
  | raw text => ascii text
  | chars units => units.flatMap fun unit => if escapes unit then escaped unit else [unit]

def number (n : Int) : List JsonPart := [raw (toString n)]

def quoted (units : JavaString) : List JsonPart := [raw "\"", chars units, raw "\""]

def member (name : String) (value : List JsonPart) : List JsonPart :=
  raw ("\"" ++ name ++ "\":") :: value

/-- Members with commas between them. -/
def members : List (List JsonPart) → List JsonPart
  | [] => []
  | [m] => m
  | m :: ms => m ++ raw "," :: members ms

def object (ms : List (List JsonPart)) : List JsonPart := raw "\x7b" :: members ms ++ [raw "\x7d"]

def ofKey (key : PerflowKey) : List JsonPart :=
  object (key.nwSrc.toList.map (fun text => member "nw_src" (quoted text)) ++
    key.nwDst.toList.map (fun text => member "nw_dst" (quoted text)) ++
    key.nwSrcMask.toList.map (fun n => member "nw_src_mask" (number n)) ++
    key.nwDstMask.toList.map (fun n => member "nw_dst_mask" (number n)) ++
    key.tpSrc.toList.map (fun n => member "tp_src" (number n)) ++
    key.tpDst.toList.map (fun n => member "tp_dst" (number n)) ++
    [member "tp_flip" (number key.tpFlip)] ++
    key.dlType.toList.map (fun n => member "dl_type" (number n)) ++
    key.nwProto.toList.map (fun n => member "nw_proto" (number n)))

/-- The numbers a class declares before its other fields, and the type of its messages. -/
def ofClass : SentMessage → List (String × Int) × String
  | .getPerflow _ _ raiseEvents => ([("raiseEvents", raiseEvents)], "get-perflow")
  | .getMultiflow .. => ([], "get-multiflow")
  | .getAllflows .. => ([], "get-allflows")
  | .getConfig .. => ([], "get-config")
  | .putPerflow _ seq _ hashkey _ => ([("seq", seq), ("hashkey", hashkey)], "put-perflow")
  | .putMultiflow _ seq _ hashkey _ => ([("seq", seq), ("hashkey", hashkey)], "put-multiflow")
  | .putAllflows _ hashkey _ => ([("hashkey", hashkey)], "put-allflows")
  | .putConfig _ seq _ hashkey _ => ([("seq", seq), ("hashkey", hashkey)], "put-config")
  | .delPerflow .. => ([], "delete-perflow")
  | .delMultiflow _ _ deltype => ([("deltype", deltype)], "delete-multiflow")
  | .enableEvents .. => ([], "enable-events")
  | .disableEvents .. => ([], "disable-events")

def ofMessage (msg : SentMessage) : List JsonPart :=
  object (msg.key.toList.map (fun key => member "key" (ofKey key)) ++
    (ofClass msg).1.map (fun field => member field.1 (number field.2)) ++
    msg.action.toList.map (fun text => member "action" (quoted text)) ++
    msg.state.toList.map (fun text => member "state" (quoted text)) ++
    [member "type" [raw ("\"" ++ (ofClass msg).2 ++ "\"")], member "id" (number msg.id)])

/-- ASCII has the part, or will have it once it is escaped. -/
def Plain : JsonPart → Prop
  | raw _ => True
  | chars units => ∀ unit ∈ units, unit < 0x80 ∨ escapes unit

theorem isAscii_ascii (text : String) : IsAscii (ascii text) := by
  intro unit hunit
  obtain ⟨c, -, rfl⟩ := List.mem_map.mp hunit
  split
  · rename_i h
    rw [UInt16.lt_iff_toNat_lt, UInt16.toNat_ofNat', Nat.mod_eq_of_lt (by omega)]
    exact h
  · decide

theorem isAscii_write (part : JsonPart) : IsAscii part.write ↔ part.Plain := by
  cases part with
  | raw text => exact ⟨fun _ => trivial, fun _ => isAscii_ascii text⟩
  | chars units =>
      simp only [write, Plain, IsAscii, List.mem_flatMap, forall_exists_index, and_imp]
      constructor
      · intro h unit hunit
        by_cases he : escapes unit
        · exact Or.inr he
        · exact Or.inl (h unit unit hunit (by rw [if_neg he]; exact List.mem_singleton_self _))
      · intro h x unit hunit hx
        split at hx
        · exact isAscii_ascii _ x hx
        · rename_i he
          obtain rfl := List.mem_singleton.mp hx
          exact (h x hunit).resolve_right he

theorem isAscii_flatMap_write (parts : List JsonPart) :
    IsAscii (parts.flatMap write) ↔ ∀ part ∈ parts, part.Plain := by
  induction parts with
  | nil => exact ⟨fun _ _ h => absurd h List.not_mem_nil, fun _ _ h => absurd h List.not_mem_nil⟩
  | cons part parts ih =>
      rw [List.flatMap_cons, isAscii_append, ih, isAscii_write, List.forall_mem_cons]

theorem plain_members (ms : List (List JsonPart)) :
    (∀ part ∈ members ms, part.Plain) ↔ ∀ m ∈ ms, ∀ part ∈ m, part.Plain := by
  induction ms using members.induct with
  | case1 => simp only [members, List.not_mem_nil, false_imp_iff, implies_true]
  | case2 m => simp only [members, List.mem_singleton, forall_eq]
  | case3 m ms hms ih =>
      rw [members, List.forall_mem_append, List.forall_mem_cons, ih, List.forall_mem_cons]
      · simp only [Plain, true_and]
      · exact hms

theorem plain_object (ms : List (List JsonPart)) :
    (∀ part ∈ object ms, part.Plain) ↔ ∀ m ∈ ms, ∀ part ∈ m, part.Plain := by
  rw [object, List.forall_mem_append, List.forall_mem_cons, plain_members]
  simp only [Plain, List.mem_singleton, forall_eq, true_and, and_true]

theorem plain_member (name : String) (value : List JsonPart) :
    (∀ part ∈ member name value, part.Plain) ↔ ∀ part ∈ value, part.Plain := by
  rw [member, List.forall_mem_cons]
  exact and_iff_right trivial

theorem plain_quoted (units : JavaString) :
    (∀ part ∈ quoted units, part.Plain) ↔ ∀ unit ∈ units, unit < 0x80 ∨ escapes unit := by
  simp only [quoted, List.forall_mem_cons, Plain, true_and, List.not_mem_nil, false_imp_iff,
    implies_true, and_true]

theorem plain_number (n : Int) : ∀ part ∈ number n, part.Plain := by
  rintro part hpart
  obtain rfl := List.mem_singleton.mp hpart
  trivial

theorem plain_ofKey (key : PerflowKey) : (∀ part ∈ ofKey key, part.Plain) ↔
    ∀ text ∈ key.nwSrc.toList ++ key.nwDst.toList, ∀ unit ∈ text, unit < 0x80 ∨ escapes unit := by
  rw [ofKey, plain_object]
  simp only [List.forall_mem_append, List.forall_mem_map, List.forall_mem_singleton, plain_member,
    plain_quoted, iff_true_intro (plain_number _), implies_true, and_true]

/-- A text is written whole as one of the parts. -/
theorem plain_ofMessage (msg : SentMessage) : (∀ part ∈ ofMessage msg, part.Plain) ↔
    ∀ text ∈ msg.texts, ∀ unit ∈ text, unit < 0x80 ∨ escapes unit := by
  have hkey : (∀ text ∈ msg.key.elim [] fun key => key.nwSrc.toList ++ key.nwDst.toList,
      ∀ unit ∈ text, unit < 0x80 ∨ escapes unit) ↔
      ∀ key ∈ msg.key.toList, ∀ part ∈ ofKey key, part.Plain := by
    cases msg.key with
    | none => exact iff_of_true (List.forall_mem_nil _) (List.forall_mem_nil _)
    | some key =>
        rw [Option.toList_some, List.forall_mem_singleton]
        exact (plain_ofKey key).symm
  have htype : (raw ("\"" ++ (ofClass msg).2 ++ "\"")).Plain := trivial
  rw [ofMessage, plain_object, SentMessage.texts]
  simp only [List.forall_mem_append, List.forall_mem_map, List.forall_mem_cons, plain_member,
    plain_quoted, iff_true_intro (plain_number _), iff_true_intro htype, implies_true, and_true, hkey,
    List.not_mem_nil, false_imp_iff]

end JsonPart

/-- JSON without blanks, as Gson writes it. -/
abbrev compactGson : Gson where
  toJson msg := (JsonPart.ofMessage msg).flatMap JsonPart.write
  escapes := JsonPart.escapes
  isAscii_toJson msg := (JsonPart.isAscii_flatMap_write _).trans (JsonPart.plain_ofMessage msg)

end OFM.Controller
