import OFM.Bro.Buffers
import OFM.Lib.Reload

/-!
# HTTP and MIME messages

The classes that point to each other while an HTTP transfer or a mail is read, and their `serialize` as
`bro.patch` has it. Members that are not archived for a reason that the source gives are left out. What
memory holds where a constructor leaves members alone, and what other classes hold, is a parameter.
-/

namespace OFM.Bro.Messages
open OFM.Lib OFM.Lib.Reload OFM.Bro.Buffers

/-! ## Pointers -/

inductive MessageRef where
  | http (i : Nat)
  | mail (i : Nat)
  deriving DecidableEq

inductive AnalyzerRef where
  | http (i : Nat)
  | other (i : Nat)
  deriving DecidableEq

/-- A pointer to a `BroString`, a `MIME_Entity`, a `MIME_Message`, an `HTTP_Analyzer` or anything else. -/
inductive Ref where
  | string (i : Nat)
  | entity (i : Nat)
  | message (m : MessageRef)
  | analyzer (i : Nat)
  | other (i : Nat)
  deriving DecidableEq

def AnalyzerRef.ref : AnalyzerRef → Ref
  | http i => .analyzer i
  | other i => .other i

/-- `data_buffer`, which the constructors of archives leave alone. -/
inductive BufferPointer where
  | unset
  | null
  | string (i : Nat)
  deriving DecidableEq

/-- `data_buf_data` -/
inductive Address where
  | null
  /-- In the bytes of a string. -/
  | inside (b offset : Nat)
  | undefined
  deriving DecidableEq

/-! ## Classes -/

structure MIMEMessage where
  analyzer : Option AnalyzerRef
  topLevel : Option Nat
  finished : BitVec 32

structure HTTPMessage where
  base : MIMEMessage
  analyzer : Option Nat
  contentLine : Option Nat
  isOrig : Bool
  buffers : List Nat
  totalBufferSize : BitVec 32
  bufferOffset : BitVec 32
  bufferSize : BitVec 32
  dataBuffer : BufferPointer
  startTime : BitVec 64
  bodyLength : BitVec 64
  headerLength : BitVec 64
  contentGapLength : BitVec 64
  currentEntity : Option Nat

structure MIMEMail where
  base : MIMEMessage
  minOverlapLength : BitVec 32
  maxChunkLength : BitVec 32
  bufferStart : BitVec 32
  dataStart : BitVec 32
  bufferOffset : BitVec 32
  computeContentHash : BitVec 32
  contentHashLength : BitVec 32
  entityContent : List Nat
  allContent : List Nat
  dataBuffer : BufferPointer

structure MIMEEntity where
  inHeader : BitVec 32
  endOfData : BitVec 32
  currentHeaderLine : Option Nat
  currentFieldType : BitVec 32
  needToParseParameters : BitVec 32
  contentTypeStr : Option Nat
  contentSubtypeStr : Option Nat
  contentEncodingStr : Option Nat
  multipartBoundary : Option Nat
  contentType : BitVec 32
  contentSubtype : BitVec 32
  contentEncoding : BitVec 32
  headers : List Nat
  parent : Option Nat
  currentChildEntity : Option Nat
  base64Decoder : Option Nat
  dataBufLength : BitVec 32
  dataBufData : Address
  dataBufOffset : BitVec 32
  message : Option MessageRef

inductive HTTPEncoding where
  | identity
  | gzip
  | compress
  | deflate
  deriving DecidableEq

/-- The members of `HTTP_Entity` itself. -/
structure HTTPEntity where
  httpMessage : Option Nat
  chunkedTransferState : BitVec 32
  contentLength : BitVec 64
  expectDataLength : BitVec 64
  expectBody : BitVec 32
  bodyLength : BitVec 64
  headerLength : BitVec 64
  deliverBody : BitVec 32
  encoding : HTTPEncoding
  zip : Option Nat

/-- A `MIME_Entity`, which may be an `HTTP_Entity`. -/
structure Entity where
  mime : MIMEEntity
  http : Option HTTPEntity

/-- What is archived of an object of another class; none but messages and entities point to entities. -/
structure Other (X : Type) where
  links : List Ref
  links_ne : ∀ i, .entity i ∉ links
  contents : X

structure HTTPAnalyzer (X : Type) where
  /-- `TCP_ApplicationAnalyzer` -/
  base : Other X
  requestState : BitVec 32
  replyState : BitVec 32
  numRequests : BitVec 32
  numReplies : BitVec 32
  numRequestLines : BitVec 32
  numReplyLines : BitVec 32
  requestVersion : BitVec 64
  replyVersion : BitVec 64
  keepAlive : BitVec 32
  connectionClose : BitVec 32
  requestOngoing : BitVec 32
  replyOngoing : BitVec 32
  requestMethod : Option Nat
  requestURI : Option Nat
  unescapedURI : Option Nat
  replyCode : BitVec 32
  replyReasonPhrase : Option Nat
  contentLineOrig : Option Nat
  contentLineResp : Option Nat
  requestMessage : Option Nat
  replyMessage : Option Nat

/-- What a pointer leads to. -/
@[reducible] def Obj (X : Type) : Ref → Type
  | .string _ => BroString
  | .entity _ => Entity
  | .message (.http _) => HTTPMessage
  | .message (.mail _) => MIMEMail
  | .analyzer _ => HTTPAnalyzer X
  | .other _ => Other X

/-! ## Constructors of archives -/

/-- What memory holds where an object is made. -/
structure Memory (X : Type) where
  mimeMessage : MessageRef → MIMEMessage
  mimeMail : Nat → MIMEMail
  httpEntity : Nat → HTTPEntity
  httpAnalyzer : Nat → HTTPAnalyzer X
  other : Nat → Other X

/-- `HTTP_Message()` -/
def HTTPMessage.fresh (base : MIMEMessage) : HTTPMessage where
  base := base
  analyzer := none
  contentLine := none
  isOrig := false
  buffers := []
  totalBufferSize := 0
  bufferOffset := 0
  bufferSize := 0
  dataBuffer := .unset
  startTime := 0
  bodyLength := 0
  headerLength := 0
  contentGapLength := 0
  currentEntity := none

/-- `MIME_Mail()` -/
def MIMEMail.fresh (base : MIMEMessage) (memory : MIMEMail) : MIMEMail :=
  { memory with base, entityContent := [], allContent := [], dataBuffer := .unset }

/-- `MIME_Entity()` -/
def MIMEEntity.fresh : MIMEEntity where
  inHeader := 0
  endOfData := 0
  currentHeaderLine := none
  currentFieldType := 0
  needToParseParameters := 0
  contentTypeStr := none
  contentSubtypeStr := none
  contentEncodingStr := none
  multipartBoundary := none
  contentType := 0
  contentSubtype := 0
  contentEncoding := 0
  headers := []
  parent := none
  currentChildEntity := none
  base64Decoder := none
  dataBufLength := 0
  dataBufData := .null
  dataBufOffset := 0
  message := none

/-! ## What is archived -/

/-- What `ar & member` loads, and where it puts it. -/
structure Member (α : Type) where
  links : List Ref
  put : α → α

namespace Member

variable {α β : Type}

def plain (put : α → α) : Member α := ⟨[], put⟩

def pointer (q : Option Ref) (put : α → α) : Member α := ⟨q.toList, put⟩

def vector (qs : List Ref) (put : α → α) : Member α := ⟨qs, put⟩

/-- A member of the base class. -/
def base (modify : (α → α) → β → β) (m : Member α) : Member β := ⟨m.links, modify m.put⟩

variable {O : Ref → Type} {p : Ref}

def ops (m : Member (O p)) : List (Op O p) := m.links.map .follow ++ [.set m.put]

end Member

def BufferPointer.ref? : BufferPointer → Option Ref
  | string i => some (.string i)
  | _ => none

/-- `MIME_Message::serialize` -/
def MIMEMessage.members (m : MIMEMessage) : List (Member MIMEMessage) :=
  [.pointer (m.analyzer.map AnalyzerRef.ref) fun o => { o with analyzer := m.analyzer },
    .pointer (m.topLevel.map .entity) fun o => { o with topLevel := m.topLevel },
    .plain fun o => { o with finished := m.finished }]

namespace HTTPMessage

/-- `buffers` and `data_buffer`, which come first. -/
def bufferMembers (m : HTTPMessage) : List (Member HTTPMessage) :=
  [.vector (m.buffers.map .string) fun o => { o with buffers := m.buffers },
    .pointer m.dataBuffer.ref? fun o => { o with dataBuffer := m.dataBuffer }]

def ownMembers (m : HTTPMessage) : List (Member HTTPMessage) :=
  [.pointer (m.analyzer.map .analyzer) fun o => { o with analyzer := m.analyzer },
    .pointer (m.contentLine.map .other) fun o => { o with contentLine := m.contentLine },
    .plain fun o => { o with totalBufferSize := m.totalBufferSize },
    .plain fun o => { o with bufferOffset := m.bufferOffset },
    .plain fun o => { o with bufferSize := m.bufferSize },
    .plain fun o => { o with startTime := m.startTime },
    .plain fun o => { o with bodyLength := m.bodyLength },
    .plain fun o => { o with headerLength := m.headerLength },
    .plain fun o => { o with contentGapLength := m.contentGapLength },
    .pointer (m.currentEntity.map .entity) fun o => { o with currentEntity := m.currentEntity }]

/-- `HTTP_Message::serialize` -/
def members (m : HTTPMessage) : List (Member HTTPMessage) :=
  m.bufferMembers ++ m.base.members.map (.base fun f o => { o with base := f o.base }) ++ m.ownMembers

end HTTPMessage

namespace MIMEMail

def ownMembers (m : MIMEMail) : List (Member MIMEMail) :=
  [.plain fun o => { o with minOverlapLength := m.minOverlapLength },
    .plain fun o => { o with maxChunkLength := m.maxChunkLength },
    .plain fun o => { o with bufferStart := m.bufferStart },
    .plain fun o => { o with dataStart := m.dataStart },
    .plain fun o => { o with bufferOffset := m.bufferOffset },
    .plain fun o => { o with computeContentHash := m.computeContentHash },
    .plain fun o => { o with contentHashLength := m.contentHashLength },
    .vector (m.entityContent.map .string) fun o => { o with entityContent := m.entityContent },
    .vector (m.allContent.map .string) fun o => { o with allContent := m.allContent },
    .pointer m.dataBuffer.ref? fun o => { o with dataBuffer := m.dataBuffer }]

/-- What comes before the members of the class itself. -/
def baseMembers (m : MIMEMail) : List (Member MIMEMail) :=
  m.base.members.map (.base fun f o => { o with base := f o.base })

/-- `MIME_Mail::serialize` -/
def members (m : MIMEMail) : List (Member MIMEMail) := m.baseMembers ++ m.ownMembers

end MIMEMail

/-- `MIME_Entity::serialize` up to `data_buf_data` -/
def MIMEEntity.members (e : MIMEEntity) : List (Member MIMEEntity) :=
  [.plain fun o => { o with inHeader := e.inHeader },
    .plain fun o => { o with endOfData := e.endOfData },
    .pointer (e.currentHeaderLine.map .other) fun o => { o with currentHeaderLine := e.currentHeaderLine },
    .plain fun o => { o with currentFieldType := e.currentFieldType },
    .plain fun o => { o with needToParseParameters := e.needToParseParameters },
    .pointer (e.contentTypeStr.map .other) fun o => { o with contentTypeStr := e.contentTypeStr },
    .pointer (e.contentSubtypeStr.map .other) fun o => { o with contentSubtypeStr := e.contentSubtypeStr },
    .pointer (e.contentEncodingStr.map .string) fun o => { o with contentEncodingStr := e.contentEncodingStr },
    .pointer (e.multipartBoundary.map .string) fun o => { o with multipartBoundary := e.multipartBoundary },
    .plain fun o => { o with contentType := e.contentType },
    .plain fun o => { o with contentSubtype := e.contentSubtype },
    .plain fun o => { o with contentEncoding := e.contentEncoding },
    .vector (e.headers.map .other) fun o => { o with headers := e.headers },
    .pointer (e.parent.map .entity) fun o => { o with parent := e.parent },
    .pointer (e.currentChildEntity.map .entity) fun o => { o with currentChildEntity := e.currentChildEntity },
    .pointer (e.base64Decoder.map .other) fun o => { o with base64Decoder := e.base64Decoder },
    .plain fun o => { o with dataBufLength := e.dataBufLength },
    .plain fun o => { o with dataBufOffset := e.dataBufOffset },
    .pointer (e.message.map .message) fun o => { o with message := e.message }]

/-- `HTTP_Entity::serialize` after `MIME_Entity` -/
def HTTPEntity.members (e : HTTPEntity) : List (Member HTTPEntity) :=
  [.pointer (e.httpMessage.map fun i => .message (.http i)) fun o => { o with httpMessage := e.httpMessage },
    .plain fun o => { o with chunkedTransferState := e.chunkedTransferState },
    .plain fun o => { o with contentLength := e.contentLength },
    .plain fun o => { o with expectDataLength := e.expectDataLength },
    .plain fun o => { o with expectBody := e.expectBody },
    .plain fun o => { o with bodyLength := e.bodyLength },
    .plain fun o => { o with headerLength := e.headerLength },
    .plain fun o => { o with deliverBody := e.deliverBody },
    .plain fun o => { o with encoding := e.encoding },
    .pointer (e.zip.map .other) fun o => { o with zip := e.zip }]

namespace Entity

def mimeMembers (e : Entity) : List (Member Entity) :=
  e.mime.members.map (.base fun f o => { o with mime := f o.mime })

def httpMembers (e : Entity) : List (Member Entity) :=
  match e.http with
  | none => []
  | some h => h.members.map (.base fun f o => { o with http := o.http.map f })

end Entity

/-- `HTTP_Analyzer::serialize` -/
def HTTPAnalyzer.members {X : Type} (a : HTTPAnalyzer X) : List (Member (HTTPAnalyzer X)) :=
  [.vector a.base.links fun o => { o with base := a.base },
    .plain fun o => { o with requestState := a.requestState },
    .plain fun o => { o with replyState := a.replyState },
    .plain fun o => { o with numRequests := a.numRequests },
    .plain fun o => { o with numReplies := a.numReplies },
    .plain fun o => { o with numRequestLines := a.numRequestLines },
    .plain fun o => { o with numReplyLines := a.numReplyLines },
    .plain fun o => { o with requestVersion := a.requestVersion },
    .plain fun o => { o with replyVersion := a.replyVersion },
    .plain fun o => { o with keepAlive := a.keepAlive },
    .plain fun o => { o with connectionClose := a.connectionClose },
    .plain fun o => { o with requestOngoing := a.requestOngoing },
    .plain fun o => { o with replyOngoing := a.replyOngoing },
    .pointer (a.requestMethod.map .other) fun o => { o with requestMethod := a.requestMethod },
    .pointer (a.requestURI.map .other) fun o => { o with requestURI := a.requestURI },
    .pointer (a.unescapedURI.map .other) fun o => { o with unescapedURI := a.unescapedURI },
    .plain fun o => { o with replyCode := a.replyCode },
    .pointer (a.replyReasonPhrase.map .other) fun o => { o with replyReasonPhrase := a.replyReasonPhrase },
    .pointer (a.contentLineOrig.map .other) fun o => { o with contentLineOrig := a.contentLineOrig },
    .pointer (a.contentLineResp.map .other) fun o => { o with contentLineResp := a.contentLineResp },
    .pointer (a.requestMessage.map fun i => .message (.http i)) fun o =>
      { o with requestMessage := a.requestMessage },
    .pointer (a.replyMessage.map fun i => .message (.http i)) fun o => { o with replyMessage := a.replyMessage }]

/-- What `BroString::serialize` makes of a string that it has archived. -/
def loadedString (s : BroString) : BroString :=
  match s.save.bind fun items => BroString.load.run items with
  | some (s', _) => s'
  | none => ⟨none, 0, 0, 0⟩

/-! ## Objects -/

/-- The objects of a process, and where the bytes of its strings are. -/
structure Objects (X : Type) where
  strings : Nat → BroString
  entities : Nat → Entity
  httpMessages : Nat → HTTPMessage
  mimeMails : Nat → MIMEMail
  httpAnalyzers : Nat → HTTPAnalyzer X
  others : Nat → Other X
  bytesAt : Nat → Int

/-- A difference of pointers as an `int`. -/
def toInt (difference : Int) : Int := (BitVec.ofInt 32 difference).toInt

variable {X : Type}

namespace Objects

variable (objects : Objects X)

/-- The buffer that `data_buf_data` is archived with, if there is one. -/
def currentBuffer : MessageRef → Option Nat
  | .http i =>
      match (objects.httpMessages i).dataBuffer with
      | .string b => some b
      | _ => (objects.httpMessages i).buffers.getLast?
  | .mail i =>
      match (objects.mimeMails i).dataBuffer with
      | .string b => some b
      | _ => none

/-- `GetBufferDiff` -/
def getBufferDiff (m : MessageRef) (buf : Int) : Int :=
  match objects.currentBuffer m with
  | none => -1
  | some b => toInt (buf - objects.bytesAt b)

/-- What `diff` is when the entity is archived. -/
def diff (e : MIMEEntity) : Int :=
  match e.dataBufData, e.message with
  | .inside b offset, some m => objects.getBufferDiff m (objects.bytesAt b + offset)
  | _, _ => -1

end Objects

/-- `Bytes() + diff` of what has been loaded. -/
def bytesPlus (loaded : (q : Ref) → Option (Obj X q)) (b : Nat) (diff : Int) : Address :=
  match loaded (.string b) with
  | some ⟨some _, _, _, _⟩ => .inside b diff.toNat
  | _ => .undefined

/-- `GetBuffer` on what has been loaded. -/
def getBuffer (loaded : (q : Ref) → Option (Obj X q)) (diff : Int) : MessageRef → Address
  | .http i =>
      match loaded (.message (.http i)) with
      | none => .undefined
      | some m =>
          match m.dataBuffer with
          | .unset => .undefined
          | .string b => bytesPlus loaded b diff
          | .null =>
              match m.buffers.getLast? with
              | none => .null
              | some b => bytesPlus loaded b diff
  | .mail i =>
      match loaded (.message (.mail i)) with
      | none => .undefined
      | some m =>
          match m.dataBuffer with
          | .string b => bytesPlus loaded b diff
          | _ => .undefined

/-- What `data_buf_data` becomes. -/
def dataBufData (diff : Int) (loaded : (q : Ref) → Option (Obj X q)) (message : Option MessageRef) : Address :=
  if diff < 0 then .null else
    match message with
    | none => .undefined
    | some m => getBuffer loaded diff m

/-- The special handling of `data_buf_data`. -/
def Entity.setDataBufData (diff : Int) (loaded : (q : Ref) → Option (Obj X q)) (e : Entity) : Entity :=
  { e with mime := { e.mime with dataBufData := dataBufData diff loaded e.mime.message } }

/-- The members one after the other. -/
def serialize {O : Ref → Type} {p : Ref} (members : List (Member (O p))) : List (Op O p) :=
  members.flatMap Member.ops

namespace Objects

variable (objects : Objects X)

/-- The members of an object up to what is handled specially. -/
def members : (p : Ref) → List (Member (Obj X p))
  | .string i => [.plain fun _ => loadedString (objects.strings i)]
  | .entity i => (objects.entities i).mimeMembers
  | .message (.http i) => (objects.httpMessages i).members
  | .message (.mail i) => (objects.mimeMails i).members
  | .analyzer i => (objects.httpAnalyzers i).members
  | .other i => [.vector (objects.others i).links fun _ => objects.others i]

/-- What loads an object. -/
def ops : (p : Ref) → List (Op (Obj X) p)
  | .entity i => serialize (O := Obj X) (p := .entity i) (objects.members (.entity i)) ++
      .resolve (Entity.setDataBufData (objects.diff (objects.entities i).mime)) ::
        serialize (O := Obj X) (p := .entity i) (objects.entities i).httpMembers
  | p => serialize (objects.members p)

/-- The objects as the constructors for archives make them. -/
def fresh (memory : Memory X) : (p : Ref) → Obj X p
  | .string _ => ⟨none, 0, 0, 0⟩
  | .entity i => ⟨.fresh, (objects.entities i).http.map fun _ => memory.httpEntity i⟩
  | .message (.http i) => .fresh (memory.mimeMessage (.http i))
  | .message (.mail i) => .fresh (memory.mimeMessage (.mail i)) (memory.mimeMail i)
  | .analyzer i => memory.httpAnalyzer i
  | .other i => memory.other i

def graph (memory : Memory X) : Graph (Obj X) := ⟨objects.fresh memory, objects.ops⟩

end Objects

/-- The objects that an archive has. -/
structure Heap (X : Type) extends Objects X where
  root : Ref
  /-- An archive does not start with an entity. -/
  root_ne : ∀ i, root ≠ .entity i
  dom : Finset Ref
  /-- What is archived is what `root` leads to. -/
  mem_dom : ∀ p, p ∈ dom ↔ Relation.ReflTransGen (fun p q => .follow q ∈ toObjects.ops p) root p
  /-- The entities of a message. -/
  httpMessage_entity : ∀ i e,
    (httpMessages i).base.topLevel = some e ∨ (httpMessages i).currentEntity = some e →
      (entities e).mime.message = some (.http i)
  mimeMail_entity : ∀ i e, (mimeMails i).base.topLevel = some e → (entities e).mime.message = some (.mail i)
  /-- Parent and child are of one message. -/
  entity_entity : ∀ e e', (entities e).mime.parent = some e' ∨ (entities e).mime.currentChildEntity = some e' →
    (entities e').mime.message = (entities e).mime.message
  /-- Constructed messages and entities have set their pointers. -/
  httpMessage_ne : ∀ i, (httpMessages i).dataBuffer ≠ .unset
  mimeMail_ne : ∀ i, (mimeMails i).dataBuffer ≠ .unset
  entity_ne : ∀ e, (entities e).mime.dataBufData ≠ .undefined
  /-- `InitBuffer` and `MIME_Mail` make no empty buffers. -/
  filled : ∀ b, (∃ i, b ∈ (httpMessages i).buffers ∨ (httpMessages i).dataBuffer = .string b) →
    (strings b).Valid ∧ 0 < (strings b).n.toInt
  /-- A pointer into a string is not behind its end. -/
  within : ∀ e b offset, (entities e).mime.dataBufData = .inside b offset → offset ≤ bytes (strings b).n

namespace Heap

variable (h : Heap X) (memory : Memory X)

/-- `data_buf_data` points into the current buffer of its message or is null. -/
def Current (e : Nat) : Prop :=
  (h.entities e).mime.dataBufData = .null ∨ ∃ m b offset, (h.entities e).mime.message = some m ∧
    h.currentBuffer m = some b ∧ (h.entities e).mime.dataBufData = .inside b offset

/-- The entities of a message that are archived. -/
def Archived (m : MessageRef) (e : Nat) : Prop := .entity e ∈ h.dom ∧ (h.entities e).mime.message = some m

/-- A string with its bytes. -/
def StringRestored (loaded : (q : Ref) → Option (Obj X q)) (b : Nat) : Prop :=
  ∃ s, loaded (.string b) = some s ∧ (h.strings b).Same s

/-- The buffers of a message are those that have been archived. -/
def BuffersRestored (loaded : (q : Ref) → Option (Obj X q)) : MessageRef → Prop
  | .http i => ∃ m, loaded (.message (.http i)) = some m ∧ m.buffers = (h.httpMessages i).buffers ∧
      m.dataBuffer = (h.httpMessages i).dataBuffer ∧
      ∀ b, b ∈ (h.httpMessages i).buffers ∨ (h.httpMessages i).dataBuffer = .string b →
        h.StringRestored loaded b
  | .mail i => ∃ m, loaded (.message (.mail i)) = some m ∧ m.dataBuffer = (h.mimeMails i).dataBuffer ∧
      ∀ b, (h.mimeMails i).dataBuffer = .string b → h.StringRestored loaded b

/-- The next step calls `GetBuffer` on the message. -/
def Calls (s : State (Obj X)) (m : MessageRef) : Prop :=
  ∃ e below f ops, s.stack = .entity e :: below ∧ s.left (.entity e) = .resolve f :: ops ∧
    0 ≤ h.diff (h.entities e).mime ∧ ∃ o, s.objects (.entity e) = some o ∧ o.mime.message = some m

/-- What loading the archive goes through. -/
def During (s : State (Obj X)) : Prop := Loading (h.graph memory) (.init (h.graph memory) h.root) s

def Loads (s : State (Obj X)) : Prop := Loaded (h.graph memory) h.root s

/-- `GetBuffer` is called on a message when its buffers have been restored, and the entities of the message have
their pointers again. -/
def PointersSurvive (m : MessageRef) : Prop :=
  (∀ s, h.During memory s → h.Calls s m → h.BuffersRestored s.objects m) ∧
    ∃ s, h.Loads memory s ∧ ∀ e, h.Archived m e → ∃ o, s.objects (.entity e) = some o ∧
      o.mime.dataBufData = (h.entities e).mime.dataBufData

/-- A message, its buffers, and its entities with their headers are what they were. -/
def MessageSurvives (loaded : (q : Ref) → Option (Obj X q)) (i : Nat) : Prop :=
  loaded (.message (.http i)) = some (h.httpMessages i) ∧ h.BuffersRestored loaded (.http i) ∧
    ∀ e, h.Archived (.http i) e → loaded (.entity e) = some (h.entities e) ∧
      ∀ j ∈ (h.entities e).mime.headers, loaded (.other j) = some (h.others j)

/-- The messages of an analyzer. -/
def MessageOf (a i : Nat) : Prop :=
  (h.httpAnalyzers a).requestMessage = some i ∨ (h.httpAnalyzers a).replyMessage = some i

/-- The analyzer comes back with its messages. -/
def TransferSurvives (a : Nat) : Prop :=
  ∃ s, h.Loads memory s ∧ s.objects (.analyzer a) = some (h.httpAnalyzers a) ∧
    ∀ i, h.MessageOf a i → h.MessageSurvives s.objects i

end Heap

end OFM.Bro.Messages
