import OFM.Bro.Lemmas.Messages

/-!
# Transfers and pointers that survive

When an HTTP transfer comes back from an archive, and when the pointers of entities into buffers do.
-/

namespace OFM.Bro.Messages
open OFM.Lib OFM.Lib.Reload OFM.Bro.Buffers

/-! ## A connection with a transfer and a mail -/

/-- What an object points to. -/
def Objects.links {X : Type} (objects : Objects X) : Ref → List Ref
  | .entity i => (objects.entities i).mimeMembers.flatMap Member.links ++
      (objects.entities i).httpMembers.flatMap Member.links
  | p => (objects.members p).flatMap Member.links

theorem Objects.follow_mem_ops {X : Type} {objects : Objects X} {p q : Ref} :
    .follow q ∈ objects.ops p ↔ q ∈ objects.links p := by
  cases p with
  | entity e => simp [ops, links, members, follow_mem_serialize]
  | string i => exact follow_mem_serialize
  | message m => exact follow_mem_serialize
  | analyzer i => exact follow_mem_serialize
  | other i => exact follow_mem_serialize

/-- What the root leads to is a closed set of objects that it leads to. -/
theorem mem_dom_iff {X : Type} {objects : Objects X} {root p : Ref} {dom : Finset Ref} (hroot : root ∈ dom)
    (hclosed : ∀ p ∈ dom, ∀ q ∈ objects.links p, q ∈ dom)
    (hled : ∀ p ∈ dom, Relation.ReflTransGen (fun p q => q ∈ objects.links p) root p) :
    p ∈ dom ↔ Relation.ReflTransGen (fun p q => .follow q ∈ objects.ops p) root p := by
  simp only [Objects.follow_mem_ops]
  refine ⟨hled p, fun h => ?_⟩
  induction h with
  | refl => exact hroot
  | tail _ hq ih => exact hclosed _ ih _ hq

/-- Memory that has been zeroed. -/
def zeroed : Memory Unit where
  mimeMessage _ := ⟨none, none, 0⟩
  mimeMail _ := ⟨⟨none, none, 0⟩, 0, 0, 0, 0, 0, 0, 0, [], [], .unset⟩
  httpEntity _ := ⟨none, 0, 0, 0, 0, 0, 0, 0, .identity, none⟩
  httpAnalyzer _ := ⟨⟨[], fun _ => List.not_mem_nil, ()⟩, 0, 0, 0, 0, 0, 0, 0, 0, 0, 0, 0, 0, none, none, none, 0,
    none, none, none, none, none⟩
  other _ := ⟨[], fun _ => List.not_mem_nil, ()⟩

def sampleMessage (buffer : BufferPointer) (topLevel : Option Nat) (isOrig : Bool) : HTTPMessage :=
  { HTTPMessage.fresh ⟨some (.http 0), topLevel, 0⟩ with
    analyzer := some 0
    isOrig
    dataBuffer := buffer
    bufferSize := 2 }

/-- Two bytes in a buffer, and two entities that point to the second one. -/
def sampleObjects (isOrig : Bool) : Objects Unit where
  strings _ := ⟨some [0x61, 0x62], 2, 0, 0⟩
  entities
    | 0 => ⟨{ MIMEEntity.fresh with dataBufData := .inside 0 1, message := some (.http 0) },
        some (zeroed.httpEntity 0)⟩
    | _ => ⟨{ MIMEEntity.fresh with dataBufData := .inside 0 1, message := some (.mail 0) }, none⟩
  httpMessages
    | 0 => sampleMessage (.string 0) (some 0) isOrig
    | _ => sampleMessage .null none isOrig
  mimeMails
    | 0 => ⟨⟨some (.other 0), some 1, 0⟩, 0, 0, 0, 0, 0, 0, 0, [], [], .string 0⟩
    | _ => ⟨⟨none, none, 0⟩, 0, 0, 0, 0, 0, 0, 0, [], [], .null⟩
  httpAnalyzers _ := { zeroed.httpAnalyzer 0 with
    requestMessage := if isOrig then some 0 else none
    replyMessage := if isOrig then none else some 0 }
  others _ := ⟨[.analyzer 0, .message (.mail 0)], by simp, ()⟩
  bytesAt _ := 0x1000

def sampleDom : Finset Ref :=
  {.other 0, .analyzer 0, .message (.http 0), .message (.mail 0), .entity 0, .entity 1, .string 0}

theorem sample_links : ∀ isOrig : Bool,
    (sampleObjects isOrig).links (.other 0) = [.analyzer 0, .message (.mail 0)] ∧
      (sampleObjects isOrig).links (.analyzer 0) = [.message (.http 0)] ∧
      (sampleObjects isOrig).links (.message (.http 0)) = [.string 0, .analyzer 0, .entity 0, .analyzer 0] ∧
      (sampleObjects isOrig).links (.message (.mail 0)) = [.other 0, .entity 1, .string 0] := by
  decide

/-- They are all led to. -/
theorem sample_led (isOrig : Bool) : ∀ p ∈ sampleDom,
    Relation.ReflTransGen (fun p q => q ∈ (sampleObjects isOrig).links p) (.other 0) p := by
  let Led := Relation.ReflTransGen (fun p q => q ∈ (sampleObjects isOrig).links p) (.other 0)
  obtain ⟨hroot, hlinks, hhttpLinks, hmailLinks⟩ := sample_links isOrig
  have hanalyzer : Led (.analyzer 0) := .single (by simp [hroot])
  have hmail : Led (.message (.mail 0)) := .single (by simp [hroot])
  have hhttp : Led (.message (.http 0)) := hanalyzer.tail (by simp [hlinks])
  intro p hp
  simp only [sampleDom, Finset.mem_insert, Finset.mem_singleton] at hp
  rcases hp with rfl | rfl | rfl | rfl | rfl | rfl | rfl
  · exact .refl
  · exact hanalyzer
  · exact hhttp
  · exact hmail
  · exact hhttp.tail (by simp [hhttpLinks])
  · exact hmail.tail (by simp [hmailLinks])
  · exact hmail.tail (by simp [hmailLinks])

def sample (isOrig : Bool) : Heap Unit where
  toObjects := sampleObjects isOrig
  root := .other 0
  root_ne _ := Ref.noConfusion
  dom := sampleDom
  mem_dom p := mem_dom_iff (by decide) (by decide +revert) (sample_led isOrig)
  httpMessage_entity i e h := by
    cases i with
    | zero =>
        obtain rfl : e = 0 := by simpa [sampleObjects, sampleMessage, HTTPMessage.fresh, eq_comm] using h
        rfl
    | succ i => simp [sampleObjects, sampleMessage, HTTPMessage.fresh] at h
  mimeMail_entity i e h := by
    cases i with
    | zero =>
        obtain rfl : e = 1 := by simpa [sampleObjects, eq_comm] using h
        rfl
    | succ i => simp [sampleObjects] at h
  entity_entity e e' h := by cases e <;> simp [sampleObjects, MIMEEntity.fresh] at h
  httpMessage_ne i := by cases i <;> exact BufferPointer.noConfusion
  mimeMail_ne i := by cases i <;> exact BufferPointer.noConfusion
  entity_ne e := by cases e <;> exact Address.noConfusion
  filled b _ := by
    constructor
    · show BroString.Valid ⟨some [0x61, 0x62], 2, 0, 0⟩
      exact ⟨by decide, by decide, by decide⟩
    · show 0 < (2 : BitVec 32).toInt
      decide
  within e b offset h := by
    obtain rfl : offset = 1 := by
      cases e <;> (cases h; rfl)
    show 1 ≤ bytes 2
    decide

theorem sample_messageOf {isOrig : Bool} {a i : Nat} (hi : (sample isOrig).MessageOf a i) : i = 0 := by
  cases isOrig with
  | true =>
      rcases hi with hi | hi
      · exact (Option.some.inj hi).symm
      · cases hi
  | false =>
      rcases hi with hi | hi
      · cases hi
      · exact (Option.some.inj hi).symm

theorem sample_current {isOrig : Bool} {m : MessageRef} {e : Nat} (he : (sample isOrig).Archived m e) :
    (sample isOrig).Current e := by
  have hm : e = 0 ∨ e = 1 := by
    have hmem := he.1
    simp only [sample, sampleDom, Finset.mem_insert, Finset.mem_singleton, reduceCtorEq, Ref.entity.injEq,
      false_or, or_false] at hmem
    exact hmem
  rcases hm with rfl | rfl
  · exact Or.inr ⟨.http 0, 0, 1, rfl, rfl, rfl⟩
  · exact Or.inr ⟨.mail 0, 0, 1, rfl, rfl, rfl⟩

section Surviving

variable {X : Type}

/-! ## Transfers that survive -/

/-- An HTTP transfer survives if its messages are those of a responder, and the pointers of their entities are into
current buffers. -/
theorem Heap.transferSurvives_iff (h : Heap X) (memory : Memory X) (a : Nat) (ha : .analyzer a ∈ h.dom) :
    h.TransferSurvives memory a ↔ ∀ i, h.MessageOf a i → (h.httpMessages i).isOrig = false ∧
      ∀ e, h.Archived (.http i) e → h.Current e := by
  constructor
  · rintro ⟨s, hl, -, hsurvive⟩ i hi
    obtain ⟨hmessage, -, hentities⟩ := hsurvive i hi
    constructor
    · rw [hl.objects_http (hi.message_mem ha), Option.some.injEq] at hmessage
      rw [← hmessage]
    · intro e he
      exact (hl.entity_eq_iff he).mp (hentities e he).1
  · intro hkept
    obtain ⟨s, hl⟩ := h.exists_loads memory
    refine ⟨s, hl, hl.objects_analyzer ha, fun i hi => ?_⟩
    obtain ⟨horig, hcurrent⟩ := hkept i hi
    refine ⟨?_, hl.buffersRestored (hi.message_mem ha), fun e he => ⟨?_, fun j hj => ?_⟩⟩
    · rw [hl.objects_http (hi.message_mem ha), ← horig]
    · exact (hl.entity_eq_iff he).mpr (hcurrent e he)
    · exact hl.objects_other (h.header_mem he.1 hj)

/-- The reply of the sample. -/
theorem Heap.transferSurvives_iff_reply : (sample false).TransferSurvives zeroed 0 := by
  refine (Heap.transferSurvives_iff (sample false) zeroed 0 (by decide)).mpr fun i hi => ?_
  obtain rfl := sample_messageOf hi
  exact ⟨rfl, fun e he => sample_current he⟩

/-- The message of an originator has lost that. -/
theorem Heap.not_transferSurvives_request : ¬ (sample true).TransferSurvives zeroed 0 := by
  rintro ⟨s, hl, -, hsurvive⟩
  have hmessage := (hsurvive 0 (Or.inl rfl)).1
  rw [hl.objects_http (by decide), Option.some.injEq] at hmessage
  exact absurd (congrArg HTTPMessage.isOrig hmessage) Bool.noConfusion

/-! ## Pointers that survive -/

/-- Pointers into buffers survive in an HTTP message, and in a mail if there are none. -/
theorem Heap.pointersSurvive_iff (h : Heap X) (memory : Memory X) (m : MessageRef)
    (hcurrent : ∀ e, h.Archived m e → h.Current e) :
    h.PointersSurvive memory m ↔ (∃ i, m = .http i) ∨
      ∀ e, h.Archived m e → (h.entities e).mime.dataBufData = .null := by
  constructor
  · intro hsurvive
    cases m with
    | http i => exact Or.inl ⟨i, rfl⟩
    | mail i => exact Or.inr fun e he => h.null_of_mail hsurvive he (hcurrent e he)
  · rintro (⟨i, rfl⟩ | hnull)
    · exact h.pointersSurvive_http hcurrent
    · exact h.pointersSurvive_of_null hnull

theorem Heap.pointersSurvive_iff_http : (sample true).PointersSurvive zeroed (.http 0) :=
  (Heap.pointersSurvive_iff (sample true) zeroed (.http 0) fun _ he => sample_current he).mpr (Or.inl ⟨0, rfl⟩)

/-- `GetBuffer` is called on the mail of the sample before it has its buffer. -/
theorem Heap.not_pointersSurvive_mail : ¬ (sample true).PointersSurvive zeroed (.mail 0) := by
  intro hsurvive
  have hnull := Heap.null_of_mail hsurvive (e := 1) ⟨by decide, rfl⟩ (Or.inr ⟨.mail 0, 0, 1, rfl, rfl, rfl⟩)
  cases hnull

end Surviving

end OFM.Bro.Messages
