import OFM.Controller.Lemmas.Dequeue
import OFM.Controller.Theorems.SetFlag

/-!
# Packets that a share gives back

The packet of an event is kept as a text. It is given back as it was, and recognised when its echo comes,
exactly where the charset reads the packet as a text that it writes as the same bytes.
-/

namespace OFM.Controller.ShareOperation
open OFM.Lib

variable {packet : Packet} {msg : ReprocessMessage}

/-! ## Echoes -/

/-- An event is taken for the echo of the packet that was given back, and the packet waits no longer. -/
structure Recognises [PacketUtil] [Charset] (op : ShareOperation) (sent : Packet) (echo : ReprocessMessage)
    (source : Middlebox) : Prop where
  flagged : flagged echo = .ok sent
  last : op.lastPacket = some sent
  waits : ∃ src, (Charset.newString sent, src) ∈ op.originalEvents
  removed : ∀ src, (Charset.newString sent, src) ∉ (op.receiveReprocess echo source).val.originalEvents

/-- When the packet of the event, with its flag, is given back in a step of a run, then what is sent is that
packet, and the first event that has the same bytes is recognised. -/
def Carries [PacketUtil] [Charset] (consistency : Consistency) (msg : ReprocessMessage) : Prop :=
  ∀ (id : Int) (instances : List Middlebox) (key : PerflowKey) (scope : Scope) (before : List Input) (a : Input)
    (s s' : Session ShareOperation) (packet sent : Packet) (src : Middlebox) (sw : Nat) (out : List Effect)
    (rest : List (JavaString × Middlebox)),
    Machine.run Session.step (.start (new consistency id instances key scope)) before = some s →
      s.step a = some s' → (∃ source, (source, .reprocess msg) ∈ s'.handled) → flagged msg = .ok packet →
      s'.log = s.log ++ out → .packetOut src sw sent ∈ out →
      s'.op.originalEvents = (Charset.newString packet, src) :: rest →
        sent = packet ∧ ∀ between t, Machine.run Session.step s' between = some t →
          (∀ b ∈ between, ¬ b.Echoes sent) → ∀ echo source, ReprocessEvent.base64Decode echo.packet = sent →
            t.op.Recognises sent echo source

/-- An event with the bytes of a packet that has its flag has that packet. -/
theorem flagged_echo (h : letI := floodlight; flagged msg = .ok packet) {echo : ReprocessMessage}
    (hecho : ReprocessEvent.base64Decode echo.packet = packet) :
    letI := floodlight; flagged echo = .ok packet := by
  let _ := floodlight
  have hset : Floodlight.setFlag (ReprocessEvent.base64Decode msg.packet) PacketUtil.flagDoNotDrop =
      .ok (some packet) := by
    unfold flagged at h
    split at h
    · cases h
    · cases h
    · rename_i pkt hpkt
      cases h
      exact hpkt
  have hself : PacketUtil.setFlag (ReprocessEvent.base64Decode echo.packet) PacketUtil.flagDoNotDrop =
      .ok (some packet) := by
    rw [hecho]
    exact Floodlight.setFlag_self hset
  rw [flagged, hself]

section

variable [Charset]

theorem Waiting.recognises [PacketUtil] {op : ShareOperation} {key : JavaString} (h : op.Waiting key)
    (hkey : Charset.newString (Charset.getBytes key) = key) {echo : ReprocessMessage} (source : Middlebox)
    (hecho : flagged echo = .ok (Charset.getBytes key)) :
    op.Recognises (Charset.getBytes key) echo source where
  flagged := hecho
  last := h.last
  waits := by
    obtain ⟨src, rest, hfirst⟩ := h.first
    rw [hkey, hfirst]
    exact ⟨src, List.mem_cons_self ..⟩
  removed src := by
    rw [h.receiveReprocess source hecho]
    exact not_mem_remove op.originalEvents src

/-! ## The only instance of a share -/

/-- An instance that is attached to a switch. -/
def lone : Middlebox := ⟨[], 1, some 0, 0⟩

/-- An event comes while the share of one instance is being synchronised, and is given back when it is. -/
theorem exists_given [PacketUtil] (consistency : Consistency) (h : flagged msg = .ok packet) :
    ∃ (before : List Input) (a : Input) (s s' : Session ShareOperation),
      Machine.run Session.step (.start (new consistency 1 [lone] PerflowKey.new .perflow)) before = some s ∧
        s.step a = some s' ∧ (lone, .reprocess msg) ∈ s'.handled ∧
        s'.log = s.log ++ [.packetOut lone 0 (Charset.getBytes (Charset.newString packet))] ∧
        s'.op.originalEvents = [(Charset.newString packet, lone)] := by
  let op := new consistency 1 [lone] PerflowKey.new .perflow
  have hreceive : op.receiveReprocess msg lone =
      ⟨{ op with originalEvents := [(Charset.newString packet, lone)] }, []⟩ := by
    rw [receiveReprocess, h]
    rfl
  have hfirst : (Session.start op).step (.message .inOrder lone (.reprocess msg)) =
      some (((Session.start op).record (op.receiveReprocess msg lone)).note lone (.reprocess msg)) := rfl
  rw [hreceive] at hfirst
  let first : Session ShareOperation :=
    ⟨{ op with originalEvents := [(Charset.newString packet, lone)] }, op.enableEvents, [(lone, .reprocess msg)]⟩
  let second := (first.record first.op.receiveEventsAck).note lone .eventsAck
  let third := (second.record (second.op.receiveGetAck .perflow 0)).note lone (.getAck .perflow 0)
  refine ⟨[.message .inOrder lone (.reprocess msg), .message .inOrder lone .eventsAck],
    .message .inOrder lone (.getAck .perflow 0), second, third, ?_, rfl, ?_, rfl, rfl⟩
  · rw [Machine.run_cons, hfirst]
    rfl
  · exact List.mem_cons_self ..

end

/-! ## Packets as they were -/

theorem carries_iff [Charset] (consistency : Consistency) (h : letI := floodlight; flagged msg = .ok packet) :
    letI := floodlight
    Carries consistency msg ↔ Charset.getBytes (Charset.newString packet) = packet := by
  let _ := floodlight
  constructor
  · intro hcarries
    obtain ⟨before, a, s, s', hr, hs, hhandled, hlog, hevents⟩ := exists_given consistency h
    exact (hcarries 1 [lone] PerflowKey.new .perflow before a s s' packet _ lone 0 _ [] hr hs ⟨lone, hhandled⟩ h hlog
      (List.mem_singleton.mpr rfl) hevents).1
  · intro hbytes id instances key scope before a s s' packet' sent src sw out rest hr hs _ hpacket hlog hsent hevents
    have heq : packet' = packet := Except.ok.inj (hpacket.symm.trans h)
    subst heq
    have hready := Session.ready_run (ready_new consistency id instances key scope) hr
    obtain ⟨out', hlog', hgives⟩ := Session.gives_step hready hs
    have hout : out' = out := List.append_cancel_left (hlog'.symm.trans hlog)
    subst hout
    obtain ⟨key', rest', hevents', rfl, hwaiting⟩ := hgives.given src sw sent hsent
    have hkey : key' = Charset.newString packet' := by
      have heq := hevents'.symm.trans hevents
      cases heq
      rfl
    subst hkey
    refine ⟨hbytes, fun between t ht hno echo source hecho => ?_⟩
    have hlater := Session.waiting_run hgives.ready hwaiting ht hno
    refine hlater.recognises (by rw [hbytes]) source ?_
    rw [hbytes] at hecho ⊢
    exact flagged_echo h hecho

/-! ## Samples -/

/-- An event with the datagram of the samples. -/
def datagramEvent : ReprocessMessage :=
  ⟨1, [], ReprocessEvent.encodeBytes (Floodlight.datagram 0x1234) ++ [0]⟩

theorem flagged_datagramEvent :
    letI := floodlight; flagged datagramEvent = .ok (Floodlight.flaggedDatagram 0x1234) := by
  decide

theorem carries_iff_sample :
    letI := floodlight; letI := latin1; Carries .strong datagramEvent :=
  letI := latin1
  (carries_iff .strong flagged_datagramEvent).mpr (by decide)

/-- A byte that ASCII does not have comes back as a question mark. -/
theorem not_carries :
    ¬ ∀ (charset : Charset) (consistency : Consistency) (msg : ReprocessMessage),
      letI := floodlight; letI := charset; Carries consistency msg := by
  intro h
  let _ := floodlight
  let _ := usAscii
  obtain ⟨before, a, s, s', hr, hs, hhandled, hlog, hevents⟩ := exists_given .strong flagged_datagramEvent
  have hsent := (h usAscii .strong datagramEvent 1 [lone] PerflowKey.new .perflow before a s s' _ _ lone 0 _ [] hr hs
    ⟨lone, hhandled⟩ flagged_datagramEvent hlog (List.mem_singleton.mpr rfl) hevents).1
  exact absurd hsent (by decide)

/-! ## Charsets -/

theorem latin1_getBytes (packet : Packet) : latin1.getBytes (latin1.newString packet) = packet := by
  show (packet.map UInt8.toUInt16).map UInt16.toUInt8 = packet
  rw [List.map_map]
  exact List.map_id'' (fun byte => UInt8.toUInt8_toUInt16 byte) packet

theorem usAscii_getBytes_iff (packet : Packet) :
    usAscii.getBytes (usAscii.newString packet) = packet ↔ ∀ byte ∈ packet, byte < 0x80 := by
  have hbyte : ∀ byte : UInt8, usAscii.getBytes (usAscii.newString [byte]) = [byte] ↔ byte < 0x80 := by
    have h : ∀ n : Fin 256, usAscii.getBytes (usAscii.newString [UInt8.ofNat n]) = [UInt8.ofNat n] ↔
        UInt8.ofNat n < 0x80 := by decide +kernel
    intro byte
    simpa only [UInt8.ofNat_toNat] using h ⟨byte.toNat, byte.toNat_lt⟩
  induction packet with
  | nil => exact iff_of_true rfl (List.forall_mem_nil _)
  | cons byte packet ih =>
      have hcons : usAscii.getBytes (usAscii.newString (byte :: packet)) = byte :: packet ↔
          usAscii.getBytes (usAscii.newString [byte]) = [byte] ∧
            usAscii.getBytes (usAscii.newString packet) = packet := by
        show _ :: _ = byte :: packet ↔ [_] = [byte] ∧ _
        rw [List.cons.injEq, List.cons.injEq, and_iff_left rfl]
        rfl
      rw [List.forall_mem_cons]
      exact hcons.trans (and_congr (hbyte byte) ih)

end OFM.Controller.ShareOperation
