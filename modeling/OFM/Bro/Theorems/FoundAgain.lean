import OFM.Bro.Lemmas.Instance
import OFM.Bro.Theorems.KeySelection

/-!
# Whether a connection that is put is found again

The key of a connection travels with it, and has been hashed where the connection was made.
-/

namespace OFM.Bro
open OFM.Lib OFM.Lib.Machine

/-! ## Packets of one connection -/

/-- The packets of the same connection, in its directions. An ICMP message that has no counterpart has one
direction only. -/
def Packet.SameFlow (p p' : Packet) : Prop :=
  p'.table = p.table ∧
    (p'.connID = p.connID ∨ p.connID.isOneWay = false ∧ p'.connID = p.connID.reverse)

theorem Packet.SameFlow.keyBytes_eq {p p' : Packet} (h : p.SameFlow p') :
    p'.connID.keyBytes = p.connID.keyBytes := by
  rcases h.2 with he | ⟨hway, he⟩
  · rw [he]
  · rw [he, ConnID.keyBytes_reverse hway]

section Put

variable [TextArchive]

/-- A connection that the packet has made somewhere, and that has been written in one instance and put into
another one, when some time has passed. -/
inductive Arrived (maker destination : List (BitVec 8) → BitVec 64) (p : Packet) :
    NetSessions → Pointer → Prop
  | intro {source : List (BitVec 8) → BitVec 64} {heap : Pointer → Connection} {before after : List Event}
      {s₀ s s₁ s₂ : NetSessions} {conn : Pointer} {encode : EncodeInput} {text : Text} {input : DecodeInput}
      {n : Int} (hbefore : run (step source) (.start heap) before = some s₀)
      (hconn : conn ∈ s₀.connections) (hmade : MadeBy maker p (s₀.heap conn))
      (hencode : sdmbnBoostEncode encode (s₀.heap conn) = .ok (some text))
      (hput : localPutPerflow input text s = .ok (s₁, n))
      (hafter : run (step destination) s₁ after = some s₂) : Arrived maker destination p s₂ s.fresh

/-- As long as the connection is in its table, its packets find it. -/
def FoundAgain (maker destination : List (BitVec 8) → BitVec 64) (p : Packet) : Prop :=
  ∀ s conn, Arrived maker destination p s conn → conn ∈ (s.conns p.table).values →
    ∀ p', p.SameFlow p' → s.find destination p' = some conn

/-! ## What is put -/

/-- What has been encoded is decoded, if nothing is wrong with the temporary file. -/
theorem sdmbnBoostDecode_encode {encode : EncodeInput} {c : Connection} {text : Text}
    (h : sdmbnBoostEncode encode c = .ok (some text)) (input : DecodeInput) :
    sdmbnBoostDecode input text = .ok (if input.fopen && input.fwrite
      then .new { c with moved := false, getOpId := input.getOpId, lock := false } else .old none) := by
  obtain ⟨-, -, htext⟩ := sdmbnBoostEncode_eq_some h
  have hload : (loadPointer input.getOpId).run (save true ++ c.save) =
      some (some { c with moved := false, getOpId := input.getOpId, lock := false }, []) := by
    have hconn := Connection.load_save input.getOpId c []
    rw [List.append_nil] at hconn
    rw [loadPointer, Archived.bind_run]
    simp [hconn]
  rw [htext, sdmbnBoostDecode, TextArchive.read_write, TextArchive.isEmpty_write]
  simp only [hload, Bool.or_false]
  cases input.fopen <;> cases input.fwrite <;> rfl

/-- A put of what has been encoded inserts a new connection. -/
theorem localPutPerflow_encode {encode : EncodeInput} {c : Connection} {text : Text}
    (h : sdmbnBoostEncode encode c = .ok (some text)) (input : DecodeInput) (s : NetSessions) :
    localPutPerflow input text s =
      if input.fopen && input.fwrite then
        match (s.allocate { c with moved := false, getOpId := 0, lock := false }).insert s.fresh
          (s.fresh_lt_allocate _) with
        | none => .error .aborted
        | some s => .ok (s, 1)
      else .error .aborted := by
  have hdecode := sdmbnBoostDecode_encode h input
  cases hfile : input.fopen && input.fwrite with
  | false =>
      rw [hfile, if_neg Bool.false_ne_true] at hdecode
      rw [localPutPerflow, hdecode, if_neg Bool.false_ne_true]
  | true =>
      rw [hfile, if_pos rfl] at hdecode
      rw [localPutPerflow, hdecode, if_pos rfl]
      rfl

/-- It is the only one in its place. -/
theorem placed_localPutPerflow {encode : EncodeInput} {c : Connection} {text : Text} {input : DecodeInput}
    {s s₁ : NetSessions} {n : Int} {t : Table} (ht : c.proto.table = some t)
    (hencode : sdmbnBoostEncode encode c = .ok (some text))
    (hput : localPutPerflow input text s = .ok (s₁, n)) : Placed t c.key s.fresh s₁ := by
  have hinsert : (s.allocate { c with moved := false, getOpId := 0, lock := false }).insert s.fresh
      (s.fresh_lt_allocate _) = some s₁ := by
    rw [localPutPerflow_encode hencode] at hput
    split at hput
    · split at hput
      · cases hput
      case h_2 hs =>
        cases hput
        exact hs
    · cases hput
  have hchange : Change (fun _ => True) _ s₁ := .insert _ hinsert
  have hplaced : Placed t c.key s.fresh (s.allocate { c with moved := false, getOpId := 0, lock := false }) :=
    placed_allocate (c := { c with moved := false, getOpId := 0, lock := false }) s ht
  exact hplaced.change hchange

/-! ## Every connection has been made by a packet -/

omit [TextArchive] in
/-- All connections in memory have been made where one of the hash functions is used. -/
def Native (hashes : Set (List (BitVec 8) → BitVec 64)) (s : NetSessions) : Prop :=
  ∀ conn < s.fresh, ∃ h ∈ hashes, ∃ p, MadeBy h p (s.heap conn)

/-- What is put has been encoded of such a connection. -/
def Event.Genuine (hashes : Set (List (BitVec 8) → BitVec 64)) : Event → Prop
  | .put _ text => ∃ encode c, sdmbnBoostEncode encode c = .ok (some text) ∧
      ∃ h ∈ hashes, ∃ p, MadeBy h p c
  | _ => True

section Native

variable {hashes : Set (List (BitVec 8) → BitVec 64)} {hashBytes : List (BitVec 8) → BitVec 64}
  {s s' : NetSessions}

omit [TextArchive] in
theorem Native.change {made : Connection → Prop} (h : Native hashes s) (hs : Change made s s')
    (hmade : ∀ c, made c → ∃ h ∈ hashes, ∃ p, MadeBy h p c) : Native hashes s' := by
  induction hs with
  | alike ha =>
      intro conn hc
      obtain ⟨m, hm, p, hkey, hproto⟩ := h conn (ha.fresh ▸ hc)
      exact ⟨m, hm, p, (ha.key conn).trans hkey, (ha.proto conn).trans hproto⟩
  | @allocate s c t hc _ =>
      intro conn hlt
      by_cases he : conn = s.fresh
      · have hheap : (s.allocate c).heap conn = c := he ▸ Function.update_self ..
        rw [hheap]
        exact hmade c hc
      · have hheap : (s.allocate c).heap conn = s.heap conn := Function.update_of_ne he ..
        rw [hheap]
        exact h conn (Nat.lt_of_le_of_ne (Nat.le_of_lt_succ hlt) he)
  | removeEntry => exact h
  | insertEntry => exact h
  | trans _ _ ih ih' => exact ih' (ih h)

/-- A new connection is made by a packet, here or where it comes from. -/
theorem Event.Genuine.makes {event : Event} (h : event.Genuine hashes) (hmem : hashBytes ∈ hashes)
    {c : Connection} (hc : event.Makes hashBytes c) : ∃ h ∈ hashes, ∃ p, MadeBy h p c := by
  cases event with
  | packet p input => exact ⟨hashBytes, hmem, p, hc⟩
  | put input text =>
      obtain ⟨encode, c', hencode, m, hm, p, hmade⟩ := h
      obtain ⟨conn, hdecode, rfl⟩ := hc
      rw [sdmbnBoostDecode_encode hencode, Except.ok.injEq] at hdecode
      split at hdecode
      · cases hdecode
        exact ⟨m, hm, p, hmade.key, hmade.proto⟩
      · cases hdecode
  | work | remove | get => cases hc

/-- The connections of an instance have been made by packets, there or where those that were put come
from. -/
theorem native_of_run (hmem : hashBytes ∈ hashes) {heap : Pointer → Connection} {events : List Event}
    (hgen : ∀ event ∈ events, event.Genuine hashes)
    (hs : run (step hashBytes) (.start heap) events = some s) : Native hashes s := by
  have hstart : Native hashes (.start heap) := fun _ hc => absurd hc (Nat.not_lt_zero _)
  have hok : Along (step hashBytes) (fun _ event => event.Genuine hashes) (.start heap) events := by
    rintro pre event suf t rfl -
    exact hgen event (by simp)
  refine run_invariant hstart (fun _ event _ h hev hs => ?_) hok hs
  exact h.change (step_change hs) fun _ hc => hev.makes hmem hc

end Native

/-! ## Finding it -/

variable {maker destination : List (BitVec 8) → BitVec 64} {p : Packet}

theorem Arrived.placed {s : NetSessions} {conn : Pointer} (h : Arrived maker destination p s conn) :
    Placed p.table (buildConnIDHashKey maker p.connID) conn s := by
  obtain ⟨-, -, hmade, hencode, hput, hafter⟩ := h
  rw [← hmade.key]
  have hproto := hmade.proto ▸ p.table_tproto
  exact (placed_localPutPerflow hproto hencode hput).after_run hafter

omit [TextArchive] in
theorem mem_values_insertEntry (s : NetSessions) (t : Table) (k : HashKey) {conn : Pointer}
    (hc : conn < s.fresh) : conn ∈ ((s.insertEntry t k conn hc).conns t).values := by
  obtain ⟨e, he, -, hvalue⟩ := Dictionary.exists_mem_insert (s.conns t) k conn
  have hconns : (s.insertEntry t k conn hc).conns t = (s.conns t).insert k conn := Function.update_self ..
  rw [hconns]
  exact List.mem_map.mpr ⟨e, he, hvalue⟩

omit [TextArchive] in
/-- A connection with a table is inserted into it. -/
theorem exists_insert {s : NetSessions} {conn : Pointer} {t : Table} (ht : (s.heap conn).proto.table = some t)
    (hc : conn < s.fresh) : ∃ s', s.insert conn hc = some s' ∧ conn ∈ (s'.conns t).values := by
  refine ⟨(s.removeEntry t (s.heap conn).key).insertEntry t (s.heap conn).key conn hc, ?_,
    mem_values_insertEntry _ _ _ _⟩
  rw [NetSessions.insert, ht, Option.map_some]

/-- The packet makes a connection in one instance, and it is put into another one. -/
theorem exists_arrived (maker destination : List (BitVec 8) → BitVec 64) (p : Packet) :
    ∃ s conn, Arrived maker destination p s conn ∧ conn ∈ (s.conns p.table).values := by
  let setup := ipv4Connection p.table 0 0 0 0
  let input : PacketInput := ⟨some setup, false, .consistent, false⟩
  let empty := NetSessions.start fun _ => setup
  let made := newConn maker p false setup
  let s₀ := (empty.create maker p input).1
  have hbefore : run (step maker) empty [.packet p input] = some s₀ := rfl
  have hconn : 0 ∈ s₀.connections := by
    have hvalue : 0 ∈ (s₀.conns p.table).values :=
      mem_values_insertEntry _ _ _ (empty.fresh_lt_allocate made)
    rw [NetSessions.connections, List.mem_append, List.mem_append]
    cases ht : p.table <;> simp_all
  have hencode : sdmbnBoostEncode .good made = .ok (some (TextArchive.write (save true ++ made.save))) := rfl
  have hproto : ((empty.allocate { made with moved := false, getOpId := 0, lock := false }).heap
      empty.fresh).proto.table = some p.table := p.table_tproto
  obtain ⟨s₁, hinsert, hstill⟩ := exists_insert hproto (empty.fresh_lt_allocate _)
  have hput : localPutPerflow ⟨true, true, none, 0⟩ (TextArchive.write (save true ++ made.save)) empty =
      .ok (s₁, 1) := by
    rw [localPutPerflow_encode hencode, hinsert]
    rfl
  have hafter : run (step destination) s₁ [] = some s₁ := rfl
  exact ⟨s₁, empty.fresh, .intro hbefore hconn ⟨rfl, rfl⟩ hencode hput hafter, hstill⟩

theorem FoundAgain.hash_eq (h : FoundAgain maker destination p) :
    (maker p.connID.keyBytes).setWidth 32 = (destination p.connID.keyBytes).setWidth 32 := by
  obtain ⟨s, conn, harrived, hstill⟩ := exists_arrived maker destination p
  have hself : p.SameFlow p := ⟨rfl, Or.inl rfl⟩
  have hkey := (harrived.placed.lookup_iff hstill).mp (h s conn harrived hstill p hself)
  exact (congrArg HashKey.hash hkey).symm

/-- Whatever happens in the two instances, the packets of a connection that has been put find it, if and
only if the hashes of its key are the same. -/
theorem foundAgain_iff (maker destination : List (BitVec 8) → BitVec 64) (p : Packet) :
    FoundAgain maker destination p ↔
      (maker p.connID.keyBytes).setWidth 32 = (destination p.connID.keyBytes).setWidth 32 := by
  refine ⟨FoundAgain.hash_eq, fun hhash s conn harrived hstill p' hflow => ?_⟩
  have hkey : buildConnIDHashKey destination p'.connID = buildConnIDHashKey maker p.connID := by
    rw [buildConnIDHashKey, buildConnIDHashKey, hflow.keyBytes_eq, HashKey.ofBytes, HashKey.ofBytes, hhash]
  rw [NetSessions.find, hflow.1]
  exact (harrived.placed.lookup_iff hstill).mpr hkey

end Put

/-- The packet of a TCP connection. -/
def samplePacket : Packet := ⟨.ofIn4 0x0100000a, .ofIn4 0x0200000a, .tcp 1 2⟩

/-- Two instances that hash everything to 0 and to 1. -/
theorem not_foundAgain_other : letI := plainArchive
    ¬ FoundAgain (fun _ => 0) (fun _ => 1) samplePacket := by
  let _ := plainArchive
  intro h
  have hhash : (0 : BitVec 64).setWidth 32 = (1 : BitVec 64).setWidth 32 := h.hash_eq
  exact absurd hhash (by decide)

end OFM.Bro
