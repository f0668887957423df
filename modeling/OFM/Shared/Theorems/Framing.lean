import OFM.Shared.Conn
import OFM.Shared.Lemmas.Senders

/-!
# Messages over a stream

`conn_read` returns the messages of the controller one by one, however their bytes arrive. The controller
gets the messages of a network function exactly when every call of `write` takes all it is given and no
message is longer than the decoder of `SdmbnManager.java` accepts.
-/

namespace OFM.Shared
open OFM.Lib

/-! ## From the controller -/

/-- Successive calls return the bodies in order, a zero byte behind each, and leave what follows. -/
theorem connReads_frames {kernel : Kernel} (hkernel : kernel.Reads) {bodies : List Bytes}
    (hbodies : ∀ body ∈ bodies, (body.length : Int) < sdmbnConnReadMax) (rest : Bytes) (calls : Nat)
    {fuel : Nat} (hfuel : framedSize bodies ≤ fuel) :
    ∃ calls', connReads kernel fuel bodies.length ⟨frames bodies ++ rest, calls⟩ =
      some (bodies.map (· ++ [0]), ⟨rest, calls'⟩) := by
  induction bodies generalizing calls with
  | nil => exact ⟨calls, rfl⟩
  | cons body bodies ih =>
      rw [framedSize_cons, ← frame_length] at hfuel
      obtain ⟨calls₁, hread⟩ := connRead_frame hkernel (frames bodies ++ rest) calls
        (hbodies body (List.mem_cons_self ..)) (by omega : (Lib.frame body).length ≤ fuel)
      obtain ⟨calls₂, ih⟩ := ih (fun b hb => hbodies b (List.mem_cons_of_mem _ hb)) calls₁ (by omega)
      refine ⟨calls₂, ?_⟩
      rw [List.length_cons, connReads, frames_cons, List.append_assoc, hread]
      simp only [ih]
      rfl

/-- A kernel that yields one byte a call. -/
def byteByByte : Kernel := fun _ _ _ => 1

theorem byteByByte_reads : byteByByte.Reads := by
  intro calls size available hsize havailable
  exact ⟨Int.one_pos, by simp only [byteByByte]; omega⟩

theorem connReads_frames_sample : ∃ calls',
    connReads byteByByte 9 2 ⟨frames [[65], []] ++ [7], 0⟩ =
      some ([[65, 0], [0]], ⟨[7], calls'⟩) :=
  @connReads_frames byteByByte byteByByte_reads [[65], []] (by decide) [7] 0 9 (by decide)

/-! ## To the controller -/

/-- `MAX_LINE_LENGTH` of `SdmbnManager.java` -/
def maxLineLength : Nat := 1024 * 512

variable {τ : Type} [DecidableEq τ]

/-- The streams are whole frames, and the decoder delivers every message in order. -/
def Senders.Delivered (decoder : FrameDecoder maxLineLength) (s : Senders τ) : Prop :=
  ∀ conn, s.stream conn = frames (s.sent conn) ∧ decoder.decode (s.stream conn) = s.sent conn

/-- Of a get whose messages have been sent, the ack arrives, and with it as many messages with state as
it counts. -/
def Senders.Counted (decoder : FrameDecoder maxLineLength) (s : Senders τ) : Prop :=
  ∀ get : PerflowGet, (s.sent .state).filter get.hasId = get.messages →
    let received := (decoder.decode (s.stream .state)).filter get.hasId
    ∃ count, get.ack count ∈ received ∧ received.countP get.isState = count

omit [DecidableEq τ] in
theorem Senders.Delivered.counted {decoder : FrameDecoder maxLineLength} {s : Senders τ}
    (h : s.Delivered decoder) : s.Counted decoder := by
  intro get hget
  dsimp only
  rw [(h .state).2, hget]
  refine ⟨get.chunks.length, ?_, get.countP_messages⟩
  exact List.mem_append_right _ (List.mem_singleton_self _)

/-- Whatever the threads send in whatever order: when no call is going on, all messages have been
delivered and counted exactly if no `write` has been short and no frame is over the limit. -/
theorem Senders.delivered_iff (decoder : FrameDecoder maxLineLength) {as : List (SenderAction τ)}
    {s : Senders τ} (hr : Machine.run step new as = some s) (hfree : s.writing = none) :
    s.Delivered decoder ∧ s.Counted decoder ↔
      Machine.Along step Whole new as ∧
        ∀ conn, ∀ body ∈ s.sent conn, lengthSize + body.length ≤ maxLineLength := by
  constructor
  · rintro ⟨h, -⟩
    refine ⟨?_, fun conn => ?_⟩
    · by_contra hok
      obtain ⟨conn, hshort⟩ := run_short hok hr
      rw [Short, rest_free hfree, List.length_nil] at hshort
      exact decoder.decode_ne hshort (h conn).2
    · have hdecode := (h conn).2
      rw [(h conn).1] at hdecode
      exact (decoder.decode_frames_iff _).mp hdecode
  · rintro ⟨hok, hfits⟩
    have hdelivered : s.Delivered decoder := by
      intro conn
      have hframed := run_framed hok hr conn
      rw [Framed, rest_free hfree, List.append_nil] at hframed
      exact ⟨hframed, by rw [hframed]; exact decoder.whole _ (hfits conn)⟩
    exact ⟨hdelivered, hdelivered.counted⟩

/-! ### A message of two bytes -/

def maxLineDecoder : FrameDecoder maxLineLength :=
  FrameDecoder.passingOver (by decide : maxLineLength < 2 ^ 32)

/-- A thread sends a message, and the `write` of its body takes so many bytes. -/
def sendTwoBytes (result : Nat) : List (SenderAction Unit) :=
  [.call () .state [65, 66], .write () 4, .write () result, .unlock ()]

theorem along_sendTwoBytes : Machine.Along Senders.step Senders.Whole Senders.new (sendTwoBytes 2) := by
  refine Machine.along_cons.mpr ⟨trivial, fun t ht => ?_⟩
  cases ht
  refine Machine.along_cons.mpr ⟨?_, fun t ht => ?_⟩
  · rintro w ⟨⟩ next ⟨⟩
    rfl
  cases ht
  refine Machine.along_cons.mpr ⟨?_, fun t ht => ?_⟩
  · rintro w ⟨⟩ next ⟨⟩
    rfl
  cases ht
  exact Machine.along_cons.mpr ⟨trivial, fun t _ => Machine.along_nil⟩

theorem Senders.delivered_iff_sample : ∃ s, Machine.run step new (sendTwoBytes 2) = some s ∧
    s.Delivered maxLineDecoder ∧ s.Counted maxLineDecoder := by
  refine ⟨_, rfl, (delivered_iff maxLineDecoder
    (rfl : Machine.run step new (sendTwoBytes 2) = _) rfl).mpr
    ⟨along_sendTwoBytes, ?_⟩⟩
  rintro (_ | _) body hbody
  · obtain rfl := List.mem_singleton.mp hbody
    decide
  · cases hbody

/-- The message is shorter than the limit of the library, `write` takes one byte of its two, and the
controller does not get it. -/
theorem Senders.short_write : ∃ s, Machine.run step new (sendTwoBytes 1) = some s ∧
    s.writing = none ∧ (∀ conn, ∀ body ∈ s.sent conn, (body.length : Int) < sdmbnConnReadMax) ∧
    ¬ (s.Delivered maxLineDecoder ∧ s.Counted maxLineDecoder) := by
  refine ⟨_, rfl, rfl, ?_, fun h => ?_⟩
  · rintro (_ | _) body hbody
    · obtain rfl := List.mem_singleton.mp hbody
      decide
    · cases hbody
  · have hstream := congrArg List.length (h.1 .state).1
    revert hstream
    decide

end OFM.Shared
