import OFM.Lib.Framing
import OFM.Lib.Machine

/-!
# Writing to the connections

`conn_write_append_newline` of `SDMBNConn.c`, called by any number of threads for either connection, and
what a get writes. How many bytes a call of `write` takes is the kernel's choice, and its result is not
looked at.
-/

namespace OFM.Shared
open OFM.Lib

/-- `sdmbn_conn_state` and `sdmbn_conn_event` -/
inductive SdmbnConn
  | state | event
  deriving DecidableEq

/-- What a thread has done of a call since it took the lock. -/
inductive Stage
  | taken | lengthWritten | bodyWritten
  deriving DecidableEq

/-- A call that is going on. -/
structure Writing (τ : Type) where
  thread : τ
  conn : SdmbnConn
  buf : Bytes
  stage : Stage
  deriving DecidableEq

/-- What the next call of `write` is given, and where the thread is after it. -/
def Writing.next {τ : Type} (w : Writing τ) : Option (Bytes × Stage) :=
  match w.stage with
  | .taken => some (lengthBytes w.buf.length, .lengthWritten)
  | .lengthWritten => some (w.buf, .bodyWritten)
  | .bodyWritten => none

structure Senders (τ : Type) where
  /-- The call of the thread that holds `sdmbn_lock_conn`. -/
  writing : Option (Writing τ)
  stream : SdmbnConn → Bytes
  /-- The messages in the order in which their threads took the lock. -/
  sent : SdmbnConn → List Bytes

inductive SenderAction (τ : Type)
  /-- A thread calls the function and gets the lock. -/
  | call (thread : τ) (conn : SdmbnConn) (buf : Bytes)
  /-- `write` takes so many bytes. -/
  | write (thread : τ) (result : Nat)
  | unlock (thread : τ)

/-- What is documented of the result of `write`, errors apart. -/
def Writes (size result : Nat) : Prop := result ≤ size ∧ (0 < size → 0 < result)

instance (size result : Nat) : Decidable (Writes size result) := inferInstanceAs (Decidable (_ ∧ _))

namespace Senders

variable {τ : Type} [DecidableEq τ]

def new : Senders τ := ⟨none, fun _ => [], fun _ => []⟩

def called (s : Senders τ) (thread : τ) (conn : SdmbnConn) (buf : Bytes) : Senders τ where
  writing := some ⟨thread, conn, buf, .taken⟩
  stream := s.stream
  sent := Function.update s.sent conn (s.sent conn ++ [buf])

def written (s : Senders τ) (w : Writing τ) (bytes : Bytes) (stage : Stage) : Senders τ where
  writing := some { w with stage }
  stream := Function.update s.stream w.conn (s.stream w.conn ++ bytes)
  sent := s.sent

def step (s : Senders τ) : SenderAction τ → Option (Senders τ)
  | .call thread conn buf =>
      if s.writing = none then some (s.called thread conn buf) else none
  | .write thread result => do
      let w ← s.writing
      let (bytes, stage) ← w.next
      if w.thread = thread ∧ Writes bytes.length result then
        some (s.written w (bytes.take result) stage)
      else none
  | .unlock thread => do
      let w ← s.writing
      if w.thread = thread ∧ w.stage = .bodyWritten then some { s with writing := none } else none

/-- A call of `write` takes all it is given. -/
def Whole (s : Senders τ) : SenderAction τ → Prop
  | .write _ result => ∀ w ∈ s.writing, ∀ next ∈ w.next, result = next.1.length
  | _ => True

end Senders

/-! ## What a get writes -/

/-- The messages of `local_get_perflow` and the ack that `handle_get_perflow` sends behind them, as
texts. -/
structure PerflowGet where
  chunks : List Bytes
  /-- The ack with a count. -/
  ack : Nat → Bytes
  /-- The message has the id of the get. -/
  hasId : Bytes → Bool
  /-- The message is one with state. -/
  isState : Bytes → Bool
  chunks_isState : ∀ chunk ∈ chunks, isState chunk
  ack_isState : ∀ count, ¬ isState (ack count)

/-- The count is the number of messages with state. -/
def PerflowGet.messages (get : PerflowGet) : List Bytes := get.chunks ++ [get.ack get.chunks.length]

theorem PerflowGet.countP_messages (get : PerflowGet) :
    get.messages.countP get.isState = get.chunks.length := by
  have hchunks : get.chunks.countP get.isState = get.chunks.length :=
    List.countP_eq_length.mpr get.chunks_isState
  rw [messages, List.countP_append, hchunks, List.countP_singleton, if_neg (get.ack_isState _),
    Nat.add_zero]

end OFM.Shared
