import OFM.Controller.Lemmas.CopyChannels
import OFM.Controller.Theorems.Progress

/-!
# Copies of every scope

Behind their channels copies complete for all scopes, unless `src` holds an all-flows chunk that they ask
for: the state channel casts it to its class, but throws for want of a branch.
-/

namespace OFM.Controller
open OFM.Lib TransferOperation

namespace CopyOperation

variable [PacketUtil] {id : Int} {src dst : Middlebox} {key : PerflowKey} {scope : Scope}

/-- Each chunk of the requested classes is handed to the handler for its class and has been put to `dst`
once, and the copy has finished. -/
structure Copied (id : Int) (dst : Middlebox) (scope : Scope) (stock : Stock)
    (n : Network (Channelled CopyOperation) Holder) : Prop where
  dispatched : ∀ cls ∈ scope.classes, ∀ msg ∈ stock.held id cls,
    outcomeOf (Operation.new id) (.state msg) = .handler (.state msg)
  put : puts n.log = (scope.classes.flatMap fun cls =>
    (stock.held id cls).map fun msg => (dst, msg.content) : List (Middlebox × Content))
  finished : n.direct.op.finished = true

open MoveOperation (sampleSrc sampleDst)

/-- Instances of which the source has the chunks. -/
def stocked (stock : Stock) (mb : Middlebox) : Holder :=
  if mb = sampleSrc then stock.holder 1 else Stock.holder ⟨[], [], []⟩ 1

omit [PacketUtil] in
theorem stocked_raises (stock : Stock) (mb : Middlebox) : (stocked stock mb).raises = false := by
  unfold stocked
  split <;> rfl

/-- Copies between the sample instances. -/
def sampleRun (scope : Scope) (stock : Stock) (as : List (Act ReprocessMessage)) :
    Option (Network (Channelled CopyOperation) Holder) :=
  letI := plainFrames
  Machine.run Network.step (Network.start (new 1 sampleSrc sampleDst PerflowKey.new scope) (stocked stock)) as

/-- One per-flow chunk, and none of all flows. -/
def sampleStock : Stock := ⟨[⟨PerflowKey.new, 5, 0, [0x61]⟩], [], []⟩

/-- The chunk is handed over and put, both get-acks are handed over, and the put-ack. -/
def sampleCopy : List (Act ReprocessMessage) :=
  [.read sampleSrc, .read sampleSrc, .deliver .inOrder 0, .task 0, .deliver .inOrder 0,
    .deliver .inOrder 0, .read sampleDst, .deliver .inOrder 0]

/-- What is left to do. -/
def remaining (n : Network (Channelled CopyOperation) Holder) :
    List Command × List Command × List (Middlebox × Message) × List Task :=
  (n.wire sampleSrc, n.wire sampleDst, n.inFlight, n.direct.op.threadPool)

/-- One chunk of all flows. -/
def sampleAllflows : Stock := ⟨[], [], [[0x61]]⟩

end CopyOperation

end OFM.Controller
