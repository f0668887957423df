import OFM.Lib.Links
import OFM.Prads.Lemmas.Perflow

/-!
# The connection table in memory

The buckets as the code has them: doubly linked lists that `cx_track`, `local_put_perflow`,
`local_get_perflow` and `local_del_perflow` walk through. A walk has fuel; where memory is accessed that is
not allocated, there is no result.
-/

namespace OFM.Prads
open OFM.Lib OFM.Shared
open OFM.Controller (JavaString)

structure Chains where
  heap : Heap Connection
  bucket : Nat → Option Nat
  cxtrackerid : BitVec 64
  dropCounter : BitVec 32

/-- No connection yet. -/
def Chains.start : Chains := ⟨fun _ => none, fun _ => none, 0, 0⟩

/-- A new connection at an address that has not been allocated becomes the head of its bucket. -/
def Chains.pushed (s : Chains) (hash addr : Nat) (cxt : Connection) : Option Chains :=
  if (s.heap addr).isNone then
    (s.heap.push (s.bucket hash) addr cxt).map fun (heap, head) =>
      { s with heap := heap, bucket := Function.update s.bucket hash head, cxtrackerid := s.cxtrackerid + 1 }
  else none

/-! ## Deleting -/

/-- `del_connection` -/
def delConnection (heap : Heap Connection) (head : Option Nat) (addr : Nat) :
    Option (Heap Connection × Option Nat) :=
  (heap addr).bind fun cxt =>
    match cxt.prev, cxt.next with
    | none, next => (heap.setPrev next none).map fun heap => (heap.free addr, next)
    | some prev, none => (heap.setNext (some prev) none).map fun heap => (heap.free addr, head)
    | some prev, some next => ((heap.setNext (some prev) (some next)).bind fun heap =>
        heap.setPrev (some next) (some prev)).map fun heap => (heap.free addr, head)

/-- The loop of `local_del_perflow` over a bucket. A connection is unlinked here and once more by
`del_connection`. -/
def delBucket (key : PerflowKey) (id : BitVec 32) :
    Nat → Heap Connection → Option Nat → Option Nat → Option (Heap Connection × Option Nat)
  | 0, _, _, _ => none
  | _ + 1, heap, head, none => some (heap, head)
  | fuel + 1, heap, head, some curr =>
      (heap curr).bind fun node =>
        if delSelects key node.val then
          let heap := heap.store curr { node with val := { node.val with gotten := id } }
          (heap.unlink head curr).bind fun (heap, head) =>
            (delConnection heap head curr).bind fun (heap, head) =>
              delBucket key id fuel heap head node.next
        else delBucket key id fuel heap head node.next

/-! ## Getting -/

/-- The loop of `local_get_perflow` over a bucket; what it sends is in `getBucket`. -/
def markBucket (u : Undefined) (key : PerflowKey) (id : BitVec 32) (raiseEvents : Bool) :
    Nat → Heap Connection → Option Nat → Option (Heap Connection)
  | 0, _, _ => none
  | _ + 1, heap, none => some heap
  | fuel + 1, heap, some curr =>
      (heap curr).bind fun node =>
        let heap := if getSelects u key node.val
          then heap.store curr { node with val := { node.val with gotten := mark id raiseEvents } } else heap
        markBucket u key id raiseEvents fuel heap node.next

variable [Macros]

/-! ## Tracking -/

/-- The search of `cx_track`: where the connection of a packet is. -/
def searchBucket (heap : Heap Connection) (pi : PacketInfo) :
    Nat → Option Nat → Option (Option (Nat × Tracked))
  | 0, _ => none
  | _ + 1, none => some none
  | fuel + 1, some curr =>
      (heap curr).bind fun node =>
        match trackOne node.val pi with
        | some tracked => some (some (curr, tracked))
        | none => searchBucket heap pi fuel node.next

/-- `cx_track`, with the address of a connection that it may have to allocate. -/
def Chains.cxTrack (fuel : Nat) (s : Chains) (pi : PacketInfo) (addr : Nat) : Option Chains :=
  (searchBucket s.heap pi fuel (s.bucket (hash pi))).bind fun
    | some (curr, tracked) => (s.heap curr).map fun node => { s with
        heap := s.heap.store curr { node with val := tracked.cxt }
        dropCounter := s.dropCounter + tracked.drops }
    | none => s.pushed (hash pi) addr (cxtNew (s.cxtrackerid + 1) pi)

/-! ## The calls -/

def Chains.getPerflow (fuel : Nat) (s : Chains) (u : Undefined) (key : PerflowKey) (id : BitVec 32)
    (raiseEvents : Bool) : Option Chains :=
  ((List.range Macros.bucketSize).foldlM (fun heap h =>
    markBucket u key id raiseEvents fuel heap (s.bucket h)) s.heap).map fun heap => { s with heap := heap }

def Chains.delPerflow (fuel : Nat) (s : Chains) (key : PerflowKey) (id : BitVec 32) : Option Chains :=
  (List.range Macros.bucketSize).foldlM (fun s h =>
    (delBucket key id fuel s.heap (s.bucket h) (s.bucket h)).map fun (heap, head) =>
      { s with heap := heap, bucket := Function.update s.bucket h head }) s

variable [Serializer]

/-- `local_put_perflow`, with the address of the connection that `ser_parse` has allocated. -/
def Chains.putPerflow (s : Chains) (key : PerflowKey) (state : Option JavaString) (addr : Nat) :
    Option Chains :=
  match state with
  | none => some s
  | some state => s.pushed (putHash key) addr (putConnection (s.cxtrackerid + 1) state)

inductive TableAction
  | packet (pi : PacketInfo) (addr : Nat)
  | getPerflow (u : Undefined) (key : PerflowKey) (id : BitVec 32) (raiseEvents : Bool)
  | putPerflow (key : PerflowKey) (state : Option JavaString) (addr : Nat)
  | delPerflow (key : PerflowKey) (id : BitVec 32)

/-- The address that a call may take for a connection. -/
def TableAction.allocates : TableAction → Nat → Prop
  | .packet _ addr, a | .putPerflow _ _ addr, a => a = addr
  | _, _ => False

def Chains.step (fuel : Nat) (s : Chains) : TableAction → Option Chains
  | .packet pi addr => s.cxTrack fuel pi addr
  | .getPerflow u key id raiseEvents => s.getPerflow fuel u key id raiseEvents
  | .putPerflow key state addr => s.putPerflow key state addr
  | .delPerflow key id => s.delPerflow fuel key id

/-- The same of lists. -/
def Tables.call (t : Tables) : TableAction → Tables
  | .packet pi _ => (cxTrack t pi).1
  | .getPerflow u key id raiseEvents => t.gotten u key id raiseEvents (List.range Macros.bucketSize)
  | .putPerflow key state _ => localPutPerflow key state t
  | .delPerflow key _ => (localDelPerflow key t).1

end OFM.Prads
