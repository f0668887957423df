import OFM.Bro.Lemmas.Perflow

/-!
# Packets during a get

`DoNextPacket` and `local_get_perflow` in threads of their own. What is done under the lock of a connection
is one step.
-/

namespace OFM.Bro
open OFM.Lib

/-! ## Packets -/

/-- What a packet makes of its connection, under the lock. Nothing there marks a connection or gives it an
id. -/
structure Processing where
  apply : Connection → Packet → Connection
  moved : ∀ c p, (apply c p).moved = c.moved
  getOpId : ∀ c p, (apply c p).getOpId = c.getOpId
  lock : ∀ c p, (apply c p).lock = c.lock

/-- One packet after the other. -/
def Processing.all (process : Processing) (c : Connection) (packets : List Packet) : Connection :=
  packets.foldl process.apply c

/-- What became of a packet that had come to a connection. -/
inductive Fate where
  | processed
  | discarded
  deriving DecidableEq

structure Handled where
  conn : Pointer
  packet : Packet
  fate : Fate

/-- The arguments of `sdmbn_raise_reprocess`. -/
structure Reprocess where
  id : BitVec 32
  hashkey : BitVec 32
  packet : Packet

/-! ## Threads -/

section Threads

variable [TextArchive]

/-- Where the loop of `handle_get_proto` is: at the next entry, at the lock of a connection that has passed
the checks, or past it with a state to send. -/
inductive Loop where
  | next
  | lock (conn : Pointer)
  | send (chunk : Sent)

structure Threads where
  sessions : NetSessions
  /-- A packet, and the connection whose lock it waits for. -/
  arrived : Option (Packet × Pointer)
  /-- The tables that are left, the first one being gone through. -/
  tables : List Table
  loop : Loop
  count : Nat
  sent : List Sent
  raised : List Reprocess
  /-- What became of the packets so far. -/
  handled : List Handled
  /-- The connections as they were before the get, or as they were made. -/
  born : Pointer → Connection

/-- What the two threads do. -/
inductive Action where
  /-- `DoNextPacket` up to the lock. -/
  | packet (p : Packet) (input : PacketInput)
  | handle
  /-- `NextEntry` gives a connection. -/
  | next (conn : Pointer)
  /-- `NextEntry` gives none. -/
  | endTable
  /-- What the get does under the lock. -/
  | take
  | send

namespace Threads

/-- Before a get. -/
def start (input : GetInput) (s : NetSessions) : Threads :=
  ⟨s, none, listedTables input.key.nwProto, .next, 0, [], [], [], s.heap⟩

/-- The region of `DoNextPacket` that the lock protects. The event for a marked connection is commented
out, and nothing more is done with the packet. -/
def handle (process : Processing) (w : Threads) : Option Threads :=
  match w.arrived with
  | none => none
  | some (p, conn) =>
      let c := w.sessions.heap conn
      if c.lock then none
      else if c.moved then
        some { w with arrived := none, handled := w.handled ++ [⟨conn, p, .discarded⟩] }
      else
        some { w with
          sessions := w.sessions.modify conn (process.apply · p)
          arrived := none
          handled := w.handled ++ [⟨conn, p, .processed⟩] }

/-- The region of `handle_get_proto` that the lock protects. -/
def take (input : GetInput) (w : Threads) : Option Threads :=
  match w.loop with
  | .lock conn =>
      let c := w.sessions.heap conn
      if c.lock then none
      else
        match sdmbnBoostEncode (input.encode conn) c with
        | .error _ => none
        | .ok none =>
            some { w with
              sessions := w.sessions.modify conn fun c => { input.take c with lock := true }
              loop := .next }
        | .ok (some state) =>
            some { w with
              sessions := w.sessions.modify conn input.take
              loop := .send ⟨conn, input.id, connkey input.u c, state, c.key.hash, w.count⟩ }
  | _ => none

/-- A step of either thread. Nothing comes after an abort. -/
def step (hashBytes : List (BitVec 8) → BitVec 64) (process : Processing) (input : GetInput) (w : Threads) :
    Action → Option Threads
  | .packet p packetInput =>
      match w.arrived with
      | some _ => none
      | none =>
          (w.sessions.doNextPacket hashBytes p packetInput).map fun (s, conn) =>
            { w with
              sessions := s
              arrived := conn.map (p, ·)
              born := fun q => if q < w.sessions.fresh then w.born q else s.heap q }
  | .handle => w.handle process
  | .next conn =>
      match w.tables, w.loop with
      | t :: _, .next =>
          if conn ∈ (w.sessions.conns t).values then
            if input.selects (w.sessions.heap conn) then some { w with loop := .lock conn } else some w
          else none
      | _, _ => none
  | .endTable =>
      match w.tables, w.loop with
      | _ :: rest, .next => some { w with tables := rest, count := 0 }
      | _, _ => none
  | .take => w.take input
  | .send =>
      match w.loop with
      | .send chunk => some { w with sent := w.sent ++ [chunk], count := w.count + 1, loop := .next }
      | _ => none

/-- What became of the packets of a connection. -/
def handledOf (w : Threads) (conn : Pointer) : List Handled := w.handled.filter fun h => h.conn = conn

end Threads

end Threads

end OFM.Bro
