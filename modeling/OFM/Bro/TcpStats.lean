import OFM.Bro.Perflow
import OFM.Lib.Tally

/-!
# Statistics of TCP states

`TCPStateStats` of `Stats.cc`, and what is done to `tcp_stats` where connections are made, change their states,
are removed, taken and put. The states of the two endpoints of a TCP analyzer are kept beside its connection.
-/

namespace OFM.Bro
open OFM.Lib

inductive EndpointState where
  | inactive | synSent | synAckSent | partialData | established | closed | reset
  deriving DecidableEq, Repr

/-- The states of the originator and of the responder. -/
abbrev EndpointStates := EndpointState × EndpointState

/-- The counters, and whether one of them has been decremented when it was not positive. -/
structure TCPStateStats where
  stateCnt : EndpointStates → Int
  below : Bool

namespace TCPStateStats

variable (stats : TCPStateStats)

def stateEntered (states : EndpointStates) : TCPStateStats :=
  { stats with stateCnt := Function.update stats.stateCnt states (stats.stateCnt states + 1) }

def stateLeft (states : EndpointStates) : TCPStateStats where
  stateCnt := Function.update stats.stateCnt states (stats.stateCnt states - 1)
  below := stats.below || decide (stats.stateCnt states ≤ 0)

def changeState (prev now : EndpointStates) : TCPStateStats := (stats.stateLeft prev).stateEntered now

def flipState (states : EndpointStates) : TCPStateStats := (stats.stateLeft states).stateEntered states.swap

end TCPStateStats

/-- The root analyzer of the connection is a `TCP_Analyzer`. -/
def Connection.hasTCPAnalyzer (c : Connection) : Bool := c.proto = .tcp && c.rootAnalyzer.isSome

/-- `NetSessions`, with `tcp_stats` and the states of the endpoints. -/
structure TCPSessions where
  sessions : NetSessions
  states : Pointer → EndpointStates
  tcpStats : TCPStateStats

namespace TCPSessions

variable (s : TCPSessions)

/-! ## Endpoints -/

/-- `SetState` of an endpoint. -/
def setState (conn : Pointer) (isOrig : Bool) (newState : EndpointState) : TCPSessions :=
  let (orig, resp) := s.states conn
  let now := if isOrig then (newState, resp) else (orig, newState)
  if newState ≠ (if isOrig then orig else resp) then
    { s with
      states := Function.update s.states conn now
      tcpStats := s.tcpStats.changeState (orig, resp) now }
  else s

/-- `FlipRoles` of a TCP analyzer. -/
def flipRoles (conn : Pointer) : TCPSessions :=
  { s with
    states := Function.update s.states conn (s.states conn).swap
    tcpStats := s.tcpStats.flipState (s.states conn) }

/-! ## Connections -/

/-- `Remove`: the counters are left alone for a connection that is marked. -/
def remove (conn : Pointer) : Option TCPSessions :=
  (s.sessions.remove conn).map fun t =>
    let c := s.sessions.heap conn
    { s with
      sessions := t
      tcpStats :=
        if !c.moved && c.hasTCPAnalyzer then s.tcpStats.stateLeft (s.states conn) else s.tcpStats }

variable (hashBytes : List (BitVec 8) → BitVec 64) (p : Packet) (input : PacketInput)

/-- A new connection. `SetPeer` of the originator of a TCP analyzer is called when the analyzer is made. -/
def create : TCPSessions :=
  match s.sessions.create hashBytes p input with
  | (t, none) => { s with sessions := t }
  | (t, some conn) =>
      if (t.heap conn).hasTCPAnalyzer then {
        sessions := t
        states := Function.update s.states conn (.inactive, .inactive)
        tcpStats := s.tcpStats.stateEntered (.inactive, .inactive) }
      else { s with sessions := t }

/-- `DoNextPacket` up to the lock. -/
def doNextPacket : Option TCPSessions :=
  match s.sessions.find hashBytes p with
  | none => some (s.create hashBytes p input)
  | some conn =>
      match input.consistency, input.isReuse with
      | .ignored, _ => some s
      | .consistent, false => some s
      | _, _ => (s.remove conn).map fun s => s.create hashBytes p input

end TCPSessions

/-- No connection has been made yet. -/
def TCPSessions.start (heap : Pointer → Connection) : TCPSessions where
  sessions := .start heap
  states _ := (.inactive, .inactive)
  tcpStats := ⟨fun _ => 0, false⟩

/-- Packets are handled for connections in the table that are not marked. -/
def TCPSessions.Active (s : TCPSessions) (conn : Pointer) : Prop :=
  conn ∈ (s.sessions.conns .tcp).values ∧ (s.sessions.heap conn).moved = false ∧
    (s.sessions.heap conn).hasTCPAnalyzer = true

instance (s : TCPSessions) (conn : Pointer) : Decidable (s.Active conn) :=
  inferInstanceAs (Decidable (_ ∧ _ ∧ _))

/-! ## What is counted -/

namespace TCPSessions

/-- The states of a connection that is not marked. -/
def statesOf (s : TCPSessions) (conn : Pointer) : Option EndpointStates :=
  let c := s.sessions.heap conn
  if !c.moved && c.hasTCPAnalyzer then some (s.states conn) else none

/-- How many connections in the table of TCP are not marked and in these states. -/
def inStates (s : TCPSessions) : EndpointStates → Nat := tally s.statesOf (s.sessions.conns .tcp).values

/-- Every counter says how many connections are in its states, and none has been decremented below zero. -/
structure Consistent (s : TCPSessions) : Prop where
  counted : ∀ states, s.tcpStats.stateCnt states = s.inStates states
  above : s.tcpStats.below = false

end TCPSessions

/-! ## Runs -/

variable [TextArchive]

inductive TCPEvent where
  | packet (p : Packet) (input : PacketInput)
  | setState (conn : Pointer) (isOrig : Bool) (newState : EndpointState)
  | flipRoles (conn : Pointer)
  /-- Whatever else analyzers do. -/
  | work (conn : Pointer) (c : Connection)
  | remove (conn : Pointer)
  | get (input : GetInput)
  /-- A put, and the states in the archive if it has some. -/
  | put (input : DecodeInput) (state : Text) (states : EndpointStates)

/-- What is left of the tables and the counters after an event, unless the process is not left. What has been
loaded is not counted. -/
def TCPSessions.step (hashBytes : List (BitVec 8) → BitVec 64) (s : TCPSessions) : TCPEvent → Option TCPSessions
  | .packet p input => s.doNextPacket hashBytes p input
  | .setState conn isOrig newState => if s.Active conn then some (s.setState conn isOrig newState) else none
  | .flipRoles conn => if s.Active conn then some (s.flipRoles conn) else none
  | .work conn c =>
      if c.moved = (s.sessions.heap conn).moved ∧
          c.rootAnalyzer.isSome = (s.sessions.heap conn).rootAnalyzer.isSome then
        (Bro.step hashBytes s.sessions (.work conn c)).map fun t => { s with sessions := t }
      else none
  | .remove conn => if conn ∈ s.sessions.connections then s.remove conn else some s
  | .get input => (Bro.step hashBytes s.sessions (.get input)).map fun t => { s with sessions := t }
  | .put input state states =>
      (Bro.step hashBytes s.sessions (.put input state)).map fun t =>
        { s with
          sessions := t
          states := Function.update s.states s.sessions.fresh states }

/-- Instances with a hash function each. -/
def instancesStep {ι : Type} [DecidableEq ι] (hashBytes : ι → List (BitVec 8) → BitVec 64)
    (w : ι → TCPSessions) (a : ι × TCPEvent) : Option (ι → TCPSessions) :=
  ((w a.1).step (hashBytes a.1) a.2).map (Function.update w a.1)

end OFM.Bro
