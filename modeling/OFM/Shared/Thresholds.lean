import OFM.Lib.Machine
import OFM.Shared.PerflowCalls

/-!
# Thresholds that hold gets back, and the count of active flows

The lock of gets, seen by all the threads of a network function: `sdmbn_init` takes it when there is a
threshold, `sdmbn_notify_packet_received` lets go of it, and in between the gets of the state thread take
it one after the other. `flows_active` beside the tables of a network function: what the library counts of a run,
and what is in the tables.
-/

namespace OFM.Shared
open OFM.Lib

/-- What the state thread is at. -/
inductive StateThread where
  | idle
  /-- A get has come to the lock. -/
  | waiting (id : Int)
  /-- A get is carried out. -/
  | getting (id : Int)
  deriving DecidableEq

/-- The counters of `sdmbn_stats`, the lock, and the state thread. -/
structure Library where
  pktsReceived : BitVec 32
  flowsActive : BitVec 32
  lock : Bool
  thread : StateThread

/-- What threads do. -/
inductive Happening where
  | packetReceived
  | flowCreated
  | flowDestroyed
  /-- The function of the middlebox for a put, or for a deletion, has come back. -/
  | put (result : Int)
  | delete (count : Int)
  /-- A command arrives. -/
  | get (msg : GetCommand)
  /-- The get that waits takes the lock. -/
  | lockTaken
  /-- The middlebox has answered the get that is carried out. -/
  | answered (count : Int)

section Code

variable {σ : Type} (config : SDMBNConfig) (getPerflow : Option (GetFunction σ))

/-- `sdmbn_notify_packet_received`: an unlocked lock is not changed when it is unlocked. -/
def sdmbnNotifyPacketReceived (lib : Library) : Library :=
  let lib := { lib with pktsReceived := lib.pktsReceived + 1 }
  if config.thresholds then
    if config.releaseGetPkts = lib.pktsReceived then { lib with lock := false }
    else if config.releaseGetFlows = lib.flowsActive then { lib with lock := false }
    else lib
  else lib

/-- `sdmbn_notify_flow_created` -/
def sdmbnNotifyFlowCreated (lib : Library) : Library := { lib with flowsActive := lib.flowsActive + 1 }

/-- `sdmbn_notify_flow_destroyed` -/
def sdmbnNotifyFlowDestroyed (lib : Library) : Library := { lib with flowsActive := lib.flowsActive - 1 }

/-- Commands are handled one after the other, by one thread. -/
def Library.step (lib : Library) : Happening → Option Library
  | .packetReceived => some (sdmbnNotifyPacketReceived config lib)
  | .flowCreated => some (sdmbnNotifyFlowCreated lib)
  | .flowDestroyed => some (sdmbnNotifyFlowDestroyed lib)
  | .put result =>
      if lib.thread = .idle then
        some (if result < 0 then lib else { lib with flowsActive := lib.flowsActive + 1 })
      else none
  | .delete count =>
      if lib.thread = .idle then
        some (if count < 0 then lib else { lib with flowsActive := lib.flowsActive - 1 })
      else none
  | .get msg =>
      if lib.thread = .idle then
        match openGet getPerflow msg with
        | .error _ => some lib
        | .ok _ => some { lib with thread := .waiting msg.id }
      else none
  | .lockTaken =>
      match lib.thread with
      | .waiting id => if lib.lock then none else some { lib with lock := true, thread := .getting id }
      | _ => none
  | .answered count =>
      match lib.thread with
      | .getting id => some { lib with lock := (closeGet id count).2.1, thread := .idle }
      | _ => none

end Code

/-! ## What has been counted -/

/-- The thresholds let gets through, by the numbers of packets and of flows. -/
def SDMBNConfig.Reached (config : SDMBNConfig) (packets : Nat) (flows : Int) : Prop :=
  config.thresholds = false ∨
    (0 < config.releaseGetPkts.toInt ∧ config.releaseGetPkts.toInt ≤ packets) ∨
    (0 < config.releaseGetFlows.toInt ∧ config.releaseGetFlows.toInt ≤ flows)

instance (config : SDMBNConfig) (packets : Nat) (flows : Int) : Decidable (config.Reached packets flows) :=
  inferInstanceAs (Decidable (_ ∨ _))

/-- The packets received and the flows active, and whether a threshold has been reached up to now. -/
structure Seen where
  packets : Nat
  flows : Int
  released : Bool

/-- New numbers. -/
def Seen.counted (config : SDMBNConfig) (seen : Seen) (packets : Nat) (flows : Int) : Seen :=
  ⟨packets, flows, seen.released || decide (config.Reached packets flows)⟩

def Seen.step (config : SDMBNConfig) (seen : Seen) : Happening → Seen
  | .packetReceived => seen.counted config (seen.packets + 1) seen.flows
  | .flowCreated => seen.counted config seen.packets (seen.flows + 1)
  | .flowDestroyed => seen.counted config seen.packets (seen.flows - 1)
  | .put result => if result < 0 then seen else seen.counted config seen.packets (seen.flows + 1)
  | .delete count => if count < 0 then seen else seen.counted config seen.packets (seen.flows - 1)
  | _ => seen

/-- The library, with what has happened to it. -/
structure Moment where
  lib : Library
  seen : Seen

section Moments

variable {σ : Type} (config : SDMBNConfig) (getPerflow : Option (GetFunction σ))

/-- After `sdmbn_init`. -/
def Moment.init : Moment :=
  ⟨⟨0, 0, sdmbnInit config, .idle⟩, ⟨0, 0, decide (config.Reached 0 0)⟩⟩

def Moment.step (m : Moment) (a : Happening) : Option Moment :=
  (m.lib.step config getPerflow a).map fun lib => ⟨lib, m.seen.step config a⟩

end Moments

/-- The state thread is carrying out a get. -/
def StateThread.Getting (thread : StateThread) : Prop := ∃ id, thread = .getting id

/-- The lock works as documented. -/
structure Moment.Works (m : Moment) : Prop where
  /-- A get that waits, or that arrives, is carried out if a threshold has been reached, and only then. -/
  free_iff : ¬ m.lib.thread.Getting → (m.lib.lock = false ↔ m.seen.released = true)
  processed : m.lib.thread.Getting → m.seen.released = true
  /-- The lock is not unlocked while a get holds it. -/
  held : m.lib.thread.Getting → m.lib.lock = true

/-- A packet that arrives now unlocks the lock. -/
def Library.Hit (config : SDMBNConfig) (lib : Library) : Prop :=
  config.thresholds = true ∧
    (config.releaseGetPkts = lib.pktsReceived + 1 ∨ config.releaseGetFlows = lib.flowsActive)

instance (config : SDMBNConfig) (lib : Library) : Decidable (lib.Hit config) :=
  inferInstanceAs (Decidable (_ ∧ _))

/-- The flow threshold is reached by one more flow. -/
def Seen.ReachesFlows (config : SDMBNConfig) (seen : Seen) : Prop :=
  0 < config.releaseGetFlows.toInt ∧ config.releaseGetFlows.toInt ≤ seen.flows + 1

/-- The thresholds are not missed, and the lock is not lost: a packet that unlocks comes while no get is
carried out and, as long as nothing has been reached, is the one that reaches the packet threshold; no flow
reaches the flow threshold first; and no get fails. -/
def Moment.Safe (config : SDMBNConfig) (m : Moment) : Happening → Prop
  | .packetReceived => m.lib.Hit config → ¬ m.lib.thread.Getting ∧
      (m.seen.released = false →
        0 < config.releaseGetPkts.toInt ∧ config.releaseGetPkts = m.lib.pktsReceived + 1)
  | .flowCreated => m.seen.released = false → ¬ m.seen.ReachesFlows config
  | .put result => 0 ≤ result → m.seen.released = false → ¬ m.seen.ReachesFlows config
  | .answered count => 0 ≤ count
  | _ => True

/-! ## Active flows -/

/-- What is added to `flows_active`. -/
def Happening.adjusts : Happening → Int
  | .flowCreated => 1
  | .flowDestroyed => -1
  | .put result => if result < 0 then 0 else 1
  | .delete count => if count < 0 then 0 else -1
  | _ => 0

/-- In the library the count is a word. -/
theorem Library.step_flowsActive {σ : Type} {config : SDMBNConfig} {getPerflow : Option (GetFunction σ)}
    {lib lib' : Library} {h : Happening} (hs : lib.step config getPerflow h = some lib') :
    lib'.flowsActive = lib.flowsActive + BitVec.ofInt 32 h.adjusts := by
  have hzero : lib.flowsActive = lib.flowsActive + BitVec.ofInt 32 0 := by simp
  cases h with
  | packetReceived =>
      cases hs
      rw [sdmbnNotifyPacketReceived]
      split
      · split
        · exact hzero
        · split <;> exact hzero
      · exact hzero
  | flowCreated =>
      cases hs
      rfl
  | flowDestroyed =>
      cases hs
      exact BitVec.sub_eq_add_neg ..
  | put result =>
      rw [Library.step] at hs
      split at hs
      · cases hs
        rw [Happening.adjusts]
        split
        · exact hzero
        · rfl
      · cases hs
  | delete count =>
      rw [Library.step] at hs
      split at hs
      · cases hs
        rw [Happening.adjusts]
        split
        · exact hzero
        · exact BitVec.sub_eq_add_neg ..
      · cases hs
  | get msg =>
      rw [Library.step] at hs
      split at hs
      · split at hs <;> cases hs <;> exact hzero
      · cases hs
  | lockTaken =>
      rw [Library.step] at hs
      split at hs
      · split at hs
        · cases hs
        · cases hs
          exact hzero
      · cases hs
  | answered count =>
      rw [Library.step] at hs
      split at hs
      · cases hs
        exact hzero
      · cases hs

/-! ## Network functions -/

/-- A network function: how many flows its tables have, and what an event leaves of it and tells the library;
nothing where the process is not left. -/
structure FlowTables (σ ε : Type) where
  flows : σ → Nat
  step : σ → ε → Option (σ × List Happening)

/-- The tables, and the count of the library. -/
structure Counted (σ : Type) where
  tables : σ
  flowsActive : Int

section Counting

variable {σ ε : Type} (nf : FlowTables σ ε)

/-- What happenings add. -/
def adjusted (happenings : List Happening) : Int := (happenings.map Happening.adjusts).sum

def FlowTables.countedStep (s : Counted σ) (event : ε) : Option (Counted σ) :=
  (nf.step s.tables event).map fun out => ⟨out.1, s.flowsActive + adjusted out.2⟩

/-- The count is that of the flows in the tables, so that it is not negative. -/
def FlowTables.Right (s : Counted σ) : Prop := s.flowsActive = nf.flows s.tables ∧ 0 ≤ s.flowsActive

/-- The count is right after each event of a run. -/
def FlowTables.AlwaysRight (s : Counted σ) (events : List ε) : Prop :=
  ∀ pre suf t, events = pre ++ suf → Machine.run nf.countedStep s pre = some t → nf.Right t

variable {nf}

theorem FlowTables.right_iff {s : Counted σ} : nf.Right s ↔ s.flowsActive = nf.flows s.tables := by
  constructor
  · exact And.left
  · intro h
    exact ⟨h, by omega⟩

/-- Where the events that change the tables by as much as the count are known, the count is right after each
event exactly if all events are of that kind. -/
theorem FlowTables.alwaysRight_iff {J : σ → Prop} {ok : σ → ε → Prop} {s : Counted σ} {s' : Counted σ}
    {events : List ε} (hJ : J s.tables)
    (hkeep : ∀ t event out, J t → nf.step t event = some out → J out.1)
    (h₀ : nf.Right s)
    (hstep : ∀ t event out, J t → nf.step t event = some out →
      ((nf.flows out.1 : Int) = nf.flows t + adjusted out.2 ↔ ok t event))
    (hr : Machine.run nf.countedStep s events = some s') :
    nf.AlwaysRight s events ↔ Machine.Along nf.countedStep (fun s event => ok s.tables event) s events := by
  refine Machine.always_iff_along_of (J := fun s => J s.tables) hJ ?_ h₀ ?_ hr
  · intro t event t' hJt hs
    obtain ⟨out, hout, rfl⟩ := Option.map_eq_some_iff.mp hs
    exact hkeep t.tables event out hJt hout
  · intro t event t' hJt hIt hs
    obtain ⟨out, hout, rfl⟩ := Option.map_eq_some_iff.mp hs
    rw [right_iff, ← hstep t.tables event out hJt hout, hIt.1]
    exact eq_comm

end Counting

end OFM.Shared
