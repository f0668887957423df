import OFM.Controller.SdmbnManager
import OFM.Lib.Machine

/-!
# Notifications of connections

When the notifications of the listeners follow the channels that are open, and the references of the
middleboxes are the newest ones of these.
-/

namespace OFM.Controller
open OFM.Lib

/-! ## Names of middleboxes -/

theorem toNat_digit {c : Char} {n : Nat} (hc : c ∈ Nat.toDigits 10 n) : 48 ≤ c.toNat ∧ c.toNat ≤ 57 := by
  have hdigit := Nat.isDigit_of_mem_toDigits (by decide) (by decide) hc
  simp only [Char.isDigit, Bool.and_eq_true, decide_eq_true_eq] at hdigit
  exact hdigit

theorem toNat_decimal {unit : UInt16} {n : Nat} (h : unit ∈ decimal n) : 48 ≤ unit.toNat := by
  obtain ⟨c, hc, rfl⟩ := List.mem_map.mp h
  obtain ⟨hlo, hhi⟩ := toNat_digit hc
  rw [Nat.toUInt16_eq, UInt16.toNat_ofNat', Nat.mod_eq_of_lt (by omega)]
  exact hlo

theorem decimal_inj {m n : Nat} : decimal m = decimal n ↔ m = n := by
  have hread : ∀ n, (decimal n).map (fun unit => Char.ofNat unit.toNat) = Nat.toDigits 10 n := by
    intro n
    rw [decimal, List.map_map]
    refine (List.map_congr_left fun c hc => ?_).trans (List.map_id _)
    obtain ⟨-, hhi⟩ := toNat_digit hc
    simp only [Function.comp_apply, Nat.toUInt16_eq, UInt16.toNat_ofNat', id_eq]
    rw [Nat.mod_eq_of_lt (by omega), Char.ofNat_toNat]
  constructor
  · intro h
    have hdigits : Nat.toDigits 10 m = Nat.toDigits 10 n := by rw [← hread m, h, hread n]
    rw [← Nat.ofDigitChars_ten_toDigits (n := m), hdigits, Nat.ofDigitChars_ten_toDigits]
  · intro h
    rw [h]

theorem not_mem_decimal {n : Nat} {unit : UInt16} (hunit : unit.toNat < 48) : unit ∉ decimal n :=
  fun h => absurd (toNat_decimal h) (by omega)

theorem dot_not_mem_decimalInt {n : Int} : (46 : UInt16) ∉ decimalInt n := by
  have hdot : (46 : UInt16) ∉ decimal n.natAbs := not_mem_decimal (by decide)
  rw [decimalInt]
  split
  · simp [hdot]
  · exact hdot

theorem decimalInt_inj {m n : Int} : decimalInt m = decimalInt n ↔ m = n := by
  have hsign : ∀ m n : Nat, decimal m ≠ 45 :: decimal n := by
    intro m n h
    have hmem : (45 : UInt16) ∈ decimal m := h ▸ List.mem_cons_self ..
    exact not_mem_decimal (by decide) hmem
  constructor
  · intro h
    rw [decimalInt, decimalInt] at h
    split_ifs at h
    · have habs := decimal_inj.mp (List.cons.inj h).2
      omega
    · exact absurd h.symm (hsign _ _)
    · exact absurd h (hsign _ _)
    · have habs := decimal_inj.mp h
      omega
  · intro h
    rw [h]

/-- Middleboxes have different ids: the pid is what follows the last dot. -/
theorem constructId_inj {host host' : JavaString} {pid pid' : Int} :
    constructId host pid = constructId host' pid' ↔ host = host' ∧ pid = pid' := by
  constructor
  · intro h
    rcases List.append_eq_append_iff.mp h with ⟨mid, hhost, hrest⟩ | ⟨mid, hhost, hrest⟩
    · cases mid with
      | nil => exact ⟨by simpa using hhost.symm, decimalInt_inj.mp (List.cons.inj hrest).2⟩
      | cons unit mid =>
          have hmem : (46 : UInt16) ∈ decimalInt pid := by
            rw [(List.cons.inj hrest).2]
            simp
          exact absurd hmem dot_not_mem_decimalInt
    · cases mid with
      | nil => exact ⟨by simpa using hhost, (decimalInt_inj.mp (List.cons.inj hrest).2).symm⟩
      | cons unit mid =>
          have hmem : (46 : UInt16) ∈ decimalInt pid' := by
            rw [(List.cons.inj hrest).2]
            simp
          exact absurd hmem dot_not_mem_decimalInt
  · rintro ⟨rfl, rfl⟩
    rfl

/-! ## Open channels -/

def ChannelKind.other : ChannelKind → ChannelKind
  | state => event
  | event => state

inductive ChannelEvent
  | connected (channel : BaseChannel)
  | disconnected (channel : BaseChannel)
  deriving DecidableEq, Repr

/-- The open channels, the newest one first. -/
def ChannelEvent.after (opened : List BaseChannel) : ChannelEvent → List BaseChannel
  | connected channel => channel :: opened.filter (· ≠ channel)
  | disconnected channel => opened.filter (· ≠ channel)

def ChannelEvent.handle (manager : SdmbnManager) : ChannelEvent → SdmbnManager × Option Notification
  | connected channel => manager.channelConnected channel
  | disconnected channel => manager.channelDisconnected channel

/-- The channel that was connected last among those of a middlebox that are open. -/
def newest (opened : List BaseChannel) (kind : ChannelKind) (host : JavaString) (pid : Int) :
    Option BaseChannel :=
  opened.find? fun channel => channel.kind = kind ∧ channel.host = host ∧ channel.pid = pid

def BothOpen (opened : List BaseChannel) (host : JavaString) (pid : Int) : Prop :=
  (newest opened .state host pid).isSome ∧ (newest opened .event host pid).isSome

instance (opened : List BaseChannel) (host : JavaString) (pid : Int) : Decidable (BothOpen opened host pid) :=
  inferInstanceAs (Decidable (_ ∧ _))

/-- What a middlebox refers to. -/
def SdmbnManager.reference (manager : SdmbnManager) (kind : ChannelKind) (host : JavaString) (pid : Int) :
    Option BaseChannel :=
  (manager.middleboxes (constructId host pid)).bind fun mb => mb.get kind

/-- The manager after an event, what the listeners were told, and which channels were and are open. -/
structure Observed where
  manager : SdmbnManager
  told : Option Notification
  before : List BaseChannel
  opened : List BaseChannel

namespace Observed

def start : Observed := ⟨.start, none, [], []⟩

def step (s : Observed) (event : ChannelEvent) : Option Observed :=
  some ⟨(event.handle s.manager).1, (event.handle s.manager).2, s.opened, event.after s.opened⟩

/-- The listeners were told of a middlebox exactly if both of its channels are open now and were not
before, or the other way round, and the references are to the newest channels. -/
structure Follows (s : Observed) : Prop where
  connected : ∀ host pid, s.told = some (.middleboxConnected host pid) ↔
    ¬ BothOpen s.before host pid ∧ BothOpen s.opened host pid
  disconnected : ∀ host pid, s.told = some (.middleboxDisconnected host pid) ↔
    BothOpen s.before host pid ∧ ¬ BothOpen s.opened host pid
  references : ∀ kind host pid, s.manager.reference kind host pid = newest s.opened kind host pid

/-- A SYN comes while not both channels of its middlebox are open; the channel that is disconnected is
the only open one of its kind, or no channel of the middlebox is open. -/
def Permitted (s : Observed) : ChannelEvent → Prop
  | .connected channel => ¬ BothOpen s.opened channel.host channel.pid
  | .disconnected channel =>
      (∀ other ∈ s.opened, other.kind = channel.kind → other.host = channel.host →
        other.pid = channel.pid → other = channel) ∧
      (channel ∈ s.opened ∨ ∀ kind, newest s.opened kind channel.host channel.pid = none)

end Observed

/-! ## References -/

section References

variable {manager : SdmbnManager} {channel : BaseChannel} {kind : ChannelKind} {host : JavaString}
  {pid : Int} {opened : List BaseChannel}

theorem get_set (mb : MiddleboxChannels) (value : Option BaseChannel) :
    (mb.set channel.kind value).get kind = if channel.kind = kind then value else mb.get kind := by
  cases channel.kind <;> cases kind <;> rfl

theorem get_obtainMiddlebox :
    (manager.obtainMiddlebox host pid).get kind = manager.reference kind host pid := by
  rw [SdmbnManager.obtainMiddlebox, SdmbnManager.reference]
  cases manager.middleboxes (constructId host pid) with
  | some mb => rfl
  | none => cases kind <;> rfl

theorem reference_put_self (mb : MiddleboxChannels) :
    (manager.put (constructId host pid) mb).reference kind host pid = mb.get kind := by
  simp [SdmbnManager.reference, SdmbnManager.put]

/-- One reference is set. -/
theorem reference_put (value : Option BaseChannel) :
    (manager.put (constructId channel.host channel.pid)
      ((manager.obtainMiddlebox channel.host channel.pid).set channel.kind value)).reference kind host pid =
    if channel.kind = kind ∧ channel.host = host ∧ channel.pid = pid then value
    else manager.reference kind host pid := by
  by_cases hid : host = channel.host ∧ pid = channel.pid
  · obtain ⟨rfl, rfl⟩ := hid
    simp only [SdmbnManager.reference, SdmbnManager.put, if_true, Option.bind_some, get_set, and_true]
    rw [get_obtainMiddlebox, SdmbnManager.reference]
  · have hne : ¬ (channel.kind = kind ∧ channel.host = host ∧ channel.pid = pid) :=
      fun h => hid ⟨h.2.1.symm, h.2.2.symm⟩
    rw [if_neg hne]
    simp only [SdmbnManager.reference, SdmbnManager.put]
    rw [if_neg fun h => hid (constructId_inj.mp h)]

/-- Other channels stay open. -/
theorem newest_filter (h : ¬ (channel.kind = kind ∧ channel.host = host ∧ channel.pid = pid)) :
    newest (opened.filter (· ≠ channel)) kind host pid = newest opened kind host pid := by
  rw [newest, newest, List.find?_filter]
  congr 1
  funext other
  by_cases hother : other = channel
  · subst hother
    simp [h]
  · simp [hother]

theorem newest_connected : newest (ChannelEvent.after opened (.connected channel)) kind host pid =
    if channel.kind = kind ∧ channel.host = host ∧ channel.pid = pid then some channel
    else newest opened kind host pid := by
  rw [ChannelEvent.after, newest, List.find?_cons]
  split_ifs with h
  · simp [h]
  · rw [decide_eq_false h]
    exact newest_filter h

/-- No channel of a kind is open any more exactly if there was no other one. -/
theorem newest_disconnected_eq_none :
    newest (opened.filter (· ≠ channel)) channel.kind channel.host channel.pid = none ↔
      ∀ other ∈ opened, other.kind = channel.kind → other.host = channel.host →
        other.pid = channel.pid → other = channel := by
  simp only [newest, List.find?_eq_none, List.mem_filter, decide_eq_true_eq]
  constructor
  · intro h other hother hk hh hp
    by_contra hne
    exact h other ⟨hother, hne⟩ ⟨hk, hh, hp⟩
  · rintro h other ⟨hother, hne⟩ ⟨hk, hh, hp⟩
    exact hne (h other hother hk hh hp)

end References

/-! ## Steps -/

namespace Observed

variable {s : Observed} {channel : BaseChannel}

/-- The other middleboxes have the channels they had. -/
theorem bothOpen_after {event : ChannelEvent} {opened : List BaseChannel} {host : JavaString} {pid : Int}
    (hevent : event = .connected channel ∨ event = .disconnected channel)
    (h : ¬ (channel.host = host ∧ channel.pid = pid)) :
    BothOpen (event.after opened) host pid ↔ BothOpen opened host pid := by
  have hne : ∀ kind, ¬ (channel.kind = kind ∧ channel.host = host ∧ channel.pid = pid) :=
    fun kind hc => h hc.2
  rcases hevent with rfl | rfl
  · simp only [BothOpen, newest_connected, if_neg (hne _)]
  · simp only [BothOpen, ChannelEvent.after, newest_filter (hne _)]

/-- A SYN closes no channel. -/
theorem bothOpen_connected {opened : List BaseChannel} {host : JavaString} {pid : Int}
    (h : BothOpen opened host pid) :
    BothOpen (ChannelEvent.after opened (.connected channel)) host pid := by
  simp only [BothOpen, newest_connected]
  constructor
  · split
    · rfl
    · exact h.1
  · split
    · rfl
    · exact h.2

/-- A SYN is permitted exactly if the listeners are told of a middlebox that has just got both channels. -/
theorem follows_connected (h : s.Follows) :
    Follows ⟨(s.manager.channelConnected channel).1, (s.manager.channelConnected channel).2, s.opened,
      ChannelEvent.after s.opened (.connected channel)⟩ ↔ s.Permitted (.connected channel) := by
  have href : ∀ kind host pid, (s.manager.channelConnected channel).1.reference kind host pid =
      newest (ChannelEvent.after s.opened (.connected channel)) kind host pid := by
    intro kind host pid
    rw [newest_connected, ← h.references kind host pid]
    exact reference_put (some channel)
  have htold : (s.manager.channelConnected channel).2 =
      if BothOpen (ChannelEvent.after s.opened (.connected channel)) channel.host channel.pid then
        some (.middleboxConnected channel.host channel.pid) else none := by
    simp only [BothOpen, ← href]
    simp only [SdmbnManager.channelConnected, reference_put_self, MiddleboxChannels.get,
      MiddleboxChannels.hasEventChannel, MiddleboxChannels.hasStateChannel, Bool.and_eq_true, and_comm]
  constructor
  · intro hfollows hboth
    have hafter : BothOpen (ChannelEvent.after s.opened (.connected channel)) channel.host channel.pid :=
      bothOpen_connected hboth
    have hconnected := hfollows.connected channel.host channel.pid
    simp only [htold, if_pos hafter, true_iff] at hconnected
    exact hconnected.1 hboth
  · intro hpermitted
    refine ⟨fun host pid => ?_, fun host pid => ?_, href⟩
    · dsimp only
      rw [htold]
      by_cases hself : channel.host = host ∧ channel.pid = pid
      · obtain ⟨rfl, rfl⟩ := hself
        simp [show ¬ BothOpen s.opened channel.host channel.pid from hpermitted]
      · rw [bothOpen_after (Or.inl rfl) hself]
        refine iff_of_false (fun htrue => hself ?_) (fun hfalse => hfalse.1 hfalse.2)
        split at htrue
        · cases htrue
          exact ⟨rfl, rfl⟩
        · cases htrue
    · dsimp only
      rw [htold]
      refine iff_of_false (fun htrue => ?_) (fun hfalse => hfalse.2 (bothOpen_connected hfalse.1))
      split at htrue <;> cases htrue

/-- A disconnection is permitted exactly if nothing is told but that a middlebox has just lost one of two
channels, and no reference to an open channel is lost. -/
theorem follows_disconnected (h : s.Follows) :
    Follows ⟨(s.manager.channelDisconnected channel).1, (s.manager.channelDisconnected channel).2, s.opened,
      ChannelEvent.after s.opened (.disconnected channel)⟩ ↔ s.Permitted (.disconnected channel) := by
  have href : ∀ kind host pid, (s.manager.channelDisconnected channel).1.reference kind host pid =
      if channel.kind = kind ∧ channel.host = host ∧ channel.pid = pid then none
      else newest s.opened kind host pid := by
    intro kind host pid
    rw [← h.references kind host pid]
    exact reference_put none
  have htold : (s.manager.channelDisconnected channel).2 =
      if (newest s.opened channel.kind.other channel.host channel.pid).isSome then
        some (.middleboxDisconnected channel.host channel.pid) else none := by
    rw [← h.references, ← get_obtainMiddlebox]
    simp only [SdmbnManager.channelDisconnected, MiddleboxChannels.hasEventChannel,
      MiddleboxChannels.hasStateChannel]
    cases channel.kind <;>
      simp only [MiddleboxChannels.set, MiddleboxChannels.get, ChannelKind.other, Option.isSome_none,
        Bool.not_false, Bool.and_true, Bool.false_and, Bool.true_and, Bool.or_false, Bool.false_or,
        Bool.and_false] <;> congr
  have hboth : ∀ opened, BothOpen opened channel.host channel.pid ↔
      (newest opened channel.kind channel.host channel.pid).isSome ∧
        (newest opened channel.kind.other channel.host channel.pid).isSome := by
    intro opened
    rw [BothOpen]
    cases channel.kind
    · rfl
    · exact and_comm
  constructor
  · intro hfollows
    have hlost := hfollows.references channel.kind channel.host channel.pid
    simp only [href, and_self, if_true] at hlost
    have honly := newest_disconnected_eq_none.mp hlost.symm
    refine ⟨honly, ?_⟩
    by_contra hstale
    push Not at hstale
    obtain ⟨hmem, kind, hkind⟩ := hstale
    -- No channel of its kind is open, so that one of the other kind is.
    have hnone : newest s.opened channel.kind channel.host channel.pid = none := by
      rw [newest, List.find?_eq_none]
      intro other hother hc
      simp only [decide_eq_true_eq] at hc
      exact hmem (honly other hother hc.1 hc.2.1 hc.2.2 ▸ hother)
    have hother : (newest s.opened channel.kind.other channel.host channel.pid).isSome := by
      have hcases : kind = channel.kind ∨ kind = channel.kind.other := by
        cases kind <;> cases channel.kind <;> simp [ChannelKind.other]
      rcases hcases with rfl | rfl
      · exact absurd hnone hkind
      · exact Option.isSome_iff_ne_none.mpr hkind
    have hdisconnected := hfollows.disconnected channel.host channel.pid
    simp only [htold, if_pos hother, true_iff, hboth, hnone] at hdisconnected
    simp at hdisconnected
  · rintro ⟨honly, hopen⟩
    have hnone : newest (ChannelEvent.after s.opened (.disconnected channel)) channel.kind channel.host
        channel.pid = none := newest_disconnected_eq_none.mpr honly
    have hafter : ¬ BothOpen (ChannelEvent.after s.opened (.disconnected channel)) channel.host
        channel.pid := by
      rw [hboth, hnone]
      simp
    have hothers : ∀ host pid, ¬ (channel.host = host ∧ channel.pid = pid) →
        (BothOpen (ChannelEvent.after s.opened (.disconnected channel)) host pid ↔
          BothOpen s.opened host pid) := fun host pid => bothOpen_after (Or.inr rfl)
    refine ⟨fun host pid => ?_, fun host pid => ?_, fun kind host pid => ?_⟩
    · dsimp only
      rw [htold]
      refine iff_of_false (fun htrue => ?_) (fun hfalse => hfalse.1 ?_)
      · split at htrue <;> cases htrue
      · by_cases hself : channel.host = host ∧ channel.pid = pid
        · obtain ⟨rfl, rfl⟩ := hself
          exact absurd hfalse.2 hafter
        · exact (hothers host pid hself).mp hfalse.2
    · dsimp only
      rw [htold]
      by_cases hself : channel.host = host ∧ channel.pid = pid
      · obtain ⟨rfl, rfl⟩ := hself
        rw [hboth s.opened]
        constructor
        · intro htrue
          split at htrue
          · rename_i hother
            refine ⟨⟨?_, hother⟩, hafter⟩
            rcases hopen with hmem | hall
            · exact List.find?_isSome.mpr ⟨channel, hmem, by simp⟩
            · rw [hall] at hother
              cases hother
          · cases htrue
        · rintro ⟨⟨-, hother⟩, -⟩
          rw [if_pos hother]
      · rw [hothers host pid hself]
        refine iff_of_false (fun htrue => hself ?_) (fun hfalse => hfalse.2 hfalse.1)
        split at htrue
        · cases htrue
          exact ⟨rfl, rfl⟩
        · cases htrue
    · dsimp only
      rw [href]
      split_ifs with hself
      · obtain ⟨rfl, rfl, rfl⟩ := hself
        exact hnone.symm
      · exact (newest_filter hself).symm

end Observed

/-! ## Runs -/

theorem Observed.follows_start : Observed.start.Follows := by
  refine ⟨fun host pid => ?_, fun host pid => ?_, fun kind host pid => rfl⟩
  · simp [start, BothOpen, newest]
  · simp [start, BothOpen, newest]

/-- Notifications and references follow the channels all along a run exactly if every event of it is
permitted. -/
theorem follows_iff (events : List ChannelEvent) :
    (∀ pre suf s, events = pre ++ suf → Machine.run Observed.step .start pre = some s → s.Follows) ↔
      Machine.Along Observed.step Observed.Permitted .start events := by
  have hstep : ∀ (s : Observed) (event : ChannelEvent) (s' : Observed), s.Follows →
      s.step event = some s' → (s'.Follows ↔ s.Permitted event) := by
    intro s event s' h hs
    obtain rfl := Option.some.inj hs
    cases event with
    | connected channel => exact Observed.follows_connected h
    | disconnected channel => exact Observed.follows_disconnected h
  have hrun : ∀ (s : Observed) (events : List ChannelEvent), ∃ s', Machine.run Observed.step s events = some s' := by
    intro s events
    induction events generalizing s with
    | nil => exact ⟨s, rfl⟩
    | cons event events ih => exact ih _
  obtain ⟨s', hs'⟩ := hrun .start events
  exact Machine.always_iff_along Observed.follows_start hstep hs'

/-! ## A new channel that comes before the old one has gone -/

def sampleState (connection : Nat) : BaseChannel := ⟨.state, [97], 1, connection⟩

/-- The new channel is lost with the old one. -/
theorem not_follows_stale : ¬ ∀ (events pre suf : List ChannelEvent) (s : Observed), events = pre ++ suf →
    Machine.run Observed.step .start pre = some s → s.Follows := by
  intro h
  have hfollows := h _ [.connected (sampleState 0), .connected (sampleState 1), .disconnected (sampleState 0)]
    [] _ rfl rfl
  have href := hfollows.references .state [97] 1
  revert href
  decide

end OFM.Controller
