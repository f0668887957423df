import OFM.Shared.Thresholds

/-!
# When gets are let through

What each step does to the lock and to the counts, and when exactly a run keeps to what is documented of
the thresholds.
-/

namespace OFM.Shared
open OFM.Lib

section Counts

variable {config : SDMBNConfig} {seen : Seen} {packets : Nat} {flows : Int}

@[simp] theorem Seen.counted_packets : (seen.counted config packets flows).packets = packets := rfl

@[simp] theorem Seen.counted_flows : (seen.counted config packets flows).flows = flows := rfl

theorem Seen.counted_released : (seen.counted config packets flows).released = true ↔
    seen.released = true ∨ config.Reached packets flows := by
  simp [Seen.counted]

/-- One more packet reaches a threshold only if it is the packet that the threshold waits for. -/
theorem reached_packet (h : ¬ config.Reached packets flows) :
    config.Reached (packets + 1) flows ↔
      0 < config.releaseGetPkts.toInt ∧ config.releaseGetPkts = BitVec.ofNat 32 packets + 1 := by
  simp only [SDMBNConfig.Reached, not_or, not_and, not_le] at h
  obtain ⟨hon, hpkts, hflows⟩ := h
  have hlt := @BitVec.toInt_lt 32 config.releaseGetPkts
  have hnat : 0 < config.releaseGetPkts.toInt →
      (config.releaseGetPkts.toInt = packets + 1 ↔ config.releaseGetPkts = BitVec.ofNat 32 packets + 1) := by
    intro hpos
    have hbound := hpkts hpos
    have hone : BitVec.ofNat 32 packets + 1 = BitVec.ofNat 32 (packets + 1) := by
      rw [BitVec.ofNat_add]
      rfl
    have hint : (BitVec.ofNat 32 (packets + 1)).toInt = packets + 1 := by
      rw [BitVec.toInt_ofNat', Int.bmod_eq_of_le] <;> omega
    rw [hone]
    constructor
    · exact fun h => BitVec.eq_of_toInt_eq (h.trans hint.symm)
    · exact fun h => (congrArg BitVec.toInt h).trans hint
  constructor
  · rintro (hoff | ⟨hpos, hle⟩ | ⟨hpos, hle⟩)
    · exact absurd hoff hon
    · have hbound := hpkts hpos
      exact ⟨hpos, (hnat hpos).mp (by omega)⟩
    · have hbound := hflows hpos
      omega
  · rintro ⟨hpos, he⟩
    have hint := (hnat hpos).mpr he
    exact Or.inr (Or.inl ⟨hpos, by omega⟩)

/-- One more flow reaches a threshold only if it is the flow threshold. -/
theorem reached_flow (h : ¬ config.Reached packets seen.flows) :
    config.Reached packets (seen.flows + 1) ↔ seen.ReachesFlows config := by
  simp only [SDMBNConfig.Reached, not_or] at h
  obtain ⟨hon, hpkts, -⟩ := h
  constructor
  · rintro (hoff | hreached | hreached)
    · exact absurd hoff hon
    · exact absurd hreached hpkts
    · exact hreached
  · exact fun hreached => Or.inr (Or.inr hreached)

/-- One flow less reaches nothing. -/
theorem not_reached_less (h : ¬ config.Reached packets flows) : ¬ config.Reached packets (flows - 1) := by
  simp only [SDMBNConfig.Reached, not_or, not_and, not_le] at h ⊢
  obtain ⟨hon, hpkts, hflows⟩ := h
  refine ⟨hon, hpkts, fun hpos => ?_⟩
  have hbound := hflows hpos
  omega

end Counts

/-! ## Steps -/

/-- The counter of packets is the number of packets, as long as nothing has been reached the numbers are below the
thresholds. -/
structure Moment.Linked (config : SDMBNConfig) (m : Moment) : Prop where
  packets : m.lib.pktsReceived = BitVec.ofNat 32 m.seen.packets
  below : m.seen.released = false → ¬ config.Reached m.seen.packets m.seen.flows

section Steps

variable {σ : Type} {config : SDMBNConfig} {getPerflow : Option (GetFunction σ)} {m m' : Moment}
  {a : Happening}

theorem linked_init (config : SDMBNConfig) : (Moment.init config).Linked config where
  packets := rfl
  below := by simp [Moment.init]

theorem works_init (config : SDMBNConfig) : (Moment.init config).Works where
  free_iff := by
    intro _
    have hreached : config.Reached 0 0 ↔ config.thresholds = false := by
      constructor
      · rintro (hoff | ⟨hpos, hle⟩ | ⟨hpos, hle⟩)
        · exact hoff
        · omega
        · omega
      · exact Or.inl
    simp [Moment.init, sdmbnInit, hreached]
  processed := by simp [Moment.init, StateThread.Getting]
  held := by simp [Moment.init, StateThread.Getting]

/-- What a count leaves below the thresholds. -/
theorem counted_below {seen : Seen} {packets : Nat} {flows : Int}
    (h : (seen.counted config packets flows).released = false) : ¬ config.Reached packets flows := by
  intro hreached
  rw [Seen.counted_released.mpr (Or.inr hreached)] at h
  cases h

/-- A packet unlocks the lock if the counters say so, and does nothing else to it. -/
theorem sdmbnNotifyPacketReceived_eq (lib : Library) : sdmbnNotifyPacketReceived config lib =
    { lib with
      pktsReceived := lib.pktsReceived + 1
      lock := if lib.Hit config then false else lib.lock } := by
  by_cases hon : config.thresholds = true
  · simp only [sdmbnNotifyPacketReceived, if_pos hon]
    by_cases hpkts : config.releaseGetPkts = lib.pktsReceived + 1
    · have hhit : lib.Hit config := ⟨hon, Or.inl hpkts⟩
      rw [if_pos hpkts, if_pos hhit]
    · by_cases hflows : config.releaseGetFlows = lib.flowsActive
      · have hhit : lib.Hit config := ⟨hon, Or.inr hflows⟩
        rw [if_neg hpkts, if_pos hflows, if_pos hhit]
      · have hhit : ¬ lib.Hit config := fun h => h.2.elim hpkts hflows
        rw [if_neg hpkts, if_neg hflows, if_neg hhit]
  · have hhit : ¬ lib.Hit config := fun h => hon h.1
    simp only [sdmbnNotifyPacketReceived, if_neg hon, if_neg hhit]

theorem linked_step (hlink : m.Linked config) (hstep : m.step config getPerflow a = some m') :
    m'.Linked config := by
  obtain ⟨lib, hlib, rfl⟩ := Option.map_eq_some_iff.mp hstep
  obtain ⟨hpackets, hbelow⟩ := hlink
  cases a with
  | packetReceived =>
      cases hlib
      refine ⟨?_, counted_below⟩
      rw [sdmbnNotifyPacketReceived_eq, hpackets]
      exact (BitVec.ofNat_add _ _).symm
  | flowCreated => cases hlib; exact ⟨hpackets, counted_below⟩
  | flowDestroyed => cases hlib; exact ⟨hpackets, counted_below⟩
  | put result =>
      simp only [Library.step] at hlib
      split at hlib
      · cases hlib
        by_cases hr : result < 0
        · simp only [Seen.step, if_pos hr]
          exact ⟨hpackets, hbelow⟩
        · simp only [Seen.step, if_neg hr]
          exact ⟨hpackets, counted_below⟩
      · cases hlib
  | delete count =>
      simp only [Library.step] at hlib
      split at hlib
      · cases hlib
        by_cases hc : count < 0
        · simp only [Seen.step, if_pos hc]
          exact ⟨hpackets, hbelow⟩
        · simp only [Seen.step, if_neg hc]
          exact ⟨hpackets, counted_below⟩
      · cases hlib
  | get msg =>
      simp only [Library.step] at hlib
      split at hlib
      · split at hlib <;> cases hlib <;> exact ⟨hpackets, hbelow⟩
      · cases hlib
  | lockTaken =>
      simp only [Library.step] at hlib
      split at hlib
      · split at hlib
        · cases hlib
        · cases hlib; exact ⟨hpackets, hbelow⟩
      · cases hlib
  | answered count =>
      simp only [Library.step] at hlib
      split at hlib
      · cases hlib; exact ⟨hpackets, hbelow⟩
      · cases hlib

/-- A step that leaves the lock and the thread alone, and only counts. -/
theorem works_counted_iff (hworks : m.Works) (lib : Library) {seen : Seen} (hlock : lib.lock = m.lib.lock)
    (hthread : lib.thread = m.lib.thread) {reached : Prop}
    (hseen : seen.released = true ↔ m.seen.released = true ∨ reached) :
    Moment.Works ⟨lib, seen⟩ ↔ (m.seen.released = false → ¬ reached) := by
  cases hr : m.seen.released with
  | true =>
      have hkeep : seen.released = true := hseen.mpr (Or.inl hr)
      refine iff_of_true ⟨fun hg => ?_, fun _ => hkeep, fun hg => ?_⟩ (fun h => nomatch h)
      · rw [hthread] at hg
        rw [hlock, hworks.free_iff hg, hr, hkeep]
      · rw [hthread] at hg
        exact hlock.trans (hworks.held hg)
  | false =>
      have hg : ¬ m.lib.thread.Getting := fun hg => by
        rw [hworks.processed hg] at hr
        cases hr
      have hl : m.lib.lock ≠ false := fun hl => by
        rw [(hworks.free_iff hg).mp hl] at hr
        cases hr
      constructor
      · intro hworks' _ hreached
        refine hl (hlock ▸ (hworks'.free_iff ?_).mpr (hseen.mpr (Or.inr hreached)))
        rwa [hthread]
      · intro hnot
        have hkeep : seen.released ≠ true := fun hk => by
          rcases hseen.mp hk with h | h
          · rw [hr] at h
            cases h
          · exact hnot rfl h
        refine ⟨fun _ => ?_, fun hg' => ?_, fun hg' => ?_⟩
        · rw [hlock]
          exact iff_of_false hl hkeep
        · exact absurd (hthread ▸ hg') hg
        · exact absurd (hthread ▸ hg') hg

/-- A packet that is received. -/
theorem works_packet_iff (hworks : m.Works) (hlink : m.Linked config) :
    Moment.Works ⟨sdmbnNotifyPacketReceived config m.lib, m.seen.step config .packetReceived⟩ ↔
      m.Safe config .packetReceived := by
  have hreached : m.seen.released = false → (config.Reached (m.seen.packets + 1) m.seen.flows ↔
      0 < config.releaseGetPkts.toInt ∧ config.releaseGetPkts = m.lib.pktsReceived + 1) := by
    intro hr
    rw [hlink.packets]
    exact reached_packet (hlink.below hr)
  have hcounted : (m.seen.step config .packetReceived).released = true ↔
      m.seen.released = true ∨ config.Reached (m.seen.packets + 1) m.seen.flows := Seen.counted_released
  rw [sdmbnNotifyPacketReceived_eq]
  by_cases hhit : m.lib.Hit config
  · rw [if_pos hhit]
    constructor
    · intro hworks' _
      have hg : ¬ m.lib.thread.Getting := fun hg => nomatch hworks'.held hg
      refine ⟨hg, fun hr => (hreached hr).mp ?_⟩
      have hreleased := (hworks'.free_iff hg).mp rfl
      rcases hcounted.mp hreleased with h | h
      · rw [hr] at h
        cases h
      · exact h
    · intro hsafe
      obtain ⟨hg, hpacket⟩ := hsafe hhit
      have hreleased : (m.seen.step config .packetReceived).released = true := by
        refine hcounted.mpr ?_
        cases hr : m.seen.released with
        | true => exact Or.inl rfl
        | false => exact Or.inr ((hreached hr).mpr (hpacket hr))
      exact ⟨fun _ => iff_of_true rfl hreleased, fun _ => hreleased, fun hg' => absurd hg' hg⟩
  · rw [if_neg hhit]
    refine iff_of_true ((works_counted_iff hworks _ ?_ ?_ hcounted).mpr ?_) fun h => absurd h hhit
    · rfl
    · rfl
    intro hr h
    have hon : config.thresholds = true := by
      cases ht : config.thresholds with
      | true => rfl
      | false => exact absurd (Or.inl ht) (hlink.below hr)
    exact hhit ⟨hon, Or.inl ((hreached hr).mp h).2⟩

/-- From a moment at which the lock works, a step leads to another exactly if it is safe. -/
theorem works_step_iff (hworks : m.Works) (hlink : m.Linked config)
    (hstep : m.step config getPerflow a = some m') : m'.Works ↔ m.Safe config a := by
  obtain ⟨lib, hlib, rfl⟩ := Option.map_eq_some_iff.mp hstep
  have hsame : Moment.Works ⟨m.lib, m.seen⟩ := hworks
  have hflow := works_counted_iff hworks (sdmbnNotifyFlowCreated m.lib) rfl rfl
    (@Seen.counted_released config m.seen m.seen.packets (m.seen.flows + 1))
  have hless := works_counted_iff hworks (sdmbnNotifyFlowDestroyed m.lib) rfl rfl
    (@Seen.counted_released config m.seen m.seen.packets (m.seen.flows - 1))
  have hmore : (m.seen.released = false → ¬ config.Reached m.seen.packets (m.seen.flows + 1)) ↔
      (m.seen.released = false → ¬ m.seen.ReachesFlows config) :=
    forall_congr' fun hr => not_congr (reached_flow (hlink.below hr))
  cases a with
  | packetReceived => cases hlib; exact works_packet_iff hworks hlink
  | flowCreated => cases hlib; exact hflow.trans hmore
  | flowDestroyed =>
      cases hlib
      exact iff_of_true (hless.mpr fun hr => not_reached_less (hlink.below hr)) trivial
  | put result =>
      simp only [Library.step] at hlib
      split at hlib
      · cases hlib
        by_cases hr : result < 0
        · simp only [Seen.step, if_pos hr, Moment.Safe]
          exact iff_of_true hsame fun h => absurd h (by omega)
        · simp only [Seen.step, if_neg hr, Moment.Safe]
          exact hflow.trans (hmore.trans (by simp [not_lt.mp hr]))
      · cases hlib
  | delete count =>
      simp only [Library.step] at hlib
      split at hlib
      · cases hlib
        by_cases hc : count < 0
        · simp only [Seen.step, if_pos hc]
          exact iff_of_true hsame trivial
        · simp only [Seen.step, if_neg hc]
          exact iff_of_true (hless.mpr fun hr => not_reached_less (hlink.below hr)) trivial
      · cases hlib
  | get msg =>
      simp only [Library.step] at hlib
      split at hlib
      · rename_i hidle
        have hg : ¬ m.lib.thread.Getting := by simp [hidle, StateThread.Getting]
        split at hlib
        · cases hlib; exact iff_of_true hsame trivial
        · cases hlib
          refine iff_of_true ⟨fun _ => hworks.free_iff hg, ?_, ?_⟩ trivial
          · rintro ⟨id, h⟩
            cases h
          · rintro ⟨id, h⟩
            cases h
      · cases hlib
  | lockTaken =>
      simp only [Library.step] at hlib
      split at hlib
      · rename_i id hwait
        have hg : ¬ m.lib.thread.Getting := by simp [hwait, StateThread.Getting]
        split at hlib
        · cases hlib
        · rename_i hlock
          cases hlib
          have hr := (hworks.free_iff hg).mp (Bool.not_eq_true _ ▸ hlock)
          exact iff_of_true ⟨fun h => absurd ⟨id, rfl⟩ h, fun _ => hr, fun _ => rfl⟩ trivial
      · cases hlib
  | answered count =>
      simp only [Library.step] at hlib
      split at hlib
      · rename_i id hget
        cases hlib
        have hr := hworks.processed ⟨id, hget⟩
        have hlock : (closeGet id count).2.1 = false ↔ 0 ≤ count := by
          unfold closeGet
          split
          · simp; omega
          · simp; omega
        constructor
        · intro hworks'
          refine hlock.mp ((hworks'.free_iff ?_).mpr hr)
          rintro ⟨_, h⟩
          cases h
        · intro hcount
          refine ⟨fun _ => iff_of_true (hlock.mpr hcount) hr, ?_, ?_⟩
          · rintro ⟨_, h⟩
            cases h
          · rintro ⟨_, h⟩
            cases h
      · cases hlib

end Steps

/-! ## Runs -/

/-- Over every run, the lock works as documented at every moment if and only if every step is safe. -/
theorem works_iff_safe {σ : Type} (config : SDMBNConfig) (getPerflow : Option (GetFunction σ))
    (as : List Happening) (m : Moment)
    (hr : Machine.run (Moment.step config getPerflow) (.init config) as = some m) :
    (∀ pre suf t, as = pre ++ suf → Machine.run (Moment.step config getPerflow) (.init config) pre = some t →
      t.Works) ↔
    Machine.Along (Moment.step config getPerflow) (Moment.Safe config) (.init config) as := by
  have hlinked : ∀ pre t, Machine.run (Moment.step config getPerflow) (.init config) pre = some t →
      t.Linked config :=
    fun pre t ht => Machine.run_invariant' (linked_init config) (fun s a s' => linked_step) ht
  have hstep : ∀ t a t', (t.Works ∧ t.Linked config) → Moment.step config getPerflow t a = some t' →
      (t'.Works ∧ t'.Linked config ↔ t.Safe config a) := by
    rintro t a t' ⟨hworks, hlink⟩ hs
    rw [works_step_iff hworks hlink hs, and_iff_left (linked_step hlink hs)]
  rw [← Machine.always_iff_along ⟨works_init config, linked_init config⟩ hstep hr]
  constructor
  · exact fun h pre suf t he ht => ⟨h pre suf t he ht, hlinked pre t ht⟩
  · exact fun h pre suf t he ht => (h pre suf t he ht).1

/-- Gets wait for one packet. -/
def onePacket : SDMBNConfig := ⟨1, -1, -1⟩

/-- A middlebox with three chunks. -/
def threeChunks : Option (GetFunction Unit) := some fun _ _ _ _ s => (s, 3)

/-- A get that waits for the packet and is carried out. -/
def releasedGet : List Happening := [.get (anyGet 7), .packetReceived, .lockTaken, .answered 3]

theorem works_iff_safe_onePacket :
    (∀ pre suf t, releasedGet = pre ++ suf →
      Machine.run (Moment.step onePacket threeChunks) (.init onePacket) pre = some t → t.Works) ↔
    Machine.Along (Moment.step onePacket threeChunks) (Moment.Safe onePacket) (.init onePacket) releasedGet :=
  works_iff_safe onePacket threeChunks releasedGet ⟨⟨1, 0, false, .idle⟩, ⟨1, 0, true⟩⟩ rfl

/-- Gets wait for one flow. -/
def oneFlow : SDMBNConfig := ⟨-1, 1, -1⟩

/-- Two flows are created before the next packet arrives, and no get is ever carried out. -/
theorem not_works_twoFlows :
    ¬ ∀ pre suf t, [Happening.flowCreated, .flowCreated, .packetReceived, .get (anyGet 7)] = pre ++ suf →
      Machine.run (Moment.step oneFlow threeChunks) (.init oneFlow) pre = some t →
        t.Works := by
  intro h
  have hworks := h _ [] _ (List.append_nil _).symm rfl
  have hfree := hworks.free_iff (by rintro ⟨id, hid⟩; cases hid)
  exact absurd (hfree.mpr rfl) (by decide)

end OFM.Shared
