import OFM.Shared.Release
import OFM.Shared.Theorems.PacketPath

/-!
# Packets at the hand-over

What an arrival does to the buffer that is being emptied, and when exactly no packet is lost or overtaken.
-/

namespace OFM.Shared
open OFM.Lib

/-! ## A packet of the filter -/

section Arrival

variable {u : Undefined} {filters : List EventFilter} {filter : EventFilter} {pkt : Memory}
  {context : ProcessContext} {i : Nat}

theorem matchIdx_eq_some_iff (ht : filters[i]? = some filter) : matchIdx u filters pkt = some i ↔
    matchIdx u (filters.take i) pkt = none ∧
      matchesKey u filter.key (buildPacketKey pkt u.pKey) = true := by
  obtain ⟨hi, rfl⟩ := List.getElem?_eq_some_iff.mp ht
  simp only [matchIdx, List.findIdx?_eq_some_iff_getElem, List.findIdx?_eq_none_iff]
  constructor
  · rintro ⟨_, hp, hbefore⟩
    refine ⟨fun x hx => ?_, hp⟩
    obtain ⟨j, hj, rfl⟩ := List.mem_take_iff_getElem.mp hx
    simpa using hbefore j (by omega)
  · rintro ⟨hbefore, hp⟩
    refine ⟨hi, hp, fun j hj => ?_⟩
    simpa using hbefore _ (List.mem_take_iff_getElem.mpr ⟨j, by omega, rfl⟩)

/-- The filter keeps a packet unless it goes past buffers. -/
theorem preprocess_kept (ht : filters[i]? = some filter) (ha : filter.action = .buffer)
    (hm : matchIdx u filters pkt = some i) (hp : ¬ Release.GoesPast pkt context) :
    (sdmbnPreprocessPacket u filters pkt context).1 =
        filters.modify i (fun filter => { filter with buffer := filter.buffer ++ [pkt] }) ∧
      (sdmbnPreprocessPacket u filters pkt context).2.1.stop ≠ 0 := by
  have hf : matchesFilter u filters pkt = some filter := by
    rw [matchesFilter_eq_getElem?, hm, Option.bind_some, ht]
  simp only [Release.GoesPast, not_or, not_not, Bool.not_eq_true] at hp
  obtain ⟨hflag, hinjected⟩ := hp
  constructor
  · rw [preprocess_filters, keeper, hf, Option.bind_some, if_pos ⟨ha, hflag, hinjected⟩, hm]
    rfl
  · rw [preprocess_buffer hf ha (ha ▸ hflag) hinjected]
    simp

/-- A packet that goes past buffers is let through. -/
theorem preprocess_past (ht : filters[i]? = some filter) (ha : filter.action = .buffer)
    (hm : matchIdx u filters pkt = some i) (hp : Release.GoesPast pkt context) :
    (sdmbnPreprocessPacket u filters pkt context).1 = filters ∧
      (sdmbnPreprocessPacket u filters pkt context).2.1.stop = 0 := by
  have hf : matchesFilter u filters pkt = some filter := by
    rw [matchesFilter_eq_getElem?, hm, Option.bind_some, ht]
  cases hflag : passes filter.action pkt with
  | true =>
      rw [preprocess_passes hf hflag]
      exact ⟨rfl, rfl⟩
  | false =>
      have hi : context.injected ≠ 0 := by
        rcases hp with h | h
        · rw [ha, h] at hflag
          cases hflag
        · exact h
      rw [preprocess_injected hf ha hflag hi]
      exact ⟨rfl, rfl⟩

/-- A packet of another filter leaves this one as it is. -/
theorem preprocess_other (hm : matchIdx u filters pkt ≠ some i) :
    (sdmbnPreprocessPacket u filters pkt context).1[i]? = filters[i]? := by
  rw [preprocess_filters]
  cases hk : keeper u filters pkt context with
  | none => rfl
  | some j =>
      have hj : j ≠ i := by
        rintro rfl
        rw [keeper, Option.bind_eq_some_iff] at hk
        obtain ⟨f, -, hk⟩ := hk
        split at hk
        · exact hm hk
        · cases hk
      simp [hj]

end Arrival

namespace Release

/-! ## The buffer -/

/-- The filter is in the list, with the packets that wait, and there are some when one is being released. -/
structure Sound (r : Release) : Prop where
  target : r.remover ≠ .done → ∃ filter, r.filters[r.index]? = some filter ∧ filter.key = r.key ∧
    filter.action = .buffer ∧ r.waiting.map Prod.snd = filter.buffer
  busy : r.remover = .releasing ∨ r.remover = .unchaining → r.waiting ≠ []

/-- Nothing has been lost, doubled or overtaken. -/
structure InOrder (r : Release) : Prop extends Sound r where
  order : r.passed ++ r.pending = r.stopped
  overtook : r.overtook = []
  empty : r.remover = .unlinking ∨ r.remover = .done → r.waiting = []

/-- A packet has been overtaken, or one that was stopped will not be processed any more. -/
def Spoilt (r : Release) : Prop :=
  r.overtook ≠ [] ∨ (r.remover = .unlinking ∨ r.remover = .done) ∧ r.passed.length < r.stopped.length

section Lemmas

variable {r : Release} {u : Undefined} {pkt : Memory} {context : ProcessContext}

theorem bufferAt_eq {filter : EventFilter} (ht : r.filters[r.index]? = some filter) :
    bufferAt r.filters r.index = filter.buffer := by
  rw [bufferAt, ht]
  rfl

theorem pending_unchaining (hr : r.remover = .unchaining) : r.pending = r.waiting.tail := if_pos hr

theorem pending_other (hr : r.remover ≠ .unchaining) : r.pending = r.waiting := if_neg hr

/-- A packet that is added to the buffer is processed after the others. -/
theorem Sound.pending_append (h : r.Sound) {filters : List EventFilter} {next : Nat}
    {stopped ps : List (Nat × Memory)} :
    ({ r with filters, next, stopped, waiting := r.waiting ++ ps } : Release).pending = r.pending ++ ps := by
  by_cases hr : r.remover = .unchaining
  · simp only [pending, hr, if_true]
    exact List.tail_append_of_ne_nil (h.busy (Or.inr hr))
  · simp only [pending, hr, if_false]

theorem InOrder.passed_length (h : r.InOrder) : r.passed.length < r.stopped.length ↔ r.pending ≠ [] := by
  rw [← h.order, List.length_append]
  cases r.pending <;> simp

theorem belongs_iff {filter : EventFilter} (ht : r.filters[r.index]? = some filter) (hk : filter.key = r.key) :
    r.Belongs u pkt ↔ matchIdx u r.filters pkt = some r.index := by
  rw [matchIdx_eq_some_iff ht, hk]
  rfl

/-! ## Arrivals -/

/-- A packet that is none of the filter's. -/
theorem arrive_other (hb : ¬ r.Belongs u pkt) : r.arrive u pkt context =
    { r with filters := (sdmbnPreprocessPacket u r.filters pkt context).1, next := r.next + 1 } := by
  simp [arrive, hb]

/-- A packet that comes when the filter has been removed. -/
theorem arrive_done (hd : r.remover = .done) (hle : ¬ r.passed.length < r.stopped.length) :
    r.arrive u pkt context =
      { r with filters := (sdmbnPreprocessPacket u r.filters pkt context).1, next := r.next + 1 } := by
  simp [arrive, hd, hle]

/-- A packet that is stopped. -/
theorem arrive_kept (h : r.Sound) (hd : r.remover ≠ .done) (hb : r.Belongs u pkt)
    (hp : ¬ GoesPast pkt context) : r.arrive u pkt context =
      { r with
        filters := r.filters.modify r.index fun filter => { filter with buffer := filter.buffer ++ [pkt] }
        next := r.next + 1
        waiting := r.waiting ++ [(r.next, pkt)]
        stopped := r.stopped ++ [(r.next, pkt)] } := by
  obtain ⟨filter, ht, hk, ha, -⟩ := h.target hd
  obtain ⟨hfilters, hstop⟩ := preprocess_kept ht ha ((belongs_iff ht hk).mp hb) hp
  have hkept : (sdmbnPreprocessPacket u r.filters pkt context).2.1.stop ≠ 0 ∧ r.remover ≠ .done ∧
      r.Belongs u pkt := ⟨hstop, hd, hb⟩
  have hover : ¬ ((sdmbnPreprocessPacket u r.filters pkt context).2.1.stop = 0 ∧ r.Belongs u pkt ∧
      r.passed.length < r.stopped.length) := fun h => hstop h.1
  simp only [arrive, hfilters, if_pos hkept, if_neg hover]

/-- A packet that goes past the buffer. -/
theorem arrive_past (h : r.Sound) (hd : r.remover ≠ .done) (hb : r.Belongs u pkt)
    (hp : GoesPast pkt context) : r.arrive u pkt context =
      { r with
        next := r.next + 1
        overtook := if r.passed.length < r.stopped.length then r.overtook ++ [r.next] else r.overtook } := by
  obtain ⟨filter, ht, hk, ha, -⟩ := h.target hd
  obtain ⟨hfilters, hstop⟩ := preprocess_past ht ha ((belongs_iff ht hk).mp hb) hp
  simp [arrive, hfilters, hstop, hb]

theorem sound_arrive (h : r.Sound) (u : Undefined) (pkt : Memory) (context : ProcessContext) :
    (r.arrive u pkt context).Sound := by
  have hremover : (r.arrive u pkt context).remover = r.remover := rfl
  by_cases hd : r.remover = .done
  · refine ⟨fun hr => absurd hd hr, ?_⟩
    rw [hremover, hd]
    rintro (hr | hr) <;> cases hr
  · obtain ⟨filter, ht, hk, ha, hw⟩ := h.target hd
    by_cases hb : r.Belongs u pkt
    · by_cases hp : GoesPast pkt context
      · rw [arrive_past h hd hb hp]
        exact ⟨h.target, h.busy⟩
      · rw [arrive_kept h hd hb hp]
        refine ⟨fun _ => ⟨{ filter with buffer := filter.buffer ++ [pkt] }, ?_, hk, ha, ?_⟩, fun _ => ?_⟩
        · simp [ht]
        · simp [hw]
        · simp
    · rw [arrive_other hb]
      refine ⟨fun _ => ⟨filter, ?_, hk, ha, hw⟩, h.busy⟩
      have hm : matchIdx u r.filters pkt ≠ some r.index := fun hm => hb ((belongs_iff ht hk).mpr hm)
      exact (preprocess_other hm).trans ht

/-- Nothing but the buffers and the next number has changed. -/
theorem InOrder.of_eq {filters : List EventFilter} {next : Nat} (h : r.InOrder)
    (hs : ({ r with filters, next } : Release).Sound) : ({ r with filters, next } : Release).InOrder :=
  ⟨hs, h.order, h.overtook, h.empty⟩

/-- A safe arrival keeps the order. -/
theorem inOrder_arrive (h : r.InOrder) (hsafe : r.Safe (.arrive u pkt context)) :
    (r.arrive u pkt context).InOrder := by
  have hsound := sound_arrive h.toSound u pkt context
  by_cases hb : r.Belongs u pkt
  · by_cases hd : r.remover = .done
    · have hle : ¬ r.passed.length < r.stopped.length := by
        rw [h.passed_length, pending_other (by simp [hd]), h.empty (Or.inr hd)]
        simp
      rw [arrive_done hd hle] at hsound ⊢
      exact h.of_eq hsound
    · have hsafe := hsafe hb
      by_cases hp : GoesPast pkt context
      · have hpending : r.pending = [] := by
          cases hr : r.remover with
          | unlinking => rw [pending_other (by simp [hr]), h.empty (Or.inl hr)]
          | done => exact absurd hr hd
          | testing => simp only [hr] at hsafe; exact hsafe hp
          | releasing => simp only [hr] at hsafe; exact hsafe hp
          | unchaining => simp only [hr] at hsafe; exact hsafe hp
        have hle : ¬ r.passed.length < r.stopped.length := by
          rw [h.passed_length, hpending]
          simp
        rw [arrive_past h.toSound hd hb hp, if_neg hle] at hsound ⊢
        exact h.of_eq hsound
      · have hu : r.remover ≠ .unlinking := fun hr => by
          simp only [hr] at hsafe
          exact hp hsafe
        rw [arrive_kept h.toSound hd hb hp] at hsound ⊢
        refine ⟨hsound, ?_, h.overtook, fun hr => absurd hr (by simp [hu, hd])⟩
        rw [h.pending_append, ← h.order, List.append_assoc]
  · rw [arrive_other hb] at hsound ⊢
    exact h.of_eq hsound

/-- Any other arrival is overtaken or lost. -/
theorem spoilt_arrive (h : r.InOrder) (hbad : ¬ r.Safe (.arrive u pkt context)) :
    (r.arrive u pkt context).Spoilt := by
  simp only [Safe, Classical.not_imp] at hbad
  obtain ⟨hb, hbad⟩ := hbad
  have hpast : r.remover ≠ .done → GoesPast pkt context → r.pending ≠ [] →
      (r.arrive u pkt context).Spoilt := by
    intro hd hp hne
    rw [arrive_past h.toSound hd hb hp, if_pos (h.passed_length.mpr hne)]
    exact Or.inl (by simp)
  cases hr : r.remover with
  | done => simp [hr] at hbad
  | unlinking =>
      simp only [hr] at hbad
      rw [arrive_kept h.toSound (by simp [hr]) hb hbad]
      refine Or.inr ⟨Or.inl hr, ?_⟩
      rw [← h.order]
      simp
  | testing =>
      simp only [hr, Classical.not_imp] at hbad
      exact hpast (by simp [hr]) hbad.1 hbad.2
  | releasing =>
      simp only [hr, Classical.not_imp] at hbad
      exact hpast (by simp [hr]) hbad.1 hbad.2
  | unchaining =>
      simp only [hr, Classical.not_imp] at hbad
      exact hpast (by simp [hr]) hbad.1 hbad.2

/-! ## The function goes on -/

theorem sound_test (ht : ∃ filter, r.filters[r.index]? = some filter ∧ filter.key = r.key ∧
    filter.action = .buffer ∧ r.waiting.map Prod.snd = filter.buffer) : r.test.Sound := by
  refine ⟨fun _ => ht, fun hr hw => ?_⟩
  have hw : r.waiting = [] := hw
  obtain ⟨filter, ht, -, -, hbuffer⟩ := ht
  have hnil : bufferAt r.filters r.index = [] := by
    rw [bufferAt_eq ht, ← hbuffer, hw]
    rfl
  simp [test, hnil] at hr

theorem test_pending : r.test.pending = r.waiting := by
  rw [pending, if_neg]
  · rfl
  · simp only [test]
    split <;> simp

theorem test_empty (ht : ∃ filter, r.filters[r.index]? = some filter ∧ filter.key = r.key ∧
    filter.action = .buffer ∧ r.waiting.map Prod.snd = filter.buffer)
    (hr : r.test.remover = .unlinking ∨ r.test.remover = .done) : r.waiting = [] := by
  obtain ⟨filter, ht, -, -, hbuffer⟩ := ht
  by_cases hnil : bufferAt r.filters r.index = []
  · rw [bufferAt_eq ht, ← hbuffer, List.map_eq_nil_iff] at hnil
    exact hnil
  · simp [test, hnil] at hr

theorem inOrder_goOn {r' : Release} (h : r.InOrder) (hs : r.goOn = some r') : r'.InOrder := by
  cases hr : r.remover with
  | testing =>
      simp only [goOn, hr] at hs
      cases hs
      have ht := h.target (by simp [hr])
      refine ⟨sound_test ht, ?_, h.overtook, test_empty ht⟩
      have horder := h.order
      rw [pending_other (by simp [hr])] at horder
      rw [test_pending]
      exact horder
  | releasing =>
      simp only [goOn, hr] at hs
      cases hs
      refine ⟨⟨fun _ => h.target (by simp [hr]), fun _ => h.busy (Or.inl hr)⟩, ?_, h.overtook, by simp⟩
      have horder := h.order
      rw [pending_other (by simp [hr])] at horder
      rw [pending_unchaining rfl, ← horder, List.append_assoc]
      cases r.waiting <;> rfl
  | unchaining =>
      simp only [goOn, hr] at hs
      cases hs
      have ht : ∃ filter, (dequeue r.filters r.index)[r.index]? = some filter ∧ filter.key = r.key ∧
          filter.action = .buffer ∧ r.waiting.tail.map Prod.snd = filter.buffer := by
        obtain ⟨filter, ht, hk, ha, hw⟩ := h.target (by simp [hr])
        exact ⟨{ filter with buffer := filter.buffer.tail }, by simp [dequeue, ht], hk, ha,
          by rw [← hw, List.map_tail]⟩
      refine ⟨sound_test ht, ?_, h.overtook, test_empty ht⟩
      have horder := h.order
      rw [pending_unchaining hr] at horder
      rw [test_pending]
      exact horder
  | unlinking =>
      simp only [goOn, hr] at hs
      cases hs
      have hempty := h.empty (Or.inl hr)
      have horder := h.order
      rw [pending_other (by simp [hr])] at horder
      refine ⟨⟨fun hd => absurd rfl hd, by simp⟩, ?_, h.overtook, fun _ => hempty⟩
      rw [pending_other]
      · exact horder
      · intro hu
        cases hu
  | done =>
      simp only [goOn, hr] at hs
      cases hs

end Lemmas

/-! ## Runs -/

section Runs

variable {r r' : Release} {a : ReleaseStep}

theorem inOrder_step (h : r.InOrder) (hsafe : r.Safe a) (hs : r.step a = some r') : r'.InOrder := by
  cases a with
  | arrive u pkt context => cases hs; exact inOrder_arrive h hsafe
  | goOn => exact inOrder_goOn h hs

theorem spoilt_step (h : r.InOrder) (hbad : ¬ r.Safe a) (hs : r.step a = some r') : r'.Spoilt := by
  cases a with
  | arrive u pkt context => cases hs; exact spoilt_arrive h hbad
  | goOn => exact absurd trivial hbad

/-- What has gone wrong is not put right. -/
theorem spoilt_stays (h : r.Spoilt) (hs : r.step a = some r') : r'.Spoilt := by
  cases a with
  | arrive u pkt context =>
      cases hs
      rcases h with ho | ⟨hr, hlt⟩
      · refine Or.inl ?_
        simp only [arrive]
        split
        · simp
        · exact ho
      · refine Or.inr ⟨hr, Nat.lt_of_lt_of_le hlt ?_⟩
        simp only [arrive]
        split
        · simp
        · exact Nat.le_refl _
  | goOn =>
      rcases h with ho | ⟨hr, hlt⟩
      · simp only [step, goOn] at hs
        split at hs <;> cases hs <;> exact Or.inl ho
      · rcases hr with hr | hr
        · simp only [step, goOn, hr] at hs
          cases hs
          exact Or.inr ⟨Or.inr rfl, hlt⟩
        · simp only [step, goOn, hr] at hs
          cases hs

theorem Spoilt.not_delivered (h : r.Spoilt) : ¬ r.Delivered := by
  rintro ⟨hpassed, hovertook⟩
  rcases h with ho | ⟨-, hlt⟩
  · exact ho hovertook
  · rw [hpassed] at hlt
    exact Nat.lt_irrefl _ hlt

theorem numbered_snd (pkts : List Memory) : (numbered pkts).map Prod.snd = pkts := by
  simp [numbered, Function.comp_def]

theorem inOrder_find {filters : List EventFilter} {key : PerflowKey} (hf : find filters key = some r)
    (ha : ∀ filter, filters[r.index]? = some filter → filter.action = .buffer) : r.InOrder := by
  obtain ⟨index, hindex, rfl⟩ := Option.map_eq_some_iff.mp hf
  obtain ⟨hlt, hkey, -⟩ := List.findIdx?_eq_some_iff_getElem.mp hindex
  have ht : filters[index]? = some filters[index] := List.getElem?_eq_getElem hlt
  refine ⟨⟨fun _ => ⟨_, ht, of_decide_eq_true hkey, ha _ ht, ?_⟩, ?_⟩, ?_, rfl, ?_⟩
  · rw [init, numbered_snd, bufferAt, ht]
    rfl
  · rintro (hr | hr) <;> cases hr
  · rw [pending_other]
    · rfl
    · intro hr
      cases hr
  · rintro (hr | hr) <;> cases hr

end Runs

end Release

/-- Over every interleaving of arrivals with the removal of a filter that buffers, every packet that the
filter has stopped is processed once, in the order of arrival, and none is overtaken, if and only if no packet
is stopped after the buffer has been found empty and none goes past packets that still wait. -/
theorem delivered_iff_safe {filters : List EventFilter} {key : PerflowKey} {start r : Release}
    {as : List ReleaseStep} (hf : Release.find filters key = some start)
    (ha : ∀ filter, filters[start.index]? = some filter → filter.action = .buffer)
    (hr : Machine.run Release.step start as = some r) (hd : r.remover = .done) :
    r.Delivered ↔ Machine.Along Release.step Release.Safe start as := by
  refine Machine.end_iff_along (Release.inOrder_find hf ha) (fun t a t' => Release.inOrder_step)
    (fun t a t' => Release.spoilt_step) (fun t a t' => Release.spoilt_stays) hr ?_ Release.Spoilt.not_delivered
  intro h
  refine ⟨?_, h.overtook⟩
  rw [← h.order, Release.pending_other (by simp [hd]), h.empty (Or.inr hd), List.append_nil]

/-- A filter with a packet in its buffer. -/
def fullFilter : EventFilter := { anyFilter .buffer 1 with buffer := [tosPacket 0] }

theorem find_single (filter : EventFilter) :
    Release.find [filter] filter.key = some (Release.init [filter] filter.key 0) := by
  simp [Release.find]

/-- The removal, with a packet that arrives while the first one is processed. -/
def releasingTwo : List ReleaseStep :=
  [.goOn, .goOn, .arrive (.const .zero 0) (tosPacket 0) ⟨0, 0, 0⟩, .goOn, .goOn, .goOn, .goOn]

theorem delivered_iff_safe_two :
    ∃ r, Machine.run Release.step (Release.init [fullFilter] fullFilter.key 0) releasingTwo = some r ∧
      r.remover = .done ∧ r.stopped.length = 2 ∧ r.Delivered := by
  have hrun : Machine.run Release.step (Release.init [fullFilter] fullFilter.key 0) releasingTwo = some _ := rfl
  have hsafe : Machine.Along Release.step Release.Safe (Release.init [fullFilter] fullFilter.key 0) releasingTwo := by
    refine Machine.along_cons.mpr ⟨trivial, ?_⟩
    rintro t ⟨⟩
    refine Machine.along_cons.mpr ⟨trivial, ?_⟩
    rintro t ⟨⟩
    refine Machine.along_cons.mpr ⟨fun _ _ => rfl, fun _ _ => ?_⟩
    refine Machine.along_cons.mpr ⟨trivial, fun _ _ => Machine.along_cons.mpr ⟨trivial, fun _ _ => ?_⟩⟩
    exact Machine.along_cons.mpr ⟨trivial, fun _ _ => Machine.along_cons.mpr ⟨trivial, fun _ _ => Machine.along_nil⟩⟩
  refine ⟨_, hrun, by decide, by decide, (delivered_iff_safe (find_single fullFilter) ?_ hrun (by decide)).mpr hsafe⟩
  simp [Release.init, fullFilter, anyFilter]

/-- What a removal comes to that has found its buffer empty. -/
def unlinkingAny : Release :=
  { Release.init [anyFilter .buffer 1] (anyFilter .buffer 1).key 0 with remover := .unlinking }

/-- The buffer is empty; a packet comes before the filter is out of the list, and goes with it. -/
theorem not_delivered_late : ∃ r,
    Machine.run Release.step (Release.init [anyFilter .buffer 1] (anyFilter .buffer 1).key 0)
      [.goOn, .arrive (.const .zero 0) (tosPacket 0) ⟨0, 0, 0⟩, .goOn] = some r ∧
    r.remover = .done ∧ ¬ r.Delivered := by
  have h₀ := Release.inOrder_find (find_single (anyFilter .buffer 1)) (by simp [Release.init, anyFilter])
  have h₁ : unlinkingAny.InOrder := Release.inOrder_goOn h₀ rfl
  have hpast : ¬ Release.GoesPast (tosPacket 0) ⟨0, 0, 0⟩ := by
    rintro (h | h)
    · exact absurd h (by decide)
    · exact h rfl
  have hbad : ¬ unlinkingAny.Safe (.arrive (.const .zero 0) (tosPacket 0) ⟨0, 0, 0⟩) := fun hsafe =>
    hpast (hsafe ⟨rfl, matchesKey_any _ .buffer 1 _⟩)
  have h₂ := Release.spoilt_arrive h₁ hbad
  exact ⟨_, rfl, rfl, (Release.spoilt_stays (a := .goOn) h₂ rfl).not_delivered⟩

end OFM.Shared
