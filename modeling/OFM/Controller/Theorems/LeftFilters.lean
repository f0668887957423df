import Mathlib.Data.Fintype.Card
import OFM.Controller.Lemmas.MoveFilters
import OFM.Controller.MoveOperation
import OFM.Controller.Theorems.Finish
import OFM.Controller.Transfer
import OFM.Shared.Event

/-!
# The filters that moves leave behind

`disableEventGeneration` has the filter removed at `dst` only, so that the one a move sets at its source
stays there. Moves that set none at their sources leave none behind, whatever other filters there are.
-/

namespace OFM.Controller
open OFM.Lib
open OFM.Shared (EventFilter Undefined ProcessContext)

/-! ## Sequences of moves

Moves between instances that go on at the same time or one after the other, and the event filters of
the instances, which all of them share. A move that begins later is one whose first command waits.
-/

section Sequences

/-- The filters of an instance that has read a command: `handle_enable_events` and
`handle_disable_events`. -/
def filtersAfter (filters : List EventFilter) : Command → List EventFilter
  | .enableEvents id key action =>
      Shared.eventsAddFilter filters (Shared.jsonParsePerflowKey key) action (Shared.jsonObjectGetInt id)
  | .disableEvents _ key =>
      (Shared.eventsRemoveFilter filters (Shared.jsonParsePerflowKey key)).1
  | _ => filters

structure MoveSequence (ι : Type) where
  /-- Each move, with what is on the way on its behalf. -/
  net : ι → Network MoveOperation Holder
  filters : Middlebox → List EventFilter

namespace MoveSequence

inductive Act (ι : Type)
  | move (j : ι) (a : Controller.Act ReprocessMessage)
  /-- A packet reaches an instance. -/
  | packet (mb : Middlebox) (u : Undefined) (pkt : Memory) (context : ProcessContext)

variable {ι : Type} [PacketUtil]

def start (id : ι → Int) (args : ι → MoveArguments) (nf : ι → Middlebox → Holder)
    (filters : Middlebox → List EventFilter) : MoveSequence ι where
  net j := Network.start (MoveOperation.new (id j) (args j)) (nf j)
  filters := filters

/-- The filters after a step of a move: only reading a command changes them. -/
def filtersOf (filters : Middlebox → List EventFilter) (n : Network MoveOperation Holder) :
    Controller.Act ReprocessMessage → Middlebox → List EventFilter
  | .read mb => Function.update filters mb ((n.wire mb).head?.elim (filters mb) (filtersAfter (filters mb)))
  | _ => filters

variable [DecidableEq ι]

def step (s : MoveSequence ι) : Act ι → Option (MoveSequence ι)
  | .move j a => ((s.net j).step a).map fun n =>
      { net := Function.update s.net j n, filters := filtersOf s.filters (s.net j) a }
  | .packet mb u pkt context => some { s with
      filters := Function.update s.filters mb
        (Shared.sdmbnPreprocessPacket u (s.filters mb) pkt context).1 }

end MoveSequence

end Sequences

/-! ## Keys and ids of filters -/

/-- What a filter is found by and what it reports with. -/
def mark (filter : EventFilter) : Shared.PerflowKey × BitVec 32 := (filter.key, filter.id)

theorem map_mark_eventsRemoveFilter (filters : List EventFilter) (key : Shared.PerflowKey) :
    (Shared.eventsRemoveFilter filters key).1.map mark =
      (filters.map mark).eraseP fun x => x.1 = key := by
  rw [Shared.eventsRemoveFilter, List.eraseP_map]
  rfl

/-- A packet that is kept changes the buffer of a filter only. -/
theorem map_mark_sdmbnPreprocessPacket (u : Undefined) (filters : List EventFilter) (pkt : Memory)
    (context : ProcessContext) :
    (Shared.sdmbnPreprocessPacket u filters pkt context).1.map mark = filters.map mark := by
  have hbuffer : (Shared.bufferPacket u filters pkt).map mark = filters.map mark := by
    unfold Shared.bufferPacket
    dsimp only
    cases filters.findIdx? fun filter =>
        Shared.matchesKey u filter.key (Shared.buildPacketKey pkt u.pKey) with
    | none => rfl
    | some i =>
        refine List.ext_getElem? fun k => ?_
        simp only [Option.elim_some, List.getElem?_map, List.getElem?_modify]
        split
        · cases filters[k]? <;> rfl
        · simp
  unfold Shared.sdmbnPreprocessPacket
  split
  · rfl
  · split
    · split
      · rfl
      · split
        · rfl
        · exact hbuffer
    · split <;> rfl
    · rfl

namespace MoveSequence

variable {ι : Type} {id : ι → Int} {args : ι → MoveArguments} {s s' : MoveSequence ι}

/-- No filter of any instance reports for one of the moves. -/
def NoneLeft (id : ι → Int) (s : MoveSequence ι) : Prop :=
  ∀ mb, ∀ filter ∈ s.filters mb, ∀ j, filter.id ≠ Shared.jsonObjectGetInt (id j)

/-! ## Moves with an open filter -/

/-- `dst` has read that a filter is to be set, but not that it is to be removed. -/
def Open (args : MoveArguments) (n : Network MoveOperation Holder) : Prop :=
  n.waitingAt args.dst Command.isEnable < n.sentTo args.dst Command.isEnable ∧
    n.waitingAt args.dst Command.isDisable = n.sentTo args.dst Command.isDisable

instance (args : MoveArguments) (n : Network MoveOperation Holder) : Decidable (Open args n) :=
  inferInstanceAs (Decidable (_ ∧ _))

section Opened

variable [Fintype ι]

/-- The moves that have a filter with the key open at the instance. -/
def opened (args : ι → MoveArguments) (s : MoveSequence ι) (mb : Middlebox)
    (key : Shared.PerflowKey) : Finset ι :=
  Finset.univ.filter fun j =>
    (args j).dst = mb ∧ Shared.jsonParsePerflowKey (args j).key = key ∧ Open (args j) (s.net j)

theorem mem_opened {mb : Middlebox} {key : Shared.PerflowKey} {j : ι} :
    j ∈ opened args s mb key ↔ (args j).dst = mb ∧
      Shared.jsonParsePerflowKey (args j).key = key ∧ Open (args j) (s.net j) := by
  rw [opened, Finset.mem_filter]
  exact and_iff_right (Finset.mem_univ j)

/-- In front of filters that are none of the moves' stand at most as many with a key as are open. -/
def Counted (id : ι → Int) (args : ι → MoveArguments) (s : MoveSequence ι) (mb : Middlebox) : Prop :=
  ∃ new old, (s.filters mb).map mark = new ++ old ∧
    (∀ x ∈ old, ∀ j, x.2 ≠ Shared.jsonObjectGetInt (id j)) ∧
    ∀ key, (new.map Prod.fst).count key ≤ (opened args s mb key).card

theorem Counted.congr {mb : Middlebox} (h : Counted id args s mb)
    (hfilters : (s'.filters mb).map mark = (s.filters mb).map mark)
    (hopened : ∀ key, opened args s mb key ⊆ opened args s' mb key) : Counted id args s' mb := by
  obtain ⟨new, old, hmark, hold, hcount⟩ := h
  exact ⟨new, old, hfilters.trans hmark, hold,
    fun key => (hcount key).trans (Finset.card_le_card (hopened key))⟩

variable [DecidableEq ι]

theorem Counted.enable {j : ι} (h : Counted id args s (args j).dst) (id' : BitVec 32)
    (hfilters : (s'.filters (args j).dst).map mark =
      (Shared.jsonParsePerflowKey (args j).key, id') :: (s.filters (args j).dst).map mark)
    (hbefore : ¬ Open (args j) (s.net j)) (hafter : Open (args j) (s'.net j))
    (hother : ∀ i, i ≠ j → s'.net i = s.net i) : Counted id args s' (args j).dst := by
  obtain ⟨new, old, hmark, hold, hcount⟩ := h
  refine ⟨(Shared.jsonParsePerflowKey (args j).key, id') :: new, old, ?_, hold, fun key => ?_⟩
  · rw [hfilters, hmark]
    rfl
  · have hsub : opened args s (args j).dst key ⊆ opened args s' (args j).dst key := by
      intro i hi
      obtain ⟨hdst, hkey, hopen⟩ := mem_opened.mp hi
      have hij : i ≠ j := fun he => hbefore (he ▸ hopen)
      exact mem_opened.mpr ⟨hdst, hkey, by rw [hother i hij]; exact hopen⟩
    have hkeyed := hcount key
    rw [List.map_cons, List.count_cons]
    split
    · rename_i he
      have he : Shared.jsonParsePerflowKey (args j).key = key := by simpa using he
      have hj : j ∉ opened args s (args j).dst key := fun hj => hbefore (mem_opened.mp hj).2.2
      have hinsert : insert j (opened args s (args j).dst key) ⊆ opened args s' (args j).dst key :=
        Finset.insert_subset (mem_opened.mpr ⟨rfl, he, hafter⟩) hsub
      have hcard := Finset.card_le_card hinsert
      rw [Finset.card_insert_of_notMem hj] at hcard
      omega
    · have hcard := Finset.card_le_card hsub
      omega

theorem Counted.disable {j : ι} (h : Counted id args s (args j).dst)
    (hfilters : (s'.filters (args j).dst).map mark = ((s.filters (args j).dst).map mark).eraseP
      fun x => x.1 = Shared.jsonParsePerflowKey (args j).key)
    (hother : ∀ i, i ≠ j → s'.net i = s.net i) : Counted id args s' (args j).dst := by
  obtain ⟨new, old, hmark, hold, hcount⟩ := h
  have hsub : ∀ key, (opened args s (args j).dst key).erase j ⊆ opened args s' (args j).dst key := by
    intro key i hi
    obtain ⟨hij, hi⟩ := Finset.mem_erase.mp hi
    obtain ⟨hdst, hkey, hopen⟩ := mem_opened.mp hi
    exact mem_opened.mpr ⟨hdst, hkey, by rw [hother i hij]; exact hopen⟩
  have hcard : ∀ key, (opened args s (args j).dst key).card ≤ (opened args s' (args j).dst key).card +
      if Shared.jsonParsePerflowKey (args j).key = key then 1 else 0 := by
    intro key
    have hle := Finset.card_le_card (hsub key)
    split
    · have hpred := Finset.pred_card_le_card_erase (s := opened args s (args j).dst key) (a := j)
      omega
    · rename_i hne
      rw [Finset.erase_eq_of_notMem fun hj => hne (mem_opened.mp hj).2.1] at hle
      omega
  rw [hmark, List.eraseP_append] at hfilters
  split at hfilters
  · -- One of the filters in front goes.
    refine ⟨_, old, hfilters, hold, fun key => ?_⟩
    have herase : (new.eraseP fun x => x.1 = Shared.jsonParsePerflowKey (args j).key).map Prod.fst =
        (new.map Prod.fst).erase (Shared.jsonParsePerflowKey (args j).key) := by
      rw [List.erase_eq_eraseP', List.eraseP_map]
      congr
    have hkeyed := hcount key
    have hopen := hcard key
    rw [herase, List.count_erase]
    by_cases he : Shared.jsonParsePerflowKey (args j).key = key
    · rw [if_pos he] at hopen
      simp only [he, beq_self_eq_true, ↓reduceIte]
      omega
    · rw [if_neg he] at hopen
      simp only [beq_iff_eq, he, ↓reduceIte]
      omega
  · -- None in front has the key.
    rename_i hnone
    refine ⟨new, _, hfilters, fun x hx => hold x (List.mem_of_mem_eraseP hx), fun key => ?_⟩
    have hkeyed := hcount key
    have hopen := hcard key
    by_cases he : Shared.jsonParsePerflowKey (args j).key = key
    · have hzero : (new.map Prod.fst).count key = 0 := by
        refine List.count_eq_zero.mpr fun hm => hnone ?_
        obtain ⟨x, hx, hkey⟩ := List.mem_map.mp hm
        exact List.any_eq_true.mpr ⟨x, hx, decide_eq_true (hkey.trans he.symm)⟩
      omega
    · rw [if_neg he] at hopen
      omega

/-! ## Steps -/

variable [PacketUtil]

omit [Fintype ι] in
/-- Whatever else a move does, its filter stays as open as it was. -/
theorem open_step {n n' : Network MoveOperation Holder} {args : MoveArguments}
    {a : Controller.Act ReprocessMessage} (hs : n.step a = some n')
    (hread : ∀ mb cmd rest, a = .read mb → n.wire mb = cmd :: rest → mb = args.dst →
      cmd.isToggle = false) : Open args n' ↔ Open args n := by
  have hcount : ∀ p : Command → Bool, (∀ cmd, p cmd = true → cmd.isToggle = true) → ∃ k,
      n'.sentTo args.dst p = n.sentTo args.dst p + k ∧
        n'.waitingAt args.dst p = n.waitingAt args.dst p + k := by
    intro p hp
    rcases Network.waitingAt_step hs with ⟨mb, cmd, rest, rfl, hw, hw', hlog⟩ | ⟨-, h⟩
    · refine ⟨0, by rw [Network.sentTo, hlog]; rfl, ?_⟩
      rw [Network.waitingAt, hw', Nat.add_zero]
      by_cases hmb : args.dst = mb
      · subst hmb
        have hno : p cmd ≠ true := fun h => by
          have ht := hp cmd h
          rw [hread _ cmd rest rfl hw rfl] at ht
          cases ht
        rw [Function.update_self, Network.waitingAt, hw, List.countP_cons_of_neg hno]
      · rw [Function.update_of_ne hmb]
        rfl
    · exact h args.dst p
  obtain ⟨i, hi, hi'⟩ := hcount Command.isEnable fun cmd h => by rw [Command.isToggle_eq, h, Bool.true_or]
  obtain ⟨k, hk, hk'⟩ := hcount Command.isDisable fun cmd h => by rw [Command.isToggle_eq, h, Bool.or_true]
  unfold Open
  omega

omit [Fintype ι] [DecidableEq ι] [PacketUtil] in
/-- Reading that a filter is to be set opens it, which it was not: a move sets it once. -/
theorem open_of_enable {n n' : Network MoveOperation Holder} {args : MoveArguments} {id : Int}
    {rest : List Command} (hgate : MoveOperation.Gate id args n) (honce : MoveOperation.Once args n)
    (hw : n.wire args.dst = .enableEvents id args.key .buffer :: rest)
    (hw' : n'.wire = Function.update n.wire args.dst rest) (hlog : n'.log = n.log) :
    ¬ Open args n ∧ Open args n' := by
  have hE : n.waitingAt args.dst Command.isEnable = rest.countP Command.isEnable + 1 := by
    rw [Network.waitingAt, hw, List.countP_cons_of_pos rfl]
  have hD : n.waitingAt args.dst Command.isDisable = rest.countP Command.isDisable := by
    rw [Network.waitingAt, hw, List.countP_cons_of_neg Bool.false_ne_true]
  have hwait : ∀ p, n'.waitingAt args.dst p = rest.countP p := fun p => by
    rw [Network.waitingAt, hw', Function.update_self]
  have hsent : ∀ p, n'.sentTo args.dst p = n.sentTo args.dst p := fun p => by
    rw [Network.sentTo, hlog]
    rfl
  have hle := hgate.enables
  have hone := honce.count
  have hzero := (hgate.unread (by omega)).1
  have hdis := hgate.disables
  unfold Open
  rw [hwait, hwait, hsent, hsent]
  omega

theorem counted_step {a : Act ι} (hgate : ∀ j, MoveOperation.Gate (id j) (args j) (s.net j))
    (honce : ∀ j, MoveOperation.Once (args j) (s.net j)) (h : ∀ mb, Counted id args s mb)
    (hs : s.step a = some s') (mb : Middlebox) : Counted id args s' mb := by
  cases a with
  | packet mb' u pkt context =>
      cases Option.some.inj hs
      refine (h mb).congr ?_ fun key => Finset.Subset.refl _
      show (Function.update s.filters mb' _ mb).map mark = _
      by_cases hmb : mb = mb'
      · subst hmb
        rw [Function.update_self, map_mark_sdmbnPreprocessPacket]
      · rw [Function.update_of_ne hmb]
  | move j a =>
      obtain ⟨n, hn, rfl⟩ := Option.map_eq_some_iff.mp hs
      have hself : Function.update s.net j n j = n := Function.update_self ..
      have hother : ∀ i, i ≠ j → Function.update s.net j n i = s.net i :=
        fun i hi => Function.update_of_ne hi ..
      -- No filter is touched at the instance, and none opened or closed.
      have hkeep : filtersOf s.filters (s.net j) a mb = s.filters mb →
          ((args j).dst = mb → (Open (args j) n ↔ Open (args j) (s.net j))) →
          Counted id args ⟨Function.update s.net j n, filtersOf s.filters (s.net j) a⟩ mb := by
        intro hfilters hopen
        refine (h mb).congr (congrArg _ hfilters) fun key i hi => ?_
        obtain ⟨hdst, hkey, hi⟩ := mem_opened.mp hi
        refine mem_opened.mpr ⟨hdst, hkey, ?_⟩
        show Open (args i) (Function.update s.net j n i)
        by_cases hij : i = j
        · subst hij
          rw [hself]
          exact (hopen hdst).mpr hi
        · rwa [hother i hij]
      rcases Network.waitingAt_step hn with ⟨mb', cmd, rest, rfl, hw, hw', hlog⟩ | ⟨hread, -⟩
      · have hmem : cmd ∈ (s.net j).wire mb' := by
          rw [hw]
          exact List.mem_cons_self
        have hfilters : filtersOf s.filters (s.net j) (.read mb') =
            Function.update s.filters mb' (filtersAfter (s.filters mb') cmd) := by
          simp only [filtersOf, hw, List.head?_cons, Option.elim_some]
        by_cases hmb : mb = mb'
        · subst hmb
          have hafter : filtersOf s.filters (s.net j) (.read mb) mb = filtersAfter (s.filters mb) cmd := by
            rw [hfilters, Function.update_self]
          by_cases ht : cmd.isToggle = true
          · obtain ⟨rfl, rfl | rfl⟩ := (hgate j).toggle_at mb cmd hmem ht
            · obtain ⟨hbefore, hopen⟩ := open_of_enable (hgate j) (honce j) hw hw' hlog
              refine (h _).enable (Shared.jsonObjectGetInt (id j)) ?_ hbefore ?_ hother
              · rw [show MoveSequence.filters ⟨Function.update s.net j n,
                  filtersOf s.filters (s.net j) (.read (args j).dst)⟩ (args j).dst = _ from hafter]
                rfl
              · show Open (args j) (Function.update s.net j n j)
                rwa [hself]
            · refine (h _).disable ?_ hother
              rw [show MoveSequence.filters ⟨Function.update s.net j n,
                  filtersOf s.filters (s.net j) (.read (args j).dst)⟩ (args j).dst = _ from hafter]
              exact map_mark_eventsRemoveFilter _ _
          · have hsame : filtersAfter (s.filters mb) cmd = s.filters mb := by
              cases cmd <;> first | rfl | exact absurd rfl ht
            refine hkeep (hafter.trans hsame) fun _ => open_step hn fun mb' cmd' rest' he hw' _ => ?_
            cases he
            obtain ⟨rfl, -⟩ := List.cons.inj (hw.symm.trans hw')
            exact Bool.eq_false_of_not_eq_true ht
        · refine hkeep (by rw [hfilters, Function.update_of_ne hmb]) fun hdst =>
            open_step hn fun mb'' cmd' rest' he hw' hdst' => ?_
          cases he
          exact absurd (hdst'.trans hdst).symm hmb
      · refine hkeep ?_ fun _ => open_step hn fun mb' cmd rest he _ _ => absurd he (hread mb')
        cases a <;> first | rfl | exact absurd rfl (hread _)

end Opened

/-! ## Runs -/

variable [PacketUtil] [DecidableEq ι] {nf : ι → Middlebox → Holder}
  {filters : Middlebox → List EventFilter} {as : List (Act ι)}

/-- Each move runs as it does by itself. -/
theorem net_run (hr : Machine.run step (start id args nf filters) as = some s) (j : ι) :
    ∃ bs, Machine.run Network.step (Network.start (MoveOperation.new (id j) (args j)) (nf j)) bs =
      some (s.net j) := by
  refine Machine.run_invariant' (I := fun s : MoveSequence ι => ∃ bs, Machine.run Network.step
    (Network.start (MoveOperation.new (id j) (args j)) (nf j)) bs = some (s.net j)) ⟨[], rfl⟩ ?_ hr
  rintro t a t' ⟨bs, hbs⟩ hs
  cases a with
  | packet mb u pkt context =>
      cases Option.some.inj hs
      exact ⟨bs, hbs⟩
  | move i a =>
      obtain ⟨n, hn, rfl⟩ := Option.map_eq_some_iff.mp hs
      by_cases hij : j = i
      · subst hij
        refine ⟨bs ++ [a], Machine.run_snoc_eq_some.mpr ⟨t.net j, hbs, ?_⟩⟩
        show (t.net j).step a = some (Function.update t.net j n j)
        rw [hn, Function.update_self]
      · refine ⟨bs, hbs.trans ?_⟩
        show some (t.net j) = some (Function.update t.net i n j)
        rw [Function.update_of_ne hij]

variable [Fintype ι]

theorem counted_run (hargs : ∀ j, (args j).Admitted) (hdrop : ∀ j, ¬ (args j).SetsDrop)
    (hne : ∀ j, (args j).guarantee = .orderPreserving → (args j).src ≠ (args j).dst)
    (hnf : ∀ j mb, (nf j mb).raises = false) (hinit : NoneLeft id (start id args nf filters))
    (hr : Machine.run step (start id args nf filters) as = some s) (mb : Middlebox) :
    Counted id args s mb := by
  induction as using List.reverseRecOn generalizing s mb with
  | nil =>
      cases hr
      refine ⟨[], _, rfl, fun x hx j => ?_, fun key => Nat.zero_le _⟩
      obtain ⟨filter, hfilter, rfl⟩ := List.mem_map.mp hx
      exact hinit mb filter hfilter j
  | append_singleton as a ih =>
      obtain ⟨t, ht, hs⟩ := Machine.run_snoc_eq_some.mp hr
      refine counted_step (fun j => ?_) (fun j => ?_) (ih ht) hs mb
      · obtain ⟨bs, hbs⟩ := net_run ht j
        exact MoveOperation.gate_run (hdrop j) (hnf j) hbs
      · obtain ⟨bs, hbs⟩ := net_run ht j
        exact MoveOperation.once_run (hdrop j) (hargs j) (hne j) (hnf j) hbs

/-! ## What is left when all have finished -/

/-- In every state of every run in which all moves have finished and nothing is on the way, no filter is
one of theirs, and no packet matches one. -/
def LeavesNone (id : ι → Int) (args : ι → MoveArguments) : Prop :=
  ∀ (nf : ι → Middlebox → Holder) (filters : Middlebox → List EventFilter) as s,
    (∀ j mb, (nf j mb).raises = false) → NoneLeft id (start id args nf filters) →
    Machine.run step (start id args nf filters) as = some s →
    (∀ j, (s.net j).op.finished = true) → (∀ j, (s.net j).Quiet) →
    NoneLeft id s ∧ ∀ mb u pkt filter, Shared.matchesFilter u (s.filters mb) pkt = some filter →
      ∀ j, filter.id ≠ Shared.jsonObjectGetInt (id j)

/-- Moves that set no filter at their sources leave none behind. -/
theorem leavesNone_of_not_setsDrop (id : ι → Int) (args : ι → MoveArguments)
    (hargs : ∀ j, (args j).Admitted) (hdrop : ∀ j, ¬ (args j).SetsDrop) : LeavesNone id args := by
  intro nf filters as s hnf hinit hr hfin hquiet
  have hgate : ∀ j, MoveOperation.Gate (id j) (args j) (s.net j) := fun j => by
    obtain ⟨bs, hbs⟩ := net_run hr j
    exact MoveOperation.gate_run (hdrop j) (hnf j) hbs
  have hne : ∀ j, (args j).guarantee = .orderPreserving → (args j).src ≠ (args j).dst :=
    fun j hg => ((hgate j).finished hg (hfin j)).2
  have hclosed : ∀ j, ¬ Open (args j) (s.net j) := by
    rintro j ⟨hset, hkept⟩
    obtain ⟨bs, hbs⟩ := net_run hr j
    have honce := MoveOperation.once_run (hdrop j) (hargs j) (hne j) (hnf j) hbs
    have hone := honce.count
    have hacks := (hgate j).acks
    obtain ⟨htwo, -⟩ := (hgate j).finished (honce.ordered (by omega)) (hfin j)
    have hnone : (s.net j).waitingAt (args j).dst Command.isDisable = 0 := by
      rw [Network.waitingAt, (hquiet j).wire]
      rfl
    omega
  have hleft : NoneLeft id s := by
    intro mb filter hfilter
    obtain ⟨new, old, hmark, hold, hcount⟩ := counted_run hargs hdrop hne hnf hinit hr mb
    have hempty : ∀ key, opened args s mb key = ∅ := fun key =>
      Finset.eq_empty_of_forall_notMem fun j hj => hclosed j (mem_opened.mp hj).2.2
    have hnew : new = [] := by
      refine List.eq_nil_iff_forall_not_mem.mpr fun x hx => ?_
      have hpos := List.count_pos_iff.mpr (List.mem_map_of_mem (f := Prod.fst) hx)
      have hle := hcount x.1
      rw [hempty, Finset.card_empty] at hle
      omega
    rw [hnew, List.nil_append] at hmark
    exact hold (mark filter) (hmark ▸ List.mem_map_of_mem hfilter)
  exact ⟨hleft, fun mb u pkt filter hm => hleft mb filter (List.mem_of_find?_eq_some hm)⟩

omit [DecidableEq ι] [Fintype ι] in
/-- Nothing waits at other instances than the two of a move. -/
theorem wire_eq_nil {n : Network MoveOperation Holder} {H : StateClass → List StateMessage}
    (hrouted : Network.Routed H n) (hsrc : n.wire n.op.src = []) (hdst : n.wire n.op.dst = [])
    (mb : Middlebox) : n.wire mb = [] := by
  refine List.eq_nil_iff_forall_not_mem.mpr fun cmd hm => ?_
  have hat : mb = n.op.src → False := fun h => by
    rw [h, hsrc] at hm
    exact List.not_mem_nil hm
  have hat' : mb = n.op.dst → False := fun h => by
    rw [h, hdst] at hm
    exact List.not_mem_nil hm
  have htoggle : cmd.isToggle = true → False := fun ht => by
    rcases hrouted.toggle_at mb cmd hm ht with ⟨h, -⟩ | ⟨h, -⟩
    · exact hat h
    · exact hat' h
  have hget : cmd.getClass ≠ none → False := fun h => hat (hrouted.get_at mb cmd hm h)
  cases cmd with
  | getPerflow => exact hget fun h => by cases h
  | getMultiflow => exact hget fun h => by cases h
  | getAllflows => exact hget fun h => by cases h
  | getConfig => exact hget fun h => by cases h
  | put => exact hat' (hrouted.put_at mb _ hm fun h => by cases h)
  | enableEvents => exact htoggle rfl
  | disableEvents => exact htoggle rfl

open MoveOperation (sampleMove sampleSrc sampleDst)

/-- One move between the sample instances, which hold no state and have no filters. -/
def sampleRun (guarantee : Guarantee) (optimization : Optimization) (as : List (Act Unit)) :
    Option (MoveSequence Unit) :=
  letI := plainFrames
  Machine.run step (start (fun _ => 1) (fun _ => sampleMove .perflow guarantee optimization)
    (fun _ => perflowHolders []) fun _ => []) as

/-- Whether the move has finished, and what is left to do. -/
def remaining (s : MoveSequence Unit) :
    Bool × List Command × List Command × List (Middlebox × Message) × List (Middlebox × Packet) × List Task :=
  let n := s.net ()
  (n.op.finished, n.wire sampleSrc, n.wire sampleDst, n.inFlight, n.packets, n.op.threadPool)

omit [PacketUtil] [DecidableEq ι] [Fintype ι] in
theorem sampleRun_quiet {guarantee : Guarantee} {optimization : Optimization}
    (hargs : (sampleMove .perflow guarantee optimization).Admitted) {as : List (Act Unit)}
    {s : MoveSequence Unit} (hr : sampleRun guarantee optimization as = some s)
    (hrest : remaining s = (true, [], [], [], [], [])) :
    letI := plainFrames
    (s.net ()).op.finished = true ∧ (s.net ()).Quiet := by
  let _ := plainFrames
  simp only [remaining, Prod.mk.injEq] at hrest
  obtain ⟨hfin, hsrc, hdst, hin, hpackets, hpool⟩ := hrest
  have hne : sampleSrc ≠ sampleDst := by decide
  obtain ⟨bs, hbs⟩ := net_run hr ()
  obtain ⟨hsound, hsame⟩ := Network.sound_run (MoveOperation.fresh_new 1 hargs)
    (perflowHolders_raises []) (fun _ => hne) hbs
  have hsame' : (MoveOperation.new 1 (sampleMove .perflow guarantee optimization)).transfer.SameArgs
      (s.net ()).op.transfer := hsame
  have hsrc' : (s.net ()).wire (s.net ()).op.src = [] := by
    rw [show (s.net ()).op.src = sampleSrc from hsame'.src]
    exact hsrc
  have hdst' : (s.net ()).wire (s.net ()).op.dst = [] := by
    rw [show (s.net ()).op.dst = sampleDst from hsame'.dst]
    exact hdst
  exact ⟨hfin, wire_eq_nil hsound.routed hsrc' hdst', hin, hpackets, hpool⟩

/-- A move without loss that asks for events with its get: `src` reports a packet before its get-ack is handled,
and it is let out at the end. -/
def sampleReported : List (Act Unit) :=
  [.move () (.read sampleSrc), .move () (.stimulus sampleSrc ⟨-1, [], ReprocessEvent.encodeBytes (plainFrame 2)⟩),
    .move () (.deliver .inOrder 1), .move () (.deliver .inOrder 0)]

omit [PacketUtil] [DecidableEq ι] [Fintype ι] in
theorem leavesNone_of_not_setsDrop_sample :
    ∃ s, sampleRun .lossFree .pzLl sampleReported = some s ∧
      (s.net ()).op.finished = true ∧ NoneLeft (fun _ : Unit => 1) s := by
  have hargs : (sampleMove .perflow .lossFree .pzLl).Admitted := by decide
  have hrun : (sampleRun .lossFree .pzLl sampleReported).map remaining =
      some (true, [], [], [], [], []) := rfl
  let _ := plainFrames
  obtain ⟨s, hr, hrest⟩ := Option.map_eq_some_iff.mp hrun
  obtain ⟨hfin, hquiet⟩ := sampleRun_quiet hargs hr hrest
  have hdrop : ¬ (sampleMove .perflow .lossFree .pzLl).SetsDrop := by
    rintro ⟨-, h | h⟩ <;> cases h
  have hnone := leavesNone_of_not_setsDrop (fun _ => 1)
    (fun _ => sampleMove .perflow .lossFree .pzLl) (fun _ => hargs) (fun _ => hdrop)
    (fun _ => perflowHolders []) (fun _ => []) sampleReported s (fun _ => perflowHolders_raises [])
    (fun _ _ h => absurd h List.not_mem_nil) hr (fun _ => hfin) fun _ => hquiet
  exact ⟨s, hr, hfin, hnone.1⟩

/-- The filter at the source is set, the gets are acked without any chunk, and the move finishes. -/
def sampleLossFree : List (Act Unit) :=
  [.move () (.read sampleSrc), .move () (.deliver .inOrder 0), .move () (.read sampleSrc),
    .move () (.deliver .inOrder 0)]

omit [PacketUtil] [DecidableEq ι] [Fintype ι] in
/-- A move without loss that asks for no events with its gets leaves its filter at the source. -/
theorem drop_filter_left :
    letI := plainFrames
    (sampleMove .perflow .lossFree .pz).Admitted ∧
      ¬ LeavesNone (fun _ : Unit => 1) (fun _ => sampleMove .perflow .lossFree .pz) := by
  have hargs : (sampleMove .perflow .lossFree .pz).Admitted := by decide
  have hrun : (sampleRun .lossFree .pz sampleLossFree).map
      (fun s => (remaining s, (s.filters sampleSrc).map EventFilter.id)) =
      some ((true, [], [], [], [], []), [1]) := rfl
  let _ := plainFrames
  obtain ⟨s, hr, hs⟩ := Option.map_eq_some_iff.mp hrun
  obtain ⟨hrest, hids⟩ := Prod.mk.inj hs
  obtain ⟨hfin, hquiet⟩ := sampleRun_quiet hargs hr hrest
  refine ⟨hargs, fun h => ?_⟩
  have hnone := (h (fun _ => perflowHolders []) (fun _ => []) sampleLossFree s
    (fun _ => perflowHolders_raises []) (fun _ _ h => absurd h List.not_mem_nil) hr (fun _ => hfin)
    fun _ => hquiet).1
  have hmem : (1 : BitVec 32) ∈ (s.filters sampleSrc).map EventFilter.id := by
    rw [hids]
    exact List.mem_singleton_self 1
  obtain ⟨filter, hfilter, hid⟩ := List.mem_map.mp hmem
  exact hnone sampleSrc filter hfilter () (hid.trans (by decide))

end MoveSequence

end OFM.Controller
