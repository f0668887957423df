import OFM.Shared.EventCommands

/-!
# Whose filters are removed

When exactly the filters of a middlebox are those that have been enabled and not been disabled since.
-/

namespace OFM.Shared
open OFM.Lib
open OFM.Controller (EventAction)

section Removal

variable {α : Type} {p q : α → Bool} {l : List α}

/-- The first element with a property is the only one with another, or there is none with either. -/
theorem eraseP_eq_filter_iff (hq : ∀ x, q x = true → p x = true) (hnodup : l.Nodup) :
    l.eraseP p = l.filter (fun x => !q x) ↔ l.filter q = (l.find? p).toList := by
  induction l with
  | nil => simp
  | cons x l ih =>
      obtain ⟨hx, hl⟩ := List.nodup_cons.mp hnodup
      cases hpx : p x with
      | false =>
          have hqx : q x = false := by
            cases h : q x with
            | false => rfl
            | true => rw [hq x h] at hpx; cases hpx
          simp [hpx, hqx, ih hl]
      | true =>
          have hkeep : l = l.filter (fun y => !q y) ↔ l.filter q = [] := by
            rw [eq_comm, List.filter_eq_self, List.filter_eq_nil_iff]
            simp
          cases hqx : q x with
          | true => simpa [hpx, hqx] using hkeep
          | false =>
              have hne : l ≠ x :: l.filter (fun y => !q y) := by
                intro h
                exact hx (h ▸ List.mem_cons_self)
              have hne' : l.filter q ≠ [x] := by
                intro h
                exact hx (List.mem_of_mem_filter (h ▸ List.mem_cons_self))
              simp [hpx, hqx, hne, hne']

end Removal

namespace FilterHistory

variable {uninit : EventAction} {h h' : FilterHistory} {cmd : EventsCommand}

/-- Before the first command. -/
def init : FilterHistory := ⟨0, [], []⟩

/-- The filters in the list have numbers of their own. -/
structure Numbered (h : FilterHistory) : Prop where
  nodup : h.filters.Nodup
  below : ∀ x ∈ h.filters, x.number < h.next

theorem numbered_init : init.Numbered := ⟨List.nodup_nil, by simp [init]⟩

theorem numbered_step (hn : h.Numbered) (hs : h.step uninit cmd = some h') : h'.Numbered := by
  obtain ⟨hnodup, hbelow⟩ := hn
  cases cmd with
  | enable id key action =>
      cases key with
      | none => cases hs; exact ⟨hnodup, hbelow⟩
      | some key =>
          cases action with
          | none => cases hs; exact ⟨hnodup, hbelow⟩
          | some action =>
              cases hs
              refine ⟨List.nodup_cons.mpr ⟨fun hmem => ?_, hnodup⟩, fun x hx => ?_⟩
              · exact absurd (hbelow _ hmem) (Nat.lt_irrefl _)
              · rcases List.mem_cons.mp hx with rfl | hx
                · exact Nat.lt_succ_self _
                · exact Nat.lt_succ_of_lt (hbelow x hx)
  | disable id key =>
      cases key with
      | none => cases hs; exact ⟨hnodup, hbelow⟩
      | some key =>
          cases hs
          exact ⟨hnodup.sublist List.eraseP_sublist, fun x hx => hbelow x (List.mem_of_mem_eraseP hx)⟩

theorem owned_hasKey (id : BitVec 32) (key : Controller.PerflowKey) (x : Enabled)
    (hx : owned id key x = true) : hasKey key x = true := by
  have hkey : x.msg.key = key := (of_decide_eq_true hx).2
  simp [hasKey, EnableEvents.filter, hkey]

/-- A command keeps the list exact if and only if it removes its own filter. -/
theorem exact_step_iff (hexact : h.Exact) (hn : h.Numbered) (hs : h.step uninit cmd = some h') :
    h'.Exact ↔ h.RemovesOwn cmd := by
  cases cmd with
  | enable id key action =>
      cases key with
      | none => cases hs; exact iff_of_true hexact trivial
      | some key =>
          cases action with
          | none => cases hs; exact iff_of_true hexact trivial
          | some action =>
              cases hs
              exact iff_of_true (congrArg _ hexact) trivial
  | disable id key =>
      cases key with
      | none => cases hs; exact iff_of_true hexact trivial
      | some key =>
          cases hs
          have hdue : h.due = h.filters := hexact.symm
          simp only [Exact, RemovesOwn, hdue]
          exact eraseP_eq_filter_iff (owned_hasKey id key) hn.nodup

end FilterHistory

/-- Over every sequence of commands, the list has exactly the filters that have been enabled and not been
disabled since, after each command, if and only if every command that disables finds as the newest filter
with its key the only one of its own id and key, or no filter at all. -/
theorem exact_iff_removesOwn (uninit : EventAction) (cmds : List EventsCommand) (h : FilterHistory)
    (hr : Machine.run (FilterHistory.step uninit) .init cmds = some h) :
    (∀ pre suf t, cmds = pre ++ suf → Machine.run (FilterHistory.step uninit) .init pre = some t → t.Exact) ↔
      Machine.Along (FilterHistory.step uninit) FilterHistory.RemovesOwn .init cmds := by
  have hnumbered : ∀ pre t, Machine.run (FilterHistory.step uninit) .init pre = some t → t.Numbered :=
    fun pre t ht => Machine.run_invariant' FilterHistory.numbered_init
      (fun s a s' => FilterHistory.numbered_step) ht
  have hstep : ∀ t a t', (t.Exact ∧ t.Numbered) → FilterHistory.step uninit t a = some t' →
      (t'.Exact ∧ t'.Numbered ↔ t.RemovesOwn a) := by
    rintro t a t' ⟨hexact, hn⟩ hs
    rw [FilterHistory.exact_step_iff hexact hn hs, and_iff_left (FilterHistory.numbered_step hn hs)]
  rw [← Machine.always_iff_along ⟨rfl, FilterHistory.numbered_init⟩ hstep hr]
  constructor
  · exact fun h pre suf t he ht => ⟨h pre suf t he ht, hnumbered pre t ht⟩
  · exact fun h pre suf t he ht => (h pre suf t he ht).1

/-- The list in memory after commands. -/
theorem list_run {uninit : EventAction} {cmds : List EventsCommand} {h h' : FilterHistory}
    (hr : Machine.run (FilterHistory.step uninit) h cmds = some h') :
    h'.list = cmds.foldl (fun filters cmd => (handleEvents uninit filters cmd).1) h.list := by
  induction cmds generalizing h with
  | nil => cases hr; rfl
  | cons cmd cmds ih =>
      obtain ⟨t, ht, hr⟩ := Option.bind_eq_some_iff.mp hr
      rw [ih hr, FilterHistory.list_step ht]
      rfl

def dropText : Controller.JavaString := Controller.utf16 "drop".toList

theorem exact_iff_removesOwn_one :
    (∀ pre suf t, [EventsCommand.enable 1 (some .new) (some dropText), .disable 1 (some .new)] = pre ++ suf →
      Machine.run (FilterHistory.step .drop) .init pre = some t → t.Exact) ↔
    Machine.Along (FilterHistory.step .drop) FilterHistory.RemovesOwn .init
      [.enable 1 (some .new) (some dropText), .disable 1 (some .new)] :=
  exact_iff_removesOwn .drop _ ⟨1, [], []⟩ rfl

/-- Two operations ask for the packets of one key; the first one disables its filter, and the filter of the
second is removed. -/
theorem not_exact_sharedKey :
    ¬ ∀ pre suf t, [EventsCommand.enable 1 (some .new) (some dropText), .enable 2 (some .new) (some dropText),
        .disable 1 (some .new)] = pre ++ suf →
      Machine.run (FilterHistory.step .drop) .init pre = some t → t.Exact := by
  intro h
  have hexact := h _ [] _ (List.append_nil _).symm rfl
  have hids := congrArg (List.map fun x => x.msg.id) hexact
  exact absurd hids (by decide)

end OFM.Shared
