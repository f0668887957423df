import OFM.Prads.Chains
import OFM.Prads.Lemmas.Track

/-!
# The table in memory and the table of lists

Every call leaves the buckets in memory doubly linked, and their connections are those that the call leaves
of the lists.
-/

namespace OFM.Prads
open OFM.Lib OFM.Shared
open OFM.Controller (JavaString)

/-! ## All buckets -/

/-- The buckets are lists of these cells, and no two of them share a cell. -/
structure Chained (heap : Heap Connection) (bucket : Nat → Option Nat)
    (cells : Nat → List (Nat × Connection)) : Prop where
  linked : ∀ h, heap.Linked (bucket h) (cells h)
  disjoint : ∀ h h', h ≠ h' → ∀ a ∈ (cells h).map Prod.fst, a ∉ (cells h').map Prod.fst

/-- The connections of the lists, and the counters. -/
def Represents (s : Chains) (t : Tables) : Prop :=
  ∃ cells, Chained s.heap s.bucket cells ∧
    t = ⟨fun h => (cells h).map Prod.snd, s.cxtrackerid, s.dropCounter⟩

variable {heap heap' : Heap Connection} {bucket : Nat → Option Nat} {cells : Nat → List (Nat × Connection)}
  {s s' : Chains} {t t' : Tables}

theorem Represents.unique (h : Represents s t) (h' : Represents s t') : t = t' := by
  obtain ⟨cells, hc, rfl⟩ := h
  obtain ⟨cells', hc', rfl⟩ := h'
  have hcells : cells = cells' := funext fun h => (hc.linked h).unique (hc'.linked h)
  rw [hcells]

theorem represents_start : Represents .start emptyTables :=
  ⟨fun _ => [], ⟨fun _ => Heap.linked_nil, by simp⟩, rfl⟩

/-- One bucket changes: its cells are its own or have not been allocated, and it leaves others alone. -/
theorem Chained.update (hc : Chained heap bucket cells) {i : Nat} {head : Option Nat}
    {new : List (Nat × Connection)} (hlinked : heap'.Linked head new)
    (hframe : ∀ b, b ∉ (cells i).map Prod.fst → heap b ≠ none → (∀ c, (b, c) ∉ new) → heap' b = heap b)
    (hnew : ∀ b ∈ new.map Prod.fst, b ∈ (cells i).map Prod.fst ∨ heap b = none) :
    Chained heap' (Function.update bucket i head) (Function.update cells i new) := by
  -- No cell of another bucket is a cell of the new list.
  have hapart : ∀ h, h ≠ i → ∀ b ∈ (cells h).map Prod.fst, b ∉ new.map Prod.fst := by
    intro h hne b hb hb'
    rcases hnew b hb' with hold | hnone
    · exact hc.disjoint h i hne b hb hold
    · exact (hc.linked h).allocated b hb hnone
  constructor
  · intro h
    by_cases hh : h = i
    · subst hh
      simpa using hlinked
    · simp only [Function.update_of_ne hh]
      refine (hc.linked h).congr fun b hb => ?_
      apply hframe b (hc.disjoint h i hh b hb) ((hc.linked h).allocated b hb)
      exact fun c hmem => hapart h hh b hb (List.mem_map_of_mem hmem)
  · intro h h' hne a ha
    by_cases hh : h = i
    · subst hh
      rw [Function.update_self] at ha
      rw [Function.update_of_ne (Ne.symm hne)]
      exact fun ha' => hapart h' (Ne.symm hne) a ha' ha
    · rw [Function.update_of_ne hh] at ha
      by_cases hh' : h' = i
      · subst hh'
        rw [Function.update_self]
        exact hapart h hh a ha
      · rw [Function.update_of_ne hh']
        exact hc.disjoint h h' hne a ha

theorem map_update (cells : Nat → List (Nat × Connection)) (i : Nat) (new : List (Nat × Connection)) :
    (fun h => (Function.update cells i new h).map Prod.snd) =
      Function.update (fun h => (cells h).map Prod.snd) i (new.map Prod.snd) := by
  funext h
  by_cases hh : h = i
  · subst hh
    simp
  · simp [Function.update_of_ne hh]

/-! ## A new connection -/

theorem represents_pushed {hash addr : Nat} {cxt : Connection} (h : Represents s t)
    (hs : s.pushed hash addr cxt = some s') :
    Represents s' { t with
      bucket := Function.update t.bucket hash (cxt :: t.bucket hash)
      cxtrackerid := t.cxtrackerid + 1 } := by
  obtain ⟨cells, hc, rfl⟩ := h
  rw [Chains.pushed] at hs
  split at hs
  · rename_i hnone
    obtain ⟨heap', hpush, hlinked, hframe⟩ := (hc.linked hash).push (Option.isNone_iff_eq_none.mp hnone) cxt
    rw [hpush] at hs
    cases hs
    refine ⟨_, hc.update hlinked ?_ ?_, by rw [map_update]; rfl⟩
    · intro b hb _ hnot
      apply hframe b hb
      rintro rfl
      exact hnot cxt (List.mem_cons_self ..)
    · intro b hb
      rcases List.mem_cons.mp hb with rfl | hb
      · exact Or.inr (Option.isNone_iff_eq_none.mp hnone)
      · exact Or.inl hb
  · cases hs

theorem pushed_isSome {hash addr : Nat} (cxt : Connection) (h : Represents s t) (ha : s.heap addr = none) :
    (s.pushed hash addr cxt).isSome := by
  obtain ⟨cells, hc, rfl⟩ := h
  obtain ⟨heap', hpush, -⟩ := (hc.linked hash).push ha cxt
  simp [Chains.pushed, ha, hpush]

/-! ## A packet -/

section Track

variable [Macros] {pi : PacketInfo}

theorem search_cases {fuel : Nat} {prev curr last : Option Nat} {cells : List (Nat × Connection)}
    {result : Option (Nat × Tracked)} (hseg : heap.Seg prev curr cells last none)
    (h : searchBucket heap pi fuel curr = some result) :
    (∃ pre a c post tr, cells = pre ++ (a, c) :: post ∧ (∀ x ∈ pre.map Prod.snd, isOf pi x = false) ∧
      trackOne c pi = some tr ∧ result = some (a, tr)) ∨
    (∀ x ∈ cells.map Prod.snd, isOf pi x = false) ∧ result = none := by
  induction fuel generalizing prev curr cells with
  | zero => cases h
  | succ fuel ih =>
      cases hseg with
      | nil =>
          cases h
          exact Or.inr ⟨by simp, rfl⟩
      | @cons _ next _ _ a c cells hcell hseg =>
          rw [searchBucket, hcell, Option.bind_some] at h
          cases htr : trackOne c pi with
          | some tr =>
              simp only [htr] at h
              cases h
              exact Or.inl ⟨[], a, c, cells, tr, rfl, by simp, htr, rfl⟩
          | none =>
              have hno : isOf pi c = false := by simp [isOf, htr]
              simp only [htr] at h
              rcases ih hseg h with ⟨pre, b, c', post, tr, rfl, hpre, htr', rfl⟩ | ⟨hall, rfl⟩
              · refine Or.inl ⟨(a, c) :: pre, b, c', post, tr, rfl, ?_, htr', rfl⟩
                simpa [hno] using hpre
              · refine Or.inr ⟨?_, rfl⟩
                simpa [hno] using hall

theorem search_isSome {fuel : Nat} {prev curr last : Option Nat} {cells : List (Nat × Connection)}
    (hseg : heap.Seg prev curr cells last none) (hfuel : cells.length < fuel) :
    (searchBucket heap pi fuel curr).isSome := by
  induction fuel generalizing prev curr cells with
  | zero => simp at hfuel
  | succ fuel ih =>
      cases hseg with
      | nil => simp [searchBucket]
      | @cons _ next _ _ a c cells hcell hseg =>
          have hrest := ih hseg (by simpa using hfuel)
          simp only [searchBucket, hcell, Option.bind_some]
          split
          · simp
          · exact hrest

theorem represents_cxTrack {fuel addr : Nat} (h : Represents s t)
    (hs : s.cxTrack fuel pi addr = some s') : Represents s' (cxTrack t pi).1 := by
  obtain ⟨result, hsearch, hs⟩ := Option.bind_eq_some_iff.mp hs
  obtain ⟨cells, hc, rfl⟩ := id h
  obtain ⟨-, last, hseg⟩ := hc.linked (hash pi)
  rcases search_cases hseg hsearch with ⟨pre, a, c, post, tr, hcells, hpre, htr, rfl⟩ | ⟨hall, rfl⟩
  · obtain ⟨node, ha, hs⟩ := Option.map_eq_some_iff.mp hs
    subst hs
    have hbucket : (cells (hash pi)).map Prod.snd =
        pre.map Prod.snd ++ c :: post.map Prod.snd := by simp [hcells]
    rw [cxTrack_of_some hbucket hpre htr]
    have hlinked := hc.linked (hash pi)
    rw [hcells] at hlinked
    have hset := (hlinked.at.setVal ha tr.cxt).linked
    have hupdate := hc.update hset (i := hash pi) ?_ ?_
    · rw [Function.update_eq_self] at hupdate
      refine ⟨_, hupdate, ?_⟩
      rw [map_update]
      simp
    · intro b hb _ _
      refine Heap.store_of_ne _ ?_ _
      rintro rfl
      exact hb (by simp [hcells])
    · intro b hb
      refine Or.inl ?_
      rw [hcells]
      simpa using hb
  · rw [cxTrack_of_none hall]
    exact represents_pushed h hs

theorem cxTrack_isSome {fuel addr : Nat} (h : Represents s t)
    (hfuel : (t.bucket (hash pi)).length < fuel) (ha : s.heap addr = none) :
    (s.cxTrack fuel pi addr).isSome := by
  obtain ⟨cells, hc, rfl⟩ := id h
  obtain ⟨-, last, hseg⟩ := hc.linked (hash pi)
  obtain ⟨result, hsearch⟩ : ∃ result, searchBucket s.heap pi fuel (s.bucket (hash pi)) = some result :=
    Option.isSome_iff_exists.mp (search_isSome hseg (by simpa using hfuel))
  rw [Chains.cxTrack, hsearch, Option.bind_some]
  rcases search_cases hseg hsearch with ⟨pre, a, c, post, tr, hcells, -, -, rfl⟩ | ⟨-, rfl⟩
  · have hcell := hc.linked (hash pi)
    rw [hcells] at hcell
    obtain ⟨node, rest, hnode, -⟩ := hcell.at.here
    simp [hnode]
  · exact pushed_isSome _ h ha

end Track

/-! ## A get -/

section Get

variable {u : Undefined} {key : PerflowKey} {id : BitVec 32} {raiseEvents : Bool}

/-- A cell after a get. -/
def gottenCell (u : Undefined) (key : PerflowKey) (id : BitVec 32) (raiseEvents : Bool)
    (cell : Nat × Connection) : Nat × Connection :=
  (cell.1, gotten u key id raiseEvents cell.2)

theorem linked_markBucket {fuel : Nat} {head curr : Option Nat} {pre post : List (Nat × Connection)}
    (hcursor : heap.Cursor head pre curr post)
    (h : markBucket u key id raiseEvents fuel heap curr = some heap') :
    heap'.Linked head (pre ++ post.map (gottenCell u key id raiseEvents)) ∧
      ∀ b, b ∉ post.map Prod.fst → heap' b = heap b := by
  induction fuel generalizing heap pre curr post with
  | zero => cases h
  | succ fuel ih =>
      cases curr with
      | none =>
          cases h
          obtain rfl := hcursor.done
          exact ⟨by simpa using hcursor.linked, fun _ _ => rfl⟩
      | some curr =>
          obtain ⟨node, rest, hnode, rfl⟩ := hcursor.here
          rw [markBucket, hnode, Option.bind_some] at h
          by_cases hsel : getSelects u key node.val
          · rw [if_pos hsel] at h
            obtain ⟨hlinked, hframe⟩ := ih
              ((hcursor.setVal hnode { node.val with gotten := mark id raiseEvents }).next
                (Heap.store_self ..)) h
            refine ⟨?_, fun b hb => ?_⟩
            · simpa [gottenCell, gotten, hsel, Connection.marked] using hlinked
            · simp only [List.map_cons, List.mem_cons, not_or] at hb
              rw [hframe b hb.2, Heap.store_of_ne _ hb.1]
          · rw [if_neg hsel] at h
            obtain ⟨hlinked, hframe⟩ := ih (hcursor.next hnode) h
            refine ⟨?_, fun b hb => ?_⟩
            · simpa [gottenCell, gotten, hsel] using hlinked
            · simp only [List.map_cons, List.mem_cons, not_or] at hb
              exact hframe b hb.2

theorem markBucket_isSome {fuel : Nat} {head curr : Option Nat} {pre post : List (Nat × Connection)}
    (hcursor : heap.Cursor head pre curr post) (hfuel : post.length < fuel) :
    (markBucket u key id raiseEvents fuel heap curr).isSome := by
  induction fuel generalizing heap pre curr post with
  | zero => simp at hfuel
  | succ fuel ih =>
      cases curr with
      | none => simp [markBucket]
      | some curr =>
          obtain ⟨node, rest, hnode, rfl⟩ := hcursor.here
          have hlt : rest.length < fuel := by simpa using hfuel
          rw [markBucket, hnode, Option.bind_some]
          by_cases hsel : getSelects u key node.val
          · rw [if_pos hsel]
            have hset := hcursor.setVal hnode { node.val with gotten := mark id raiseEvents }
            have hnext := hset.next (Heap.store_self ..)
            exact ih hnext hlt
          · rw [if_neg hsel]
            exact ih (hcursor.next hnode) hlt

theorem chained_markBuckets {fuel : Nat} {hs : List Nat} (hnd : hs.Nodup)
    (hc : Chained heap bucket cells)
    (h : hs.foldlM (fun heap h => markBucket u key id raiseEvents fuel heap (bucket h)) heap = some heap') :
    Chained heap' bucket fun h =>
      if h ∈ hs then (cells h).map (gottenCell u key id raiseEvents) else cells h := by
  induction hs generalizing heap cells with
  | nil =>
      cases h
      simpa using hc
  | cons i hs ih =>
      obtain ⟨hnot, hnd⟩ := List.nodup_cons.mp hnd
      obtain ⟨heap₁, h₁, h⟩ := Option.bind_eq_some_iff.mp h
      obtain ⟨hlinked, hframe⟩ := linked_markBucket (hc.linked i).cursor h₁
      have hfst : ((cells i).map (gottenCell u key id raiseEvents)).map Prod.fst =
          (cells i).map Prod.fst := by
        rw [List.map_map]
        rfl
      rw [List.nil_append] at hlinked
      have hupdate := hc.update hlinked (fun b hb _ _ => hframe b hb) (i := i) (fun b hb => Or.inl (hfst ▸ hb))
      rw [Function.update_eq_self] at hupdate
      convert ih hnd hupdate h using 1
      funext j
      by_cases hj : j = i
      · subst hj
        simp [hnot]
      · simp [hj]

theorem markBuckets_isSome {fuel : Nat} {hs : List Nat} (hnd : hs.Nodup) (hc : Chained heap bucket cells)
    (hfuel : ∀ h, (cells h).length < fuel) :
    (hs.foldlM (fun heap h => markBucket u key id raiseEvents fuel heap (bucket h)) heap).isSome := by
  induction hs generalizing heap cells with
  | nil => rfl
  | cons i hs ih =>
      obtain ⟨hnot, hnd⟩ := List.nodup_cons.mp hnd
      obtain ⟨heap₁, h₁⟩ : ∃ heap₁, markBucket u key id raiseEvents fuel heap (bucket i) = some heap₁ :=
        Option.isSome_iff_exists.mp (markBucket_isSome (hc.linked i).cursor (hfuel i))
      have hone : [i].foldlM (fun heap h => markBucket u key id raiseEvents fuel heap (bucket h)) heap =
          some heap₁ := by simp [h₁]
      rw [List.foldlM_cons, h₁]
      apply ih hnd (chained_markBuckets (List.nodup_singleton i) hc hone)
      intro h
      split
      · simpa using hfuel h
      · exact hfuel h

theorem represents_getPerflow [Macros] {fuel : Nat} (h : Represents s t)
    (hs : s.getPerflow fuel u key id raiseEvents = some s') :
    Represents s' (t.gotten u key id raiseEvents (List.range Macros.bucketSize)) := by
  obtain ⟨heap', hmark, rfl⟩ := Option.map_eq_some_iff.mp hs
  obtain ⟨cells, hc, rfl⟩ := h
  refine ⟨_, chained_markBuckets List.nodup_range hc hmark, ?_⟩
  simp only [Tables.gotten, Tables.mk.injEq, and_true]
  funext j
  split
  · rw [List.map_map, List.map_map]
    rfl
  · rfl

theorem getPerflow_isSome [Macros] {fuel : Nat} (h : Represents s t)
    (hfuel : ∀ h, (t.bucket h).length < fuel) : (s.getPerflow fuel u key id raiseEvents).isSome := by
  obtain ⟨cells, hc, rfl⟩ := h
  rw [Chains.getPerflow, Option.isSome_map]
  exact markBuckets_isSome List.nodup_range hc (by simpa using hfuel)

end Get

/-! ## A deletion -/

section Del

variable {key : PerflowKey} {id : BitVec 32}

theorem delConnection_eq (heap : Heap Connection) (head : Option Nat) (a : Nat) :
    delConnection heap head a = (heap.unlink head a).map fun result => (result.1.free a, result.2) := by
  rw [delConnection, Heap.unlink]
  cases heap a with
  | none => rfl
  | some node =>
      obtain ⟨prev, next, val⟩ := node
      cases prev with
      | none => simp [Heap.setNext, Option.map_map, Function.comp_def]
      | some prev =>
          cases next with
          | none => cases hset : heap.setNext (some prev) none <;> simp [Heap.setPrev, hset]
          | some next => simp [Option.map_map, Function.comp_def]

/-- A cell that stays. -/
def staysCell (key : PerflowKey) (cell : Nat × Connection) : Bool := !delSelects key cell.2

theorem linked_delBucket {fuel : Nat} {head head' curr : Option Nat} {pre post : List (Nat × Connection)}
    (hcursor : heap.Cursor head pre curr post)
    (h : delBucket key id fuel heap head curr = some (heap', head')) :
    heap'.Linked head' (pre ++ post.filter (staysCell key)) ∧
      ∀ b, b ∉ (pre ++ post).map Prod.fst → heap' b = heap b := by
  induction fuel generalizing heap head pre curr post with
  | zero => cases h
  | succ fuel ih =>
      cases curr with
      | none =>
          cases h
          obtain rfl := hcursor.done
          exact ⟨by simpa using hcursor.linked, fun _ _ => rfl⟩
      | some curr =>
          obtain ⟨node, rest, hnode, rfl⟩ := hcursor.here
          rw [delBucket, hnode, Option.bind_some] at h
          by_cases hsel : delSelects key node.val
          · rw [if_pos hsel] at h
            have hmarked := hcursor.setVal hnode { node.val with gotten := id }
            obtain ⟨heap₁, head₁, h₁, hunlinked₁, hframe₁⟩ := hmarked.unlink (Heap.store_self ..)
            obtain ⟨heap₂, h₂, hunlinked₂, hframe₂⟩ := hunlinked₁.unlink
            obtain ⟨result, hresult, h⟩ := Option.bind_eq_some_iff.mp h
            cases h₁.symm.trans hresult
            dsimp only at h
            rw [delConnection_eq, h₂, Option.map_some, Option.bind_some] at h
            obtain ⟨hlinked, hframe⟩ := ih hunlinked₂.free h
            refine ⟨?_, fun b hb => ?_⟩
            · simpa [staysCell, hsel] using hlinked
            · have hne : b ≠ curr := by
                rintro rfl
                exact hb (by simp)
              have hb' : b ∉ (pre ++ rest).map Prod.fst := fun hmem => hb (by
                simp only [List.map_append, List.map_cons, List.mem_append, List.mem_cons] at hmem ⊢
                tauto)
              rw [hframe b hb', Heap.free, Function.update_of_ne hne, hframe₂ b hb', hframe₁ b hb',
                Heap.store_of_ne _ hne]
          · rw [if_neg hsel] at h
            obtain ⟨hlinked, hframe⟩ := ih (hcursor.next hnode) h
            refine ⟨?_, fun b hb => ?_⟩
            · simpa [staysCell, hsel] using hlinked
            · exact hframe b (by simpa using hb)

theorem delBucket_isSome {fuel : Nat} {head curr : Option Nat} {pre post : List (Nat × Connection)}
    (hcursor : heap.Cursor head pre curr post) (hfuel : post.length < fuel) :
    (delBucket key id fuel heap head curr).isSome := by
  induction fuel generalizing heap head pre curr post with
  | zero => simp at hfuel
  | succ fuel ih =>
      cases curr with
      | none => simp [delBucket]
      | some curr =>
          obtain ⟨node, rest, hnode, rfl⟩ := hcursor.here
          have hlt : rest.length < fuel := by simpa using hfuel
          rw [delBucket, hnode, Option.bind_some]
          by_cases hsel : delSelects key node.val
          · rw [if_pos hsel]
            have hmarked := hcursor.setVal hnode { node.val with gotten := id }
            obtain ⟨heap₁, head₁, h₁, hunlinked₁, -⟩ := hmarked.unlink (Heap.store_self ..)
            obtain ⟨heap₂, h₂, hunlinked₂, -⟩ := hunlinked₁.unlink
            dsimp only
            rw [h₁, Option.bind_some]
            dsimp only
            rw [delConnection_eq, h₂, Option.map_some, Option.bind_some]
            exact ih hunlinked₂.free hlt
          · rw [if_neg hsel]
            exact ih (hcursor.next hnode) hlt

theorem represents_delBuckets {fuel : Nat} {hs : List Nat} (hnd : hs.Nodup) (h : Represents s t)
    (hstep : hs.foldlM (fun s h => (delBucket key id fuel s.heap (s.bucket h) (s.bucket h)).map
      fun (heap, head) => { s with heap := heap, bucket := Function.update s.bucket h head }) s = some s') :
    Represents s' { t with bucket := fun h =>
      if h ∈ hs then (t.bucket h).filter fun curr => !delSelects key curr else t.bucket h } := by
  induction hs generalizing s t with
  | nil =>
      cases hstep
      simpa using h
  | cons i hs ih =>
      obtain ⟨hnot, hnd⟩ := List.nodup_cons.mp hnd
      obtain ⟨s₁, h₁, hstep⟩ := Option.bind_eq_some_iff.mp hstep
      obtain ⟨⟨heap₁, head₁⟩, hdel, rfl⟩ := Option.map_eq_some_iff.mp h₁
      obtain ⟨cells, hc, rfl⟩ := h
      obtain ⟨hlinked, hframe⟩ := linked_delBucket (hc.linked i).cursor hdel
      have hfilter : ((cells i).filter (staysCell key)).map Prod.snd =
          ((cells i).map Prod.snd).filter fun curr => !delSelects key curr := by
        rw [List.filter_map]
        rfl
      have hupdate := hc.update hlinked (fun b hb _ _ => hframe b hb) (i := i) fun b hb =>
        Or.inl (((List.filter_sublist).map _).subset hb)
      convert ih hnd ⟨_, hupdate, rfl⟩ hstep using 1
      simp only [Tables.mk.injEq, and_true]
      funext j
      by_cases hj : j = i
      · subst hj
        simp [hnot, hfilter]
      · simp [hj]

theorem delBuckets_isSome {fuel : Nat} {hs : List Nat} (hnd : hs.Nodup) (h : Represents s t)
    (hfuel : ∀ h, (t.bucket h).length < fuel) :
    (hs.foldlM (fun s h => (delBucket key id fuel s.heap (s.bucket h) (s.bucket h)).map
      fun (heap, head) => { s with heap := heap, bucket := Function.update s.bucket h head }) s).isSome := by
  induction hs generalizing s t with
  | nil => rfl
  | cons i hs ih =>
      obtain ⟨hnot, hnd⟩ := List.nodup_cons.mp hnd
      have hdel : (delBucket key id fuel s.heap (s.bucket i) (s.bucket i)).isSome := by
        obtain ⟨cells, hc, ht⟩ := h
        apply delBucket_isSome (hc.linked i).cursor
        have hlt := hfuel i
        rw [ht] at hlt
        simpa using hlt
      obtain ⟨⟨heap₁, head₁⟩, hdel⟩ := Option.isSome_iff_exists.mp hdel
      have hone : [i].foldlM (fun s h => (delBucket key id fuel s.heap (s.bucket h) (s.bucket h)).map
          fun (heap, head) => { s with heap := heap, bucket := Function.update s.bucket h head }) s =
          some { s with heap := heap₁, bucket := Function.update s.bucket i head₁ } := by simp [hdel]
      rw [List.foldlM_cons, hdel]
      apply ih hnd (represents_delBuckets (List.nodup_singleton i) h hone)
      intro h
      dsimp only
      split
      · exact lt_of_le_of_lt (List.length_filter_le ..) (hfuel h)
      · exact hfuel h

theorem represents_delPerflow [Macros] {fuel : Nat} (h : Represents s t)
    (hs : s.delPerflow fuel key id = some s') : Represents s' (localDelPerflow key t).1 := by
  have hdel := represents_delBuckets List.nodup_range h hs
  simpa only [List.mem_range, localDelPerflow] using hdel

theorem delPerflow_isSome [Macros] {fuel : Nat} (h : Represents s t)
    (hfuel : ∀ h, (t.bucket h).length < fuel) : (s.delPerflow fuel key id).isSome :=
  delBuckets_isSome List.nodup_range h hfuel

end Del

/-! ## All calls -/

/-- The table in memory does what the lists do. -/
theorem represents_step [Macros] [Serializer] {fuel : Nat} {a : TableAction} (h : Represents s t)
    (hs : s.step fuel a = some s') : Represents s' (t.call a) := by
  cases a with
  | packet pi addr => exact represents_cxTrack h hs
  | getPerflow u key id raiseEvents => exact represents_getPerflow h hs
  | putPerflow key state addr =>
      cases state with
      | none =>
          cases hs
          exact h
      | some state =>
          obtain ⟨cells, hc, rfl⟩ := id h
          exact represents_pushed h hs
  | delPerflow key id => exact represents_delPerflow h hs

/-- A call gives a table where a walk can reach the end of every bucket and a connection is allocated at an
address that is not in use: none accesses memory that is not allocated. -/
theorem step_isSome [Macros] [Serializer] {fuel : Nat} {a : TableAction} (h : Represents s t)
    (hfuel : ∀ h, (t.bucket h).length < fuel) (ha : ∀ addr, a.allocates addr → s.heap addr = none) :
    (s.step fuel a).isSome := by
  cases a with
  | packet pi addr => exact cxTrack_isSome h (hfuel _) (ha addr rfl)
  | getPerflow u key id raiseEvents => exact getPerflow_isSome h hfuel
  | putPerflow key state addr =>
      cases state with
      | none => rfl
      | some state => exact pushed_isSome _ h (ha addr rfl)
  | delPerflow key id => exact delPerflow_isSome h hfuel

end OFM.Prads
