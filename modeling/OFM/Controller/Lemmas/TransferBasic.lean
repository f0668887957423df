import OFM.Controller.Transfer

/-!
# Puts, and what one chunk puts
-/

namespace OFM.Controller
open OFM.Lib

/-! ## Kinds of commands -/

/-- A command asks for state, puts state, or asks for events. -/
theorem Command.kind_cases (cmd : Command) :
    cmd.getClass ≠ none ∨ cmd.putContent ≠ none ∨ cmd.isToggle = true := by
  cases cmd <;> simp [getClass, putContent, isToggle]

theorem Command.of_put {cmd : Command} (h : cmd.putContent ≠ none) :
    cmd.getClass = none ∧ cmd.isToggle = false := by
  cases cmd <;> first | exact ⟨rfl, rfl⟩ | exact absurd rfl h

theorem Command.of_get {cmd : Command} (h : cmd.getClass ≠ none) :
    cmd.putContent = none ∧ cmd.isToggle = false := by
  cases cmd <;> first | exact ⟨rfl, rfl⟩ | exact absurd rfl h

theorem Command.of_toggle {cmd : Command} (h : cmd.isToggle = true) :
    cmd.putContent = none ∧ cmd.getClass = none := by
  cases cmd <;> first | exact ⟨rfl, rfl⟩ | cases h

/-! ## Effects and messages -/

@[simp] theorem puts_nil : puts [] = 0 := rfl

@[simp] theorem puts_append (out out' : List Effect) : puts (out ++ out') = puts out + puts out' := by
  simp only [puts, List.filterMap_append, ← Multiset.coe_add]

theorem puts_eq_zero {out : List Effect}
    (h : ∀ mb cmd, .send mb cmd ∈ out → cmd.putContent = none) : puts out = 0 := by
  rw [puts, Multiset.coe_eq_zero, List.filterMap_eq_nil_iff]
  intro e he
  split
  · rw [h _ _ he]; rfl
  · rfl

theorem mem_puts {out : List Effect} {mb : Middlebox} {c : Content} :
    (mb, c) ∈ puts out ↔ ∃ cmd, .send mb cmd ∈ out ∧ cmd.putContent = some c := by
  simp only [puts, Multiset.mem_coe, List.mem_filterMap]
  constructor
  · rintro ⟨e, he, hx⟩
    split at hx
    · simp only [Option.map_eq_some_iff, Prod.mk.injEq] at hx
      obtain ⟨c', hc, rfl, rfl⟩ := hx
      exact ⟨_, he, hc⟩
    · cases hx
  · rintro ⟨cmd, he, hc⟩
    exact ⟨_, he, by simp [hc]⟩

@[simp] theorem putsIn_nil : putsIn [] = 0 := rfl

@[simp] theorem putsIn_append (cmds cmds' : List Command) :
    putsIn (cmds ++ cmds') = putsIn cmds + putsIn cmds' := by
  simp only [putsIn, List.filterMap_append, ← Multiset.coe_add]

@[simp] theorem commandsTo_nil (mb : Middlebox) : commandsTo mb [] = [] := rfl

@[simp] theorem commandsTo_append (mb : Middlebox) (out out' : List Effect) :
    commandsTo mb (out ++ out') = commandsTo mb out ++ commandsTo mb out' := List.filterMap_append

theorem mem_commandsTo {mb : Middlebox} {out : List Effect} {cmd : Command} :
    cmd ∈ commandsTo mb out ↔ .send mb cmd ∈ out := by
  simp only [commandsTo, List.mem_filterMap]
  constructor
  · rintro ⟨e, he, hx⟩
    split at hx
    · split at hx
      · rename_i hmb
        cases hx
        exact hmb ▸ he
      · cases hx
    · cases hx
  · intro he
    exact ⟨_, he, by simp⟩

/-- The puts on the way to a middlebox are those that are sent to it. -/
theorem putsIn_commandsTo {mb : Middlebox} {out : List Effect} (h : ∀ x ∈ puts out, x.1 = mb) :
    putsIn (commandsTo mb out) = (puts out).map Prod.snd := by
  induction out with
  | nil => rfl
  | cons e out ih =>
      have hsplit : puts (e :: out) = puts [e] + puts out := puts_append [e] out
      have hcmds : commandsTo mb (e :: out) = commandsTo mb [e] ++ commandsTo mb out :=
        commandsTo_append mb [e] out
      rw [hsplit] at h ⊢
      rw [hcmds, putsIn_append, Multiset.map_add, ih fun x hx => h x (Multiset.mem_add.mpr (Or.inr hx))]
      congr 1
      cases e with
      | send mb' cmd =>
          cases hc : cmd.putContent with
          | none =>
              by_cases hmb : mb' = mb <;> simp [puts, commandsTo, putsIn, hc, hmb]
          | some c =>
              have hmb : mb' = mb :=
                h (mb', c) (Multiset.mem_add.mpr (Or.inl (by simp [puts, hc])))
              simp [puts, commandsTo, putsIn, hc, hmb]
      | _ => rfl

@[simp] theorem statesIn_append (msgs msgs' : List (Middlebox × Message)) :
    statesIn (msgs ++ msgs') = statesIn msgs + statesIn msgs' := by
  simp only [statesIn, List.filterMap_append, ← Multiset.coe_add]

@[simp] theorem getAcksIn_append (msgs msgs' : List (Middlebox × Message)) :
    getAcksIn (msgs ++ msgs') = getAcksIn msgs + getAcksIn msgs' := by
  simp only [getAcksIn, List.filterMap_append, ← Multiset.coe_add]

@[simp] theorem putAcksIn_append (msgs msgs' : List (Middlebox × Message)) :
    putAcksIn (msgs ++ msgs') = putAcksIn msgs + putAcksIn msgs' := by
  simp only [putAcksIn, List.filterMap_append, ← Multiset.coe_add]

theorem mem_statesIn {msgs : List (Middlebox × Message)} {mb : Middlebox} {msg : StateMessage}
    (h : (mb, .state msg) ∈ msgs) : msg.content ∈ statesIn msgs :=
  List.mem_filterMap.mpr ⟨_, h, rfl⟩

theorem mem_getAcksIn {msgs : List (Middlebox × Message)} {mb : Middlebox} {cls : StateClass}
    {count : Int} (h : (mb, .getAck cls count) ∈ msgs) : cls ∈ getAcksIn msgs :=
  List.mem_filterMap.mpr ⟨_, h, rfl⟩

theorem mem_putAcksIn {msgs : List (Middlebox × Message)} {mb : Middlebox} {cls : StateClass}
    {hashkey : Int} (h : (mb, .putAck cls hashkey) ∈ msgs) : (cls, hashkey) ∈ putAcksIn msgs :=
  List.mem_filterMap.mpr ⟨_, h, rfl⟩

theorem StateMessage.toPut_content {msg : StateMessage} {putMsg : PutMessage}
    (h : msg.toPut = some putMsg) : putMsg.content = msg.content := by
  cases msg <;> cases h <;> rfl

theorem StateMessage.toPut_eq_none {msg : StateMessage} (h : msg.toPut = none) :
    msg.cls = .config := by
  cases msg <;> first | rfl | cases h

/-- A chunk that has just been stored puts what it was given. -/
theorem puts_stored (chunk : StateChunk) {msg : StateMessage} (dst : Middlebox)
    (h : msg.cls ≠ .config) :
    puts (chunk.storeStateMessage msg [dst]).call.out = {(dst, msg.content)} := by
  cases hp : msg.toPut with
  | none => exact absurd (StateMessage.toPut_eq_none hp) h
  | some putMsg =>
      simp [StateChunk.call, StateChunk.storeStateMessage, hp, puts, Command.putContent,
        StateMessage.toPut_content hp]

theorem puts_flatMap {α : Type} (l : List α) (f : α → List Effect) :
    puts (l.flatMap f) = (l.map fun x => puts (f x)).sum := by
  induction l with
  | nil => rfl
  | cons x l ih => rw [List.flatMap_cons, puts_append, ih, List.map_cons, List.sum_cons]

@[simp] theorem chunkTasks_append_chunk (pool : List Task) (ref : ChunkRef) :
    chunkTasks (pool ++ [.chunk ref]) = chunkTasks pool ++ [ref] := by
  simp [chunkTasks]

@[simp] theorem chunkTasks_append_event (pool : List Task) (event : ReprocessEvent) :
    chunkTasks (pool ++ [.event event]) = chunkTasks pool := by
  simp [chunkTasks]

theorem chunkTasks_eraseIdx_event {pool : List Task} {i : Nat} {event : ReprocessEvent}
    (h : pool[i]? = some (.event event)) : chunkTasks (pool.eraseIdx i) = chunkTasks pool := by
  obtain ⟨hi, hx⟩ := List.getElem?_eq_some_iff.mp h
  conv_rhs => rw [← List.take_append_drop i pool, List.drop_eq_getElem_cons hi, hx]
  simp [chunkTasks, List.eraseIdx_eq_take_drop_succ]

theorem chunkTasks_eraseIdx_chunk {pool : List Task} {i : Nat} {ref : ChunkRef}
    (h : pool[i]? = some (.chunk ref)) :
    ∃ l₁ l₂, chunkTasks pool = l₁ ++ ref :: l₂ ∧ chunkTasks (pool.eraseIdx i) = l₁ ++ l₂ := by
  obtain ⟨hi, hx⟩ := List.getElem?_eq_some_iff.mp h
  refine ⟨chunkTasks (pool.take i), chunkTasks (pool.drop (i + 1)), ?_, ?_⟩
  · conv_lhs => rw [← List.take_append_drop i pool, List.drop_eq_getElem_cons hi, hx]
    simp [chunkTasks]
  · simp [chunkTasks, List.eraseIdx_eq_take_drop_succ]

/-- Updating one chunk of an operation without changing what it puts. -/
theorem puts_setChunk {op : Operation} {ref : ChunkRef} {chunk : StateChunk}
    (hmsg : chunk.msg = (op.stateChunks ref).msg) (hdsts : chunk.dsts = (op.stateChunks ref).dsts)
    (ref' : ChunkRef) :
    puts ((op.setChunk ref chunk).stateChunks ref').call.out =
      puts (op.stateChunks ref').call.out := by
  by_cases h : ref' = ref
  · subst h
    simp [Operation.setChunk, StateChunk.call, hmsg, hdsts]
  · simp [Operation.setChunk, Function.update_of_ne h]

/-- Storing a message changes what its chunk puts. -/
theorem puts_setChunk_stored {op : Operation} {ref : ChunkRef} {msg : StateMessage}
    {dst : Middlebox} (h : msg.cls ≠ .config) :
    (fun ref' => puts ((op.setChunk ref
      ((op.stateChunks ref).storeStateMessage msg [dst])).stateChunks ref').call.out) =
    Function.update (fun ref' => puts (op.stateChunks ref').call.out) ref {(dst, msg.content)} := by
  funext ref'
  by_cases hr : ref' = ref
  · subst hr
    simp [Operation.setChunk, puts_stored _ dst h]
  · simp [Operation.setChunk, Function.update_of_ne hr]

theorem Operation.Smooth.setChunk [PacketUtil] {op : Operation} (h : op.Smooth) {ref : ChunkRef}
    {chunk : StateChunk} (hc : ∀ event ∈ chunk.eventsList, event.Releases) :
    (op.setChunk ref chunk).Smooth := by
  intro ref' event he
  by_cases hr : ref' = ref
  · subst hr
    exact hc event (by simpa [Operation.setChunk] using he)
  · exact h ref' event (by simpa [Operation.setChunk, Function.update_of_ne hr] using he)

/-- What is left of a queue was in it. -/
theorem StateChunk.mem_processAll [PacketUtil] {events : List ReprocessEvent}
    {event : ReprocessEvent} (h : event ∈ (StateChunk.processAll events).val.1) :
    event ∈ events := by
  rcases StateChunk.processAll_cases events with ⟨he, -⟩ | ⟨pre, e, rest, x, rfl, -, he⟩
  · rw [he] at h; cases h
  · rw [he] at h
    exact List.mem_append_right _ (List.mem_cons_of_mem _ h)

end OFM.Controller
