import OFM.Shared.Json
import OFM.Shared.PerflowKey
import OFM.Shared.Theorems.Blobs

/-!
# Puts and gets of per-flow state

`handle_put_perflow` and `handle_get_perflow` of `state.c`, for any middlebox, and when what a put sends is true.
-/

namespace OFM.Shared
open OFM.Controller (JsonObject JavaString utf16)

/-! ## Puts -/

def errorMalformed : JavaString := utf16 "malformed".toList
def errorUnsupported : JavaString := utf16 "unsupported".toList
def errorInternal : JavaString := utf16 "internal-failure".toList

/-- `put_perflow` of `SDMBNLocals`, with the state of the middlebox. The process may come to an end. -/
abbrev PutFunction (ε σ : Type) := BitVec 32 → PerflowKey → List (BitVec 8) → σ → Except ε (σ × Int)

section Handle

variable {ε σ α : Type}

/-- `handle_put_perflow`: the middlebox afterwards, what is sent, and the result. -/
def handlePutPerflow (putPerflow : Option (PutFunction ε σ)) (msg : JsonObject) (id : Int) (s : σ) :
    Except ε (σ × List JsonObject × Int) :=
  match putPerflow with
  | none => .ok (s, [jsonComposeError id (-1) errorUnsupported], -1)
  | some putPerflow =>
      match msg.hashkey with
      | none => .ok (s, [jsonComposeError id (-1) errorMalformed], -1)
      | some hashkeyField =>
          let hashkey := jsonObjectGetInt hashkeyField
          match msg.key with
          | none => .ok (s, [jsonComposeError id hashkey.toInt errorMalformed], -1)
          | some keyField =>
              match msg.state with
              | none => .ok (s, [jsonComposeError id hashkey.toInt errorMalformed], -1)
              | some state =>
                  match putPerflow hashkey (jsonParsePerflowKey keyField) (cText state) s with
                  | .error halt => .error halt
                  | .ok (s, result) =>
                      if result < 0 then .ok (s, [jsonComposeError id hashkey.toInt errorInternal], -1)
                      else .ok (s, [jsonComposePutAck .perflow id hashkey.toInt], result)

/-- The message has all that is read of it. -/
def Complete (msg : JsonObject) : Prop :=
  msg.hashkey.isSome = true ∧ msg.key.isSome = true ∧ msg.state.isSome = true

instance (msg : JsonObject) : Decidable (Complete msg) := inferInstanceAs (Decidable (_ ∧ _))

theorem Complete.parts {msg : JsonObject} (h : Complete msg) :
    ∃ hashkey key state, msg.hashkey = some hashkey ∧ msg.key = some key ∧ msg.state = some state := by
  obtain ⟨hh, hk, hs⟩ := h
  obtain ⟨hashkey, hh⟩ := Option.isSome_iff_exists.mp hh
  obtain ⟨key, hk⟩ := Option.isSome_iff_exists.mp hk
  obtain ⟨state, hs⟩ := Option.isSome_iff_exists.mp hs
  exact ⟨hashkey, key, state, hh, hk, hs⟩

/-! ## The truth of an answer -/

/-- There is one answer. It is an ack exactly if the middlebox holds what the state stands for; otherwise it
is an error, and the middlebox is as it was. -/
def Truthful (decoded : Option α) (holds : α → σ → Prop) (s : σ)
    (result : Except ε (σ × List JsonObject × Int)) : Prop :=
  ∃ s' answer n, result = .ok (s', [answer], n) ∧
    (answer.type = .putPerflowAck ↔ ∃ a ∈ decoded, holds a s') ∧
    (answer.type ≠ .putPerflowAck → answer.type = .error ∧ s' = s)

variable {putPerflow : PutFunction ε σ} {msg : JsonObject} {decoded : Option α} {holds : α → σ → Prop}
  {s s' : σ} {id n : Int}

theorem truthful_error_iff {hashkey : Int} {reason : JavaString} :
    Truthful decoded holds s (.ok (s', [jsonComposeError id hashkey reason], n) : Except ε _) ↔
      s' = s ∧ ¬ ∃ a ∈ decoded, holds a s := by
  constructor
  · rintro ⟨s'', answer, n', hok, hack, herror⟩
    cases hok
    obtain rfl := (herror fun h => nomatch h).2
    exact ⟨rfl, fun hheld => nomatch hack.mpr hheld⟩
  · rintro ⟨rfl, hnot⟩
    exact ⟨s', _, n, rfl, ⟨fun h => (nomatch h), fun hheld => absurd hheld hnot⟩, fun _ => ⟨rfl, rfl⟩⟩

theorem truthful_ack_iff {hashkey : Int} :
    Truthful decoded holds s (.ok (s', [jsonComposePutAck .perflow id hashkey], n) : Except ε _) ↔
      ∃ a ∈ decoded, holds a s' := by
  constructor
  · rintro ⟨s'', answer, n', hok, hack, -⟩
    cases hok
    exact hack.mp rfl
  · intro h
    exact ⟨s', _, n, rfl, ⟨fun _ => h, fun _ => rfl⟩, fun hack => absurd rfl hack⟩

theorem not_truthful_halt {halt : ε} :
    ¬ Truthful decoded holds s (.error halt : Except ε (σ × List JsonObject × Int)) := by
  rintro ⟨s', answer, n', hok, -⟩
  cases hok

/-- A message that lacks something is answered truly unless the middlebox holds the state already. -/
theorem truthful_of_not_complete (h : ¬ Complete msg) :
    Truthful decoded holds s (handlePutPerflow (some putPerflow) msg id s) ↔ ¬ ∃ a ∈ decoded, holds a s := by
  have herror : ∀ hashkey, Truthful decoded holds s
      (.ok (s, [jsonComposeError id hashkey errorMalformed], -1) : Except ε _) ↔
        ¬ ∃ a ∈ decoded, holds a s :=
    fun _ => truthful_error_iff.trans (and_iff_right rfl)
  rw [handlePutPerflow]
  cases hh : msg.hashkey with
  | none => exact herror _
  | some hashkey =>
      cases hk : msg.key with
      | none => exact herror _
      | some key =>
          cases hs : msg.state with
          | none => exact herror _
          | some state => simp [Complete, hh, hk, hs] at h

/-- What the function of the middlebox comes to decides about the answer. -/
theorem truthful_of_complete {hashkey : Int} {key : Controller.PerflowKey} {state : JavaString}
    (hh : msg.hashkey = some hashkey) (hk : msg.key = some key) (hs : msg.state = some state) :
    Truthful decoded holds s (handlePutPerflow (some putPerflow) msg id s) ↔
      ∃ s' n, putPerflow (jsonObjectGetInt hashkey) (jsonParsePerflowKey key) (cText state) s = .ok (s', n) ∧
        if n < 0 then s' = s ∧ ¬ ∃ a ∈ decoded, holds a s else ∃ a ∈ decoded, holds a s' := by
  rw [handlePutPerflow]
  simp only [hh, hk, hs]
  cases hput : putPerflow (jsonObjectGetInt hashkey) (jsonParsePerflowKey key) (cText state) s with
  | error halt => simp [not_truthful_halt]
  | ok result =>
      obtain ⟨s', n⟩ := result
      by_cases hn : n < 0
      · simp [hn, truthful_error_iff]
      · simp [hn, truthful_ack_iff]

end Handle

/-! ## Gets -/

/-- What `sdmbn_parse_config` reads about gets. -/
structure SDMBNConfig where
  releaseGetPkts : BitVec 32
  releaseGetFlows : BitVec 32
  maxGetFlows : BitVec 32

/-- One of the two thresholds is in use. -/
def SDMBNConfig.thresholds (config : SDMBNConfig) : Bool :=
  0 < config.releaseGetPkts.toInt || 0 < config.releaseGetFlows.toInt

/-- `sdmbn_init`: whether the lock is taken. -/
def sdmbnInit (config : SDMBNConfig) : Bool := config.thresholds

/-- The members of a command that `handle_get_perflow` reads; a boolean is an int, 0 or 1. -/
structure GetCommand where
  id : Int
  key : Option Controller.PerflowKey
  raiseEvents : Option Int

/-- A get for everything. -/
def anyGet (id : Int) : GetCommand := ⟨id, some .new, some 0⟩

/-- `get_perflow` of `SDMBNLocals`, with the state of the middlebox. The extension is the largest number of
chunks. -/
abbrev GetFunction (σ : Type) :=
  PerflowKey → Int → BitVec 32 → Option (BitVec 32) → σ → σ × Int

section Handle

variable {σ : Type}

/-- What is done before the lock is taken: an answer, or the middlebox to be asked and what for. -/
def openGet (getPerflow : Option (GetFunction σ)) (msg : GetCommand) :
    Except JsonObject (GetFunction σ × PerflowKey × BitVec 32) :=
  match getPerflow with
  | none => .error (jsonComposeError msg.id (-1) errorUnsupported)
  | some getPerflow =>
      match msg.key with
      | none => .error (jsonComposeError msg.id (-1) errorMalformed)
      | some keyField =>
          match msg.raiseEvents with
          | none => .error (jsonComposeError msg.id (-1) errorMalformed)
          | some raiseEvents => .ok (getPerflow, jsonParsePerflowKey keyField, jsonObjectGetInt raiseEvents)

/-- The extensions of a call. -/
def SDMBNConfig.exts (config : SDMBNConfig) : Option (BitVec 32) :=
  if 0 < config.maxGetFlows.toInt then some config.maxGetFlows else none

/-- What is done once the middlebox has answered: what is sent, whether the lock is still taken, and the
result. -/
def closeGet (id count : Int) : JsonObject × Bool × Int :=
  if count < 0 then (jsonComposeError id (-1) errorInternal, true, -1)
  else (jsonComposeGetAck .perflow id count, false, 1)

/-- The lock, and the middlebox. -/
structure GetState (σ : Type) where
  lock : Bool
  middlebox : σ

/-- `handle_get_perflow`: nothing comes of it while the lock is taken. -/
def handleGetPerflow (config : SDMBNConfig) (getPerflow : Option (GetFunction σ)) (msg : GetCommand)
    (s : GetState σ) : Option (GetState σ × JsonObject × Int) :=
  match openGet getPerflow msg with
  | .error answer => some (s, answer, -1)
  | .ok (getPerflow, key, raiseEvents) =>
      if s.lock then none
      else
        let (middlebox, count) := getPerflow key msg.id raiseEvents config.exts s.middlebox
        let (answer, lock, result) := closeGet msg.id count
        some (⟨lock, middlebox⟩, answer, result)

/-- The state after a command. -/
def getStep (config : SDMBNConfig) (getPerflow : Option (GetFunction σ)) (s : GetState σ)
    (msg : GetCommand) : Option (GetState σ) :=
  (handleGetPerflow config getPerflow msg s).map Prod.fst

/-- The middlebox is asked and fails. -/
def LocalGetFails (config : SDMBNConfig) (getPerflow : Option (GetFunction σ)) (s : GetState σ)
    (msg : GetCommand) : Prop :=
  ∃ get key raiseEvents, openGet getPerflow msg = .ok (get, key, raiseEvents) ∧
    (get key msg.id raiseEvents config.exts s.middlebox).2 < 0

end Handle

end OFM.Shared
