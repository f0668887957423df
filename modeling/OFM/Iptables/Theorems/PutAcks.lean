import OFM.Bro.Theorems.PutAcks
import OFM.Iptables.Conntrack

/-!
# When the acks of puts are true

An ack says that the middlebox holds what has been put, and an error that nothing has changed.
-/

namespace OFM.Iptables
open OFM.Shared
open OFM.Controller (JsonObject)

variable {τ ρ : Type} [DecidableEq τ] {invert : τ → τ} {env : Environment} {ct : Conntrack τ ρ}
  {table : Table τ ρ}

/-! ## iptables -/

/-- The table has the connection, as it is created. -/
def Holds (invert : τ → τ) (ct : Conntrack τ ρ) (table : Table τ ρ) : Prop :=
  table ct.orig = some (ct.recovered invert)

/-- What is asked of the libraries and of `errno` for the connection to be in the table in the end. -/
def Installs (invert : τ → τ) (env : Environment) (ct : Conntrack τ ρ) (table : Table τ ρ) : Prop :=
  if table ct.orig = none then
    env.nfctClone = true ∧ env.create = none ∧
      (env.errno = .eexist → env.destroy = none → env.createAgain = none)
  else if env.nfctClone = true ∧ env.create = none ∧ env.destroy = none then env.createAgain = none
  else Holds invert ct table

omit [DecidableEq τ] in
@[simp] theorem orig_recovered (ct : Conntrack τ ρ) : (ct.recovered invert).orig = ct.orig := rfl

/-- Of a connection that is not in the table: it is created, unless it is destroyed for an old `errno` and
not created again. -/
theorem holds_of_absent (hclone : env.nfctClone = true) (habsent : table ct.orig = none) :
    Holds invert ct (nlCreateConntrack invert env ct table).1 ↔
      env.create = none ∧ (env.errno = .eexist → env.destroy = none → env.createAgain = none) := by
  cases hcreate : env.create with
  | some n => simp [nlCreateConntrack, nlCreateConntrackBy, Environment.queries, nfctCreate, hclone, hcreate, Holds, habsent]
  | none =>
      by_cases herrno : env.errno = .eexist
      · cases hdestroy : env.destroy with
        | some n =>
            simp [nlCreateConntrack, nlCreateConntrackBy, Environment.queries, nfctCreate, nlDestroyConntrack, hclone, hcreate, hdestroy, Holds, habsent,
              herrno]
        | none =>
            cases hagain : env.createAgain <;>
              simp [nlCreateConntrack, nlCreateConntrackBy, Environment.queries, nfctCreate, nlDestroyConntrack, hclone, hcreate, hdestroy, hagain,
                Holds, habsent, herrno]
      · simp [nlCreateConntrack, nlCreateConntrackBy, Environment.queries, nfctCreate, hclone, hcreate, Holds, habsent, herrno]

/-- Of a connection that is in the table: what is there is destroyed and the connection created again, or
it stays. -/
theorem holds_of_present (hclone : env.nfctClone = true) {old : Conntrack τ ρ} (hold : table ct.orig = some old) :
    Holds invert ct (nlCreateConntrack invert env ct table).1 ↔
      if env.create = none ∧ env.destroy = none then env.createAgain = none else Holds invert ct table := by
  cases hcreate : env.create with
  | some n => simp [nlCreateConntrack, nlCreateConntrackBy, Environment.queries, nfctCreate, hclone, hcreate, Holds]
  | none =>
      cases hdestroy : env.destroy with
      | some n =>
          simp [nlCreateConntrack, nlCreateConntrackBy, Environment.queries, nfctCreate, nlDestroyConntrack, hclone, hcreate, hdestroy, Holds, hold]
      | none =>
          cases hagain : env.createAgain <;>
            simp [nlCreateConntrack, nlCreateConntrackBy, Environment.queries, nfctCreate, nlDestroyConntrack, hclone, hcreate, hdestroy, hagain, Holds,
              hold]

theorem holds_nlCreateConntrack_iff :
    Holds invert ct (nlCreateConntrack invert env ct table).1 ↔ Installs invert env ct table := by
  cases hclone : env.nfctClone with
  | false => cases hold : table ct.orig <;> simp [nlCreateConntrack, nlCreateConntrackBy, Installs, Holds, hclone, hold]
  | true =>
      cases hold : table ct.orig with
      | none =>
          rw [holds_of_absent hclone hold, Installs, if_pos hold]
          simp [hclone]
      | some old =>
          have hne : table ct.orig ≠ none := by simp [hold]
          rw [holds_of_present hclone hold, Installs, if_neg hne]
          simp [hclone]

/-- What the state of a message stands for. -/
def decoded (parsePayload : List (BitVec 8) → Parsed τ ρ) (msg : JsonObject) : Option (Conntrack τ ρ) :=
  msg.state.bind fun state =>
    match parsePayload (sdmbnBase64Decode (cText state)) with
    | .ok ct => some ct
    | _ => none

/-- What is asked of a put for its answer to be true. -/
structure Honest (invert : τ → τ) (parsePayload : List (BitVec 8) → Parsed τ ρ) (env : Environment)
    (msg : JsonObject) (table : Table τ ρ) : Prop where
  /-- What is turned down before it is decoded is not in the table already. -/
  refused : ¬ (Complete msg ∧ env.nfctOpen = true) → ∀ ct ∈ decoded parsePayload msg, ¬ Holds invert ct table
  /-- There is memory for the block, and it is not left. -/
  read : Complete msg → env.nfctOpen = true → env.malloc = true ∧
    ∀ state ∈ msg.state, parsePayload (sdmbnBase64Decode (cText state)) ≠ .crashed
  installs : Complete msg → env.nfctOpen = true →
    ∀ ct ∈ decoded parsePayload msg, Installs invert env ct table

variable {parsePayload : List (BitVec 8) → Parsed τ ρ}

/-- The answer to a put of iptables is true if and only if nothing goes wrong that is not noticed. -/
theorem truthful_localPutPerflow_iff (msg : JsonObject) (id : Int) :
    Truthful (decoded parsePayload msg) (Holds invert) table
        (handlePutPerflow (some (localPutPerflow invert parsePayload env)) msg id table) ↔
      Honest invert parsePayload env msg table := by
  by_cases hc : Complete msg
  · obtain ⟨hashkey, key, state, hh, hk, hs⟩ := hc.parts
    rw [truthful_of_complete hh hk hs]
    cases hopen : env.nfctOpen with
    | false =>
        have hrefused : Honest invert parsePayload env msg table ↔
            ¬ ∃ ct ∈ decoded parsePayload msg, Holds invert ct table := by
          constructor
          · rintro h ⟨ct, hct, hheld⟩
            exact h.refused (by simp [hopen]) ct hct hheld
          · intro h
            exact ⟨fun _ ct hct hheld => h ⟨ct, hct, hheld⟩, fun _ ho => by simp [hopen] at ho,
              fun _ ho => by simp [hopen] at ho⟩
        rw [hrefused]
        simp [localPutPerflow, localPutPerflowBy, hopen]
    | true =>
        have honest_iff : Honest invert parsePayload env msg table ↔ (env.malloc = true ∧
            parsePayload (sdmbnBase64Decode (cText state)) ≠ .crashed) ∧
              ∀ ct ∈ decoded parsePayload msg, Installs invert env ct table := by
          constructor
          · intro h
            obtain ⟨hmalloc, hread⟩ := h.read hc hopen
            exact ⟨⟨hmalloc, hread state hs⟩, h.installs hc hopen⟩
          · rintro ⟨⟨hmalloc, hread⟩, hinstalls⟩
            refine ⟨fun hnot => absurd ⟨hc, hopen⟩ hnot, fun _ _ => ⟨hmalloc, fun state' hs' => ?_⟩,
              fun _ _ => hinstalls⟩
            rw [hs, Option.mem_some_iff] at hs'
            exact hs' ▸ hread
        rw [honest_iff]
        cases hmalloc : env.malloc with
        | false => simp [localPutPerflow, localPutPerflowBy, hopen, hmalloc]
        | true =>
            cases hparse : parsePayload (sdmbnBase64Decode (cText state)) with
            | crashed => simp [localPutPerflow, localPutPerflowBy, hopen, hmalloc, hparse]
            | failed => simp [localPutPerflow, localPutPerflowBy, hopen, hmalloc, hparse, decoded, hs]
            | ok ct =>
                simp [localPutPerflow, localPutPerflowBy, hopen, hmalloc, hparse, decoded, hs, ← holds_nlCreateConntrack_iff,
                  nlCreateConntrack]
  · rw [truthful_of_not_complete hc]
    constructor
    · intro h
      exact ⟨fun _ ct hct hheld => h ⟨ct, hct, hheld⟩, fun h => absurd h hc, fun h => absurd h hc⟩
    · rintro h ⟨ct, hct, hheld⟩
      exact h.refused (fun h => hc h.1) ct hct hheld

/-! ## Both middleboxes -/

/-- For iptables and for Bro, whatever fails and whatever is there before: the answer to a put is true if
and only if nothing goes wrong that is not noticed. -/
theorem acks_iff [Bro.TextArchive] (invert : τ → τ) (parsePayload : List (BitVec 8) → Parsed τ ρ)
    (env : Environment) (table : Table τ ρ) (toText : List (BitVec 8) → Bro.Text) (input : Bro.DecodeInput)
    (s : Bro.NetSessions) (msg : JsonObject) (id : Int) :
    (Truthful (decoded parsePayload msg) (Holds invert) table
        (handlePutPerflow (some (localPutPerflow invert parsePayload env)) msg id table) ↔
      Honest invert parsePayload env msg table) ∧
    (Truthful (Bro.decoded toText input msg) Bro.NetSessions.Holds s
        (handlePutPerflow (some fun _ _ state s => Bro.localPutPerflow input (toText state) s) msg id s) ↔
      Bro.Honest toText input msg s) :=
  ⟨truthful_localPutPerflow_iff msg id, Bro.truthful_localPutPerflow_iff msg id⟩

/-! ## A sample -/

/-- A put of a connection that nothing is known about. -/
def samplePut : JsonObject :=
  { JsonObject.new .putPerflow with hashkey := some 1, key := some .new, state := some [] }

/-- A connection whose creation is turned down. -/
def turnedDown : Environment := ⟨true, true, true, .other 0, some 12, none, none⟩

/-- The ack says that it is there. -/
theorem not_truthful_turnedDown : ¬ Truthful
    (decoded (fun _ => Parsed.ok (⟨(), none, none, none, none, ()⟩ : Conntrack Unit Unit)) samplePut) (Holds id)
    (fun _ => none) (handlePutPerflow (some (localPutPerflow id
      (fun _ => Parsed.ok (⟨(), none, none, none, none, ()⟩ : Conntrack Unit Unit)) turnedDown)) samplePut 1
        fun _ => none) := by
  rw [truthful_localPutPerflow_iff]
  intro h
  have hinstalls := h.installs (by decide) rfl ⟨(), none, none, none, none, ()⟩ rfl
  rw [Installs, if_pos rfl] at hinstalls
  exact nomatch hinstalls.2.1

end OFM.Iptables
