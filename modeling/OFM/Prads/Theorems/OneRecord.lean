import OFM.Lib.Machine
import OFM.Prads.Lemmas.Chains

/-!
# One record for each connection

What the table is for: one record for each connection in a bucket, which a put replaces. The table in memory
is that table exactly as long as no put brings a connection that its bucket has.
-/

namespace OFM.Prads
open OFM.Lib OFM.Shared
open OFM.Controller (JavaString)
open Machine

/-! ## Connections -/

/-- An address as its family has it. -/
def In6Addr.seen (af : AddressFamily) (addr : In6Addr) : In6Addr :=
  match af with
  | .inet => ⟨addr.word0, 0, 0, 0⟩
  | .inet6 => addr

/-- What identifies a connection: the 5-tuple, and the family. -/
structure FiveTuple where
  af : AddressFamily
  proto : BitVec 8
  tuple : Tuple
  deriving DecidableEq

def Connection.fiveTuple (c : Connection) : FiveTuple :=
  ⟨c.af, c.proto, ⟨c.sIp.seen c.af, c.sPort, c.dIp.seen c.af, c.dPort⟩⟩

def FiveTuple.reverse (f : FiveTuple) : FiveTuple :=
  { f with tuple := ⟨f.tuple.dIp, f.tuple.dPort, f.tuple.sIp, f.tuple.sPort⟩ }

/-- Two records are of one connection, in one direction or the other. -/
def Connection.Same (c c' : Connection) : Prop :=
  c.fiveTuple = c'.fiveTuple ∨ c.fiveTuple = c'.fiveTuple.reverse

instance (c c' : Connection) : Decidable (c.Same c') := inferInstanceAs (Decidable (_ ∨ _))

/-- What is done to a record does not make it another connection. -/
theorem same_congr {c c' : Connection} (h : c'.fiveTuple = c.fiveTuple) (d : Connection) :
    (c'.Same d ↔ c.Same d) ∧ (d.Same c' ↔ d.Same c) := by
  simp [Connection.Same, h]

/-- No two of the records are of one connection. -/
def OneEach (bucket : List Connection) : Prop := bucket.Pairwise fun c c' => ¬ c.Same c'

instance (bucket : List Connection) : Decidable (OneEach bucket) :=
  inferInstanceAs (Decidable (bucket.Pairwise fun c c' => ¬ c.Same c'))

theorem OneEach.map {bucket : List Connection} (h : OneEach bucket) {f : Connection → Connection}
    (hf : ∀ c, (f c).fiveTuple = c.fiveTuple) : OneEach (bucket.map f) := by
  refine List.pairwise_map.mpr (h.imp fun hne hsame => hne ?_)
  rwa [(same_congr (hf _) _).1, (same_congr (hf _) _).2] at hsame

theorem OneEach.replace {pre post : List Connection} {c c' : Connection} (h : OneEach (pre ++ c :: post))
    (hc : c'.fiveTuple = c.fiveTuple) : OneEach (pre ++ c' :: post) := by
  simp only [OneEach, List.pairwise_append, List.pairwise_cons, List.mem_cons] at h ⊢
  obtain ⟨hpre, ⟨hcpost, hpost⟩, hcross⟩ := h
  refine ⟨hpre, ⟨fun x hx => ?_, hpost⟩, fun x hx y hy => ?_⟩
  · rw [(same_congr hc x).1]
    exact hcpost x hx
  · rcases hy with rfl | hy
    · rw [(same_congr hc x).2]
      exact hcross x hx c (Or.inl rfl)
    · exact hcross x hx y (Or.inr hy)

/-! ## What the table is for -/

structure UniqueTables where
  tables : Tables
  oneEach : ∀ h, OneEach (tables.bucket h)

theorem oneEach_update {t : Tables} (ht : ∀ h, OneEach (t.bucket h)) {i : Nat} {bucket : List Connection}
    (hb : OneEach bucket) (h : Nat) : OneEach (Function.update t.bucket i bucket h) := by
  by_cases hh : h = i
  · subst hh
    rwa [Function.update_self]
  · rw [Function.update_of_ne hh]
    exact ht h

/-- `CMP_CXT4` and `CMP_CXT6` compare addresses and ports. -/
class LawfulMacros [Macros] : Prop where
  cmpCxt4_iff : ∀ t src sp dst dp, Macros.cmpCxt4 t src sp dst dp = true ↔
    t.sIp.word0 = src ∧ t.sPort = sp ∧ t.dIp.word0 = dst ∧ t.dPort = dp
  cmpCxt6_iff : ∀ t src sp dst dp, Macros.cmpCxt6 t src sp dst dp = true ↔
    t.sIp = src ∧ t.sPort = sp ∧ t.dIp = dst ∧ t.dPort = dp

section Tables

variable [Macros] {u : Undefined} {key : PerflowKey} {id : BitVec 32} {raiseEvents : Bool} {pi : PacketInfo}
  {c : Connection} {t : Tables}

theorem fiveTuple_trackOne {tr : Tracked} (h : trackOne c pi = some tr) :
    tr.cxt.fiveTuple = c.fiveTuple := by
  by_cases hc : c.gotten = 0
  · rcases (trackOne_unmarked h hc).2.2 with he | he
    · rw [he, (cxtUpdateClient_of_unmarked hc).1]
      rfl
    · rw [he, (cxtUpdateServer_of_unmarked hc).1]
      rfl
  · rw [(trackOne_marked h hc).2]

omit [Macros] in
theorem fiveTuple_gotten (c : Connection) : (gotten u key id raiseEvents c).fiveTuple = c.fiveTuple := by
  rw [gotten]
  split <;> rfl

/-- A packet that belongs to no record of a bucket belongs to no connection of it. -/
theorem not_same_cxtNew [LawfulMacros] {cxid : BitVec 64} (h : isOf pi c = false) :
    ¬ (cxtNew cxid pi).Same c := by
  intro hsame
  have hnone : trackOne c pi = none := by simpa [isOf] using h
  rw [trackOne] at hnone
  cases haf : pi.af with
  | inet =>
      simp only [haf, LawfulMacros.cmpCxt4_iff] at hnone
      split_ifs at hnone with h₁ h₂
      rcases hsame with he | he
      · simp [Connection.fiveTuple, cxtNew, In6Addr.seen, haf] at he
        obtain ⟨hcaf, -, hsip, hsp, hdip, hdp⟩ := he
        simp [← hcaf] at hsip hdip
        exact h₁ ⟨hsip.symm, hsp.symm, hdip.symm, hdp.symm⟩
      · simp [Connection.fiveTuple, FiveTuple.reverse, cxtNew, In6Addr.seen, haf] at he
        obtain ⟨hcaf, -, hsip, hsp, hdip, hdp⟩ := he
        simp [← hcaf] at hsip hdip
        exact h₂ ⟨hdip.symm, hdp.symm, hsip.symm, hsp.symm⟩
  | inet6 =>
      simp only [haf, LawfulMacros.cmpCxt6_iff] at hnone
      split_ifs at hnone with h₁ h₂
      rcases hsame with he | he
      · simp [Connection.fiveTuple, cxtNew, In6Addr.seen, haf] at he
        obtain ⟨hcaf, -, hsip, hsp, hdip, hdp⟩ := he
        simp [← hcaf] at hsip hdip
        exact h₁ ⟨hsip.symm, hsp.symm, hdip.symm, hdp.symm⟩
      · simp [Connection.fiveTuple, FiveTuple.reverse, cxtNew, In6Addr.seen, haf] at he
        obtain ⟨hcaf, -, hsip, hsp, hdip, hdp⟩ := he
        simp [← hcaf] at hsip hdip
        exact h₂ ⟨hdip.symm, hdp.symm, hsip.symm, hsp.symm⟩

theorem oneEach_cxTrack [LawfulMacros] (ht : ∀ h, OneEach (t.bucket h)) (h : Nat) :
    OneEach ((cxTrack t pi).1.bucket h) := by
  rcases bucket_cases pi (t.bucket (hash pi)) with ⟨pre, c, post, tr, hb, hpre, htr⟩ | hnone
  · rw [cxTrack_of_some hb hpre htr]
    exact oneEach_update ht ((hb ▸ ht (hash pi)).replace (fiveTuple_trackOne htr)) h
  · rw [cxTrack_of_none hnone]
    refine oneEach_update ht (List.pairwise_cons.mpr ⟨fun c hc => ?_, ht (hash pi)⟩) h
    exact not_same_cxtNew (hnone c hc)

omit [Macros] in
theorem oneEach_gotten {hs : List Nat} (ht : ∀ h, OneEach (t.bucket h)) (h : Nat) :
    OneEach ((t.gotten u key id raiseEvents hs).bucket h) := by
  simp only [Tables.gotten]
  split
  · exact (ht h).map fiveTuple_gotten
  · exact ht h

theorem oneEach_del (ht : ∀ h, OneEach (t.bucket h)) (h : Nat) :
    OneEach ((localDelPerflow key t).1.bucket h) := by
  simp only [localDelPerflow]
  split
  · exact (ht h).filter _
  · exact ht h

variable [Serializer]

omit [Macros] [Serializer] in
/-- A record takes the place of one of the same connection. -/
theorem oneEach_set (ht : ∀ h, OneEach (t.bucket h)) (i : Nat) (cxt : Connection) (h : Nat) :
    OneEach (Function.update t.bucket i
      (cxt :: (t.bucket i).filter fun c => ¬ cxt.Same c) h) := by
  refine oneEach_update ht (List.pairwise_cons.mpr ⟨fun c hc => ?_, (ht i).filter _⟩) h
  simpa using (List.mem_filter.mp hc).2

/-- Packets, gets and deletions are as in the code; a put sets the record of its connection. -/
def UniqueTables.call [LawfulMacros] (t : UniqueTables) : TableAction → UniqueTables
  | .packet pi _ => ⟨(cxTrack t.tables pi).1, oneEach_cxTrack t.oneEach⟩
  | .getPerflow u key id raiseEvents =>
      ⟨t.tables.gotten u key id raiseEvents (List.range Macros.bucketSize), oneEach_gotten t.oneEach⟩
  | .putPerflow _ none _ => t
  | .putPerflow key (some state) _ =>
      ⟨{ t.tables with
          cxtrackerid := t.tables.cxtrackerid + 1
          bucket := Function.update t.tables.bucket (putHash key)
            (putConnection (t.tables.cxtrackerid + 1) state ::
              (t.tables.bucket (putHash key)).filter fun c =>
                ¬ (putConnection (t.tables.cxtrackerid + 1) state).Same c) },
        oneEach_set t.oneEach (putHash key) _⟩
  | .delPerflow key _ => ⟨(localDelPerflow key t.tables).1, oneEach_del t.oneEach⟩

/-- The table in memory, and what it should be. -/
structure Beside where
  chains : Chains
  spec : UniqueTables

def Beside.start : Beside := ⟨.start, ⟨emptyTables, fun _ => List.Pairwise.nil⟩⟩

def Beside.step [LawfulMacros] (fuel : Nat) (s : Beside) (a : TableAction) : Option Beside :=
  (s.chains.step fuel a).map fun chains => ⟨chains, s.spec.call a⟩

/-- The buckets are doubly linked lists of the records that they should have. -/
def Beside.Agrees (s : Beside) : Prop := Represents s.chains s.spec.tables

/-- A put brings a connection that its bucket does not have. -/
def TableAction.New (s : Beside) : TableAction → Prop
  | .putPerflow key (some state) _ => ∀ c ∈ s.spec.tables.bucket (putHash key),
      ¬ (putConnection (s.spec.tables.cxtrackerid + 1) state).Same c
  | _ => True

instance decidableNew (s : Beside) : (a : TableAction) → Decidable (a.New s)
  | .putPerflow key (some state) _ => inferInstanceAs (Decidable (∀ c ∈ s.spec.tables.bucket (putHash key),
      ¬ (putConnection (s.spec.tables.cxtrackerid + 1) state).Same c))
  | .putPerflow _ none _ | .packet .. | .getPerflow .. | .delPerflow .. => .isTrue trivial

variable [LawfulMacros] {fuel : Nat} {s s' : Beside} {a : TableAction}

omit [Macros] [Serializer] [LawfulMacros] in
theorem update_filter_iff {bucket : Nat → List Connection} {i : Nat} {cxt : Connection} :
    Function.update bucket i (cxt :: bucket i) =
        Function.update bucket i (cxt :: (bucket i).filter fun c => ¬ cxt.Same c) ↔
      ∀ c ∈ bucket i, ¬ cxt.Same c := by
  rw [Function.update_injective _ _ |>.eq_iff, List.cons.injEq, eq_comm (a := bucket i),
    List.filter_eq_self]
  simp

theorem agrees_iff_new (h : s.Agrees) (hs : s.step fuel a = some s') : s'.Agrees ↔ a.New s := by
  obtain ⟨chains, hstep, rfl⟩ := Option.map_eq_some_iff.mp hs
  have hrep : Represents chains (s.spec.tables.call a) := represents_step h hstep
  have hiff : Beside.Agrees ⟨chains, s.spec.call a⟩ ↔
      s.spec.tables.call a = (s.spec.call a).tables :=
    ⟨fun h' => hrep.unique h', fun he => by rw [Beside.Agrees, ← he]; exact hrep⟩
  rw [hiff]
  cases a with
  | packet | getPerflow | delPerflow => exact iff_of_true rfl trivial
  | putPerflow key state addr =>
      cases state with
      | none => exact iff_of_true rfl trivial
      | some state =>
          simp only [Tables.call, localPutPerflow, UniqueTables.call, Tables.mk.injEq, and_true]
          exact update_filter_iff

/-- In a run the table in memory is all along what it should be exactly if every put brings a connection
that its bucket does not have. -/
theorem agrees_iff {as : List TableAction} (hr : run (Beside.step fuel) .start as = some s) :
    (∀ pre suf s, as = pre ++ suf → run (Beside.step fuel) .start pre = some s → s.Agrees) ↔
      Along (Beside.step fuel) (fun s a => a.New s) .start as :=
  always_iff_along represents_start (fun _ _ _ h hs => agrees_iff_new h hs) hr

omit [LawfulMacros] in
/-- Whatever has been called, the buckets are doubly linked lists, of the records that the calls leave. -/
theorem represents_run {as : List TableAction} {t : Tables} {s s' : Chains} (h : Represents s t)
    (hr : run (Chains.step fuel) s as = some s') : Represents s' (as.foldl Tables.call t) := by
  induction as generalizing s t with
  | nil =>
      cases hr
      exact h
  | cons a as ih =>
      obtain ⟨s₁, hs, hr⟩ := Option.bind_eq_some_iff.mp hr
      exact ih (represents_step h hs) hr

end Tables

/-! ## Samples -/

theorem lawfulMacros_plain : letI := plainMacros; LawfulMacros := by
  let _ := plainMacros
  constructor <;> simp [Macros.cmpCxt4, Macros.cmpCxt6]

/-- A packet between two hosts, from the given port. -/
def packetFrom (sPort : BitVec 16) : PacketInfo :=
  ⟨.inet, ⟨1, 0, 0, 0⟩, ⟨2, 0, 0, 0⟩, sPort, 4, 6, 0x0800, some 2, 60, 0, none, []⟩

/-- Two connections of one bucket, with two packets of the first one. They are got and deleted, there is a packet of
the second one again, and a third connection is put. -/
def handingOver : List TableAction :=
  [.packet (packetFrom 3) 0, .packet (packetFrom 5) 1, .packet (packetFrom 3) 2,
    .getPerflow (.const .zero 0) anyKey 7 true, .delPerflow anyKey 7, .packet (packetFrom 5) 2,
    .putPerflow anyKey (some []) 3]

theorem agrees_iff_sample : letI := plainMacros; letI := plainSerializer; letI := lawfulMacros_plain
    ∃ s, run (Beside.step 4) .start handingOver = some s ∧
      ∀ pre suf s, handingOver = pre ++ suf → run (Beside.step 4) .start pre = some s → s.Agrees := by
  let _ := plainMacros
  let _ := plainSerializer
  let _ := lawfulMacros_plain
  have hr : run (Beside.step 4) .start handingOver = some _ := rfl
  exact ⟨_, hr, (agrees_iff hr).mpr (by decide)⟩

/-- A connection that is put a second time has two records. -/
theorem not_oneEach_again : letI := plainMacros; letI := plainSerializer
    ∃ s, run (Chains.step 3) .start [.putPerflow anyKey (some []) 0, .putPerflow anyKey (some []) 1] =
      some s ∧ ¬ ∃ t : UniqueTables, Represents s t.tables := by
  let _ := plainMacros
  let _ := plainSerializer
  obtain ⟨s, hr⟩ : ∃ s, run (Chains.step 3) .start
      [.putPerflow anyKey (some []) 0, .putPerflow anyKey (some []) 1] = some s := ⟨_, rfl⟩
  refine ⟨s, hr, ?_⟩
  rintro ⟨t, ht⟩
  have hone := t.oneEach (putHash anyKey)
  rw [ht.unique (represents_run represents_start hr)] at hone
  exact absurd hone (by decide)

end OFM.Prads
