import OFM.Shared.PerflowCalls
import Mathlib.Data.Set.Insert

/-!
# Connection tracking

`nl_create_conntrack` and `local_put_perflow` of `iptables-sdmbn`, over any queries of the kernel. One such kernel is
a table by the original tuples, with queries that fail at will. What `parse_payload` makes of a block of memory is a
parameter.
-/

namespace OFM.Iptables
open OFM.Shared (PerflowKey sdmbnBase64Decode)

/-! ## Connections -/

/-- A `struct nf_conntrack`: the tuples of both directions, and the attributes that are looked at. The flags
stand for the flags and the masks of both directions. -/
structure Conntrack (τ ρ : Type) where
  orig : τ
  reply : Option τ
  status : Option (BitVec 32)
  tcpState : Option (BitVec 8)
  tcpFlags : Option (BitVec 8)
  rest : ρ
  deriving DecidableEq

def ipsExpected : BitVec 32 := 1
def tcpConntrackTimeWait : BitVec 8 := 7
def ipCtTcpFlagSackPerm : BitVec 8 := 0x02
def ipCtTcpFlagCloseInit : BitVec 8 := 0x04
def ipCtTcpFlagBeLiberal : BitVec 8 := 0x08

variable {τ ρ : Type}

/-- What `nl_create_conntrack` makes of the clone before it asks for its creation: a connection that can be
created, with the tuple of the reply and without window tracking. -/
def Conntrack.recovered (invert : τ → τ) (ct : Conntrack τ ρ) : Conntrack τ ρ :=
  { ct with
    reply := some (invert ct.orig)
    status := ct.status.map (· &&& ~~~ipsExpected)
    tcpFlags := match ct.tcpState with
      | none => ct.tcpFlags
      | some state =>
          let flags := ipCtTcpFlagBeLiberal ||| ipCtTcpFlagSackPerm
          some (if tcpConntrackTimeWait ≤ state then flags ||| ipCtTcpFlagCloseInit else flags) }

/-! ## Queries -/

inductive Errno where
  | eexist
  | enoent
  /-- Any other failure, or none. -/
  | other (n : Nat)
  deriving DecidableEq

/-- What is left by a query: the table, the result and `errno`. -/
structure Query (κ : Type) where
  table : κ
  ret : Int
  errno : Errno

/-- The calls of `nfct_query` of one put, each with what the kernel has and `errno` before it: `NFCT_Q_CREATE`,
`NFCT_Q_DESTROY` of `nl_destroy_conntrack`, and `NFCT_Q_CREATE` once more. -/
structure Queries (κ τ ρ : Type) where
  create : Conntrack τ ρ → κ → Errno → Query κ
  destroy : Conntrack τ ρ → κ → Errno → Query κ
  createAgain : Conntrack τ ρ → κ → Errno → Query κ

/-- The connections of a kernel by their original tuples. -/
abbrev Table (τ ρ : Type) := τ → Option (Conntrack τ ρ)

/-- What goes wrong with calls of libraries, apart from what the table is the reason of, and `errno` before
the first query. -/
structure Environment where
  nfctOpen : Bool
  malloc : Bool
  nfctClone : Bool
  errno : Errno
  create : Option Nat
  destroy : Option Nat
  createAgain : Option Nat

section Table

variable [DecidableEq τ]

/-- `nfct_query` with `NFCT_Q_CREATE`: a connection that exists is not created again, and `errno` is left
alone where nothing is wrong. -/
def nfctCreate (failure : Option Nat) (ct : Conntrack τ ρ) (table : Table τ ρ) (errno : Errno) : Query (Table τ ρ) :=
  match failure, table ct.orig with
  | some n, _ => ⟨table, -1, .other n⟩
  | none, some _ => ⟨table, -1, .eexist⟩
  | none, none => ⟨Function.update table ct.orig (some ct), 0, errno⟩

/-- `nfct_query` with `NFCT_Q_DESTROY`, of `nl_destroy_conntrack`. -/
def nlDestroyConntrack (failure : Option Nat) (ct : Conntrack τ ρ) (table : Table τ ρ) (errno : Errno) :
    Query (Table τ ρ) :=
  match failure, table ct.orig with
  | some n, _ => ⟨table, -1, .other n⟩
  | none, none => ⟨table, -1, .enoent⟩
  | none, some _ => ⟨Function.update table ct.orig none, 0, errno⟩

/-- The queries, with what goes wrong with each. -/
def Environment.queries (env : Environment) : Queries (Table τ ρ) τ ρ where
  create := nfctCreate env.create
  destroy := nlDestroyConntrack env.destroy
  createAgain := nfctCreate env.createAgain

end Table

/-! ## Puts -/

/-- What `parse_payload` makes of a block: a connection, a failure, or the end of the process where it reads
memory that is not there. -/
inductive Parsed (τ ρ : Type) where
  | ok (ct : Conntrack τ ρ)
  | failed
  | crashed

/-- The process is not there any more. -/
inductive Halt where
  | crashed
  deriving DecidableEq

section Queried

variable {κ : Type}

/-- `nl_create_conntrack`. What is looked at after a query is `errno`, not the result. -/
def nlCreateConntrackBy (queries : Queries κ τ ρ) (invert : τ → τ) (env : Environment) (orig : Conntrack τ ρ)
    (table : κ) : κ × Int :=
  if !env.nfctClone then (table, -1)
  else
    let ct := orig.recovered invert
    let created := queries.create ct table env.errno
    if created.errno = .eexist then
      let destroyed := queries.destroy ct created.table created.errno
      if destroyed.ret = 0 ∨ destroyed.ret = -1 ∧ destroyed.errno = .enoent then
        let again := queries.createAgain ct destroyed.table destroyed.errno
        (again.table, again.ret)
      else (destroyed.table, destroyed.ret)
    else (created.table, created.ret)

/-- `local_put_perflow`, for a key and a state that are there. The result of `nl_create_conntrack` is not
looked at. -/
def localPutPerflowBy (queries : Queries κ τ ρ) (invert : τ → τ) (parsePayload : List (BitVec 8) → Parsed τ ρ)
    (env : Environment) (_hashkey : BitVec 32) (_key : PerflowKey) (state : List (BitVec 8)) (table : κ) :
    Except Halt (κ × Int) :=
  if !env.nfctOpen then .ok (table, -1)
  else if !env.malloc then .error .crashed
  else
    match parsePayload (sdmbnBase64Decode state) with
    | .crashed => .error .crashed
    | .failed => .ok (table, -1)
    | .ok ct => .ok ((nlCreateConntrackBy queries invert env ct table).1, 1)

end Queried

section Table

variable [DecidableEq τ]

/-- `nl_create_conntrack` over a table. -/
def nlCreateConntrack (invert : τ → τ) (env : Environment) (orig : Conntrack τ ρ) (table : Table τ ρ) :
    Table τ ρ × Int :=
  nlCreateConntrackBy env.queries invert env orig table

/-- `local_put_perflow` over a table. -/
def localPutPerflow (invert : τ → τ) (parsePayload : List (BitVec 8) → Parsed τ ρ) (env : Environment)
    (hashkey : BitVec 32) (key : PerflowKey) (state : List (BitVec 8)) (table : Table τ ρ) :
    Except Halt (Table τ ρ × Int) :=
  localPutPerflowBy env.queries invert parsePayload env hashkey key state table

end Table

/-! ## What is documented of kernels -/

/-- A kernel with its queries: the entries that it has, the tuples of an entry, which are those of both directions,
and the entry that it makes of a connection. -/
structure Kernel (κ τ ρ ε : Type) where
  create : Conntrack τ ρ → κ → Errno → Query κ
  destroy : Conntrack τ ρ → κ → Errno → Query κ
  entries : κ → Set ε
  tuples : ε → Set τ
  made : Conntrack τ ρ → ε

namespace Kernel

variable {κ ε : Type}

def queries (kernel : Kernel κ τ ρ ε) : Queries κ τ ρ := ⟨kernel.create, kernel.destroy, kernel.create⟩

/-- The entries share a tuple, in whatever directions. -/
def Clash (kernel : Kernel κ τ ρ ε) (e e' : ε) : Prop := ∃ t ∈ kernel.tuples e, t ∈ kernel.tuples e'

/-- An entry is made unless a tuple of it is taken, and a tuple stands for the entry that has it. `errno` is left
alone where nothing is wrong. -/
structure Documented (kernel : Kernel κ τ ρ ε) : Prop where
  orig_mem : ∀ ct, ct.orig ∈ kernel.tuples (kernel.made ct)
  create_new : ∀ ct table errno, (∀ e ∈ kernel.entries table, ¬ kernel.Clash e (kernel.made ct)) →
    kernel.entries (kernel.create ct table errno).table = insert (kernel.made ct) (kernel.entries table) ∧
      (kernel.create ct table errno).ret = 0 ∧ (kernel.create ct table errno).errno = errno
  create_taken : ∀ ct table errno, (∃ e ∈ kernel.entries table, kernel.Clash e (kernel.made ct)) →
    kernel.entries (kernel.create ct table errno).table = kernel.entries table ∧
      (kernel.create ct table errno).ret = -1 ∧ (kernel.create ct table errno).errno = .eexist
  destroy_there : ∀ ct table errno, (∃ e ∈ kernel.entries table, ct.orig ∈ kernel.tuples e) →
    kernel.entries (kernel.destroy ct table errno).table = {e ∈ kernel.entries table | ct.orig ∉ kernel.tuples e} ∧
      (kernel.destroy ct table errno).ret = 0 ∧ (kernel.destroy ct table errno).errno = errno
  destroy_missing : ∀ ct table errno, (∀ e ∈ kernel.entries table, ct.orig ∉ kernel.tuples e) →
    kernel.entries (kernel.destroy ct table errno).table = kernel.entries table ∧
      (kernel.destroy ct table errno).ret = -1 ∧ (kernel.destroy ct table errno).errno = .enoent

end Kernel

section Kernels

variable [DecidableEq τ]

/-- The table by the original tuples, where no query fails of itself. -/
def tableKernel : Kernel (Table τ ρ) τ ρ (τ × Conntrack τ ρ) where
  create := nfctCreate none
  destroy := nlDestroyConntrack none
  entries table := {e | table e.1 = some e.2}
  tuples e := {e.1}
  made ct := (ct.orig, ct)

theorem queries_eq_tableKernel {env : Environment} (hcreate : env.create = none) (hdestroy : env.destroy = none)
    (hagain : env.createAgain = none) : env.queries = (tableKernel : Kernel (Table τ ρ) τ ρ _).queries := by
  rw [Environment.queries, hcreate, hdestroy, hagain]
  rfl

theorem clash_tableKernel {e e' : τ × Conntrack τ ρ} : tableKernel.Clash e e' ↔ e.1 = e'.1 := by
  simp [Kernel.Clash, tableKernel]

theorem documented_tableKernel : (tableKernel : Kernel (Table τ ρ) τ ρ _).Documented where
  orig_mem ct := rfl
  create_new ct table errno h := by
    have hnone : table ct.orig = none := Option.eq_none_iff_forall_not_mem.mpr fun old hold =>
      h (ct.orig, old) hold (clash_tableKernel.mpr rfl)
    simp only [tableKernel, nfctCreate, hnone, and_true]
    ext ⟨t, ct'⟩
    by_cases ht : t = ct.orig
    · subst ht
      simp [hnone, eq_comm]
    · simp [ht]
  create_taken ct table errno h := by
    obtain ⟨⟨t, old⟩, hold, hclash⟩ := h
    obtain rfl : t = ct.orig := clash_tableKernel.mp hclash
    have hsome : table ct.orig = some old := hold
    simp [tableKernel, nfctCreate, hsome]
  destroy_there ct table errno h := by
    obtain ⟨⟨t, old⟩, hold, horig⟩ := h
    obtain rfl : ct.orig = t := horig
    have hsome : table ct.orig = some old := hold
    simp only [tableKernel, nlDestroyConntrack, hsome, and_true]
    ext ⟨t, ct'⟩
    by_cases ht : t = ct.orig
    · simp [ht]
    · simp [Function.update_of_ne ht, Ne.symm ht]
  destroy_missing ct table errno h := by
    have hnone : table ct.orig = none := Option.eq_none_iff_forall_not_mem.mpr fun old hold =>
      h (ct.orig, old) hold rfl
    simp [tableKernel, nlDestroyConntrack, hnone]

/-- One of the tuples of a connection. -/
def Conntrack.has (ct : Conntrack τ ρ) (t : τ) : Bool := ct.orig = t ∨ ct.reply = some t

/-- A list of connections with the tuples of both directions. -/
def listKernel : Kernel (List (Conntrack τ ρ)) τ ρ (Conntrack τ ρ) where
  create ct table errno :=
    if ∃ e ∈ table, e.has ct.orig ∨ ct.reply.any e.has then ⟨table, -1, .eexist⟩ else ⟨ct :: table, 0, errno⟩
  destroy ct table errno :=
    if ∃ e ∈ table, e.has ct.orig then ⟨table.filter fun e => !e.has ct.orig, 0, errno⟩ else ⟨table, -1, .enoent⟩
  entries table := {e | e ∈ table}
  tuples ct := {t | ct.has t}
  made ct := ct

theorem clash_listKernel {e ct : Conntrack τ ρ} :
    listKernel.Clash e ct ↔ (e.has ct.orig ∨ ct.reply.any e.has = true) := by
  have hany : ct.reply.any e.has = true ↔ ∃ t, ct.reply = some t ∧ e.has t := by
    cases ct.reply <;> simp
  rw [hany]
  simp only [Kernel.Clash, listKernel, Set.mem_ofPred_eq, Conntrack.has, decide_eq_true_eq]
  constructor
  · rintro ⟨t, he, rfl | ht⟩
    · exact Or.inl he
    · exact Or.inr ⟨t, ht, he⟩
  · rintro (he | ⟨t, ht, he⟩)
    · exact ⟨ct.orig, he, Or.inl rfl⟩
    · exact ⟨t, he, Or.inr ht⟩

theorem documented_listKernel : (listKernel : Kernel (List (Conntrack τ ρ)) τ ρ _).Documented where
  orig_mem ct := by simp [listKernel, Conntrack.has]
  create_new ct table errno h := by
    have hnone : ¬ ∃ e ∈ table, e.has ct.orig ∨ ct.reply.any e.has := by
      rintro ⟨e, he, hmeets⟩
      exact h e he (clash_listKernel.mpr hmeets)
    simp only [listKernel, if_neg hnone, and_true]
    ext e
    simp
  create_taken ct table errno h := by
    obtain ⟨e, he, hclash⟩ := h
    have hsome : ∃ e ∈ table, e.has ct.orig ∨ ct.reply.any e.has := ⟨e, he, clash_listKernel.mp hclash⟩
    simp only [listKernel, if_pos hsome, and_true]
  destroy_there ct table errno h := by
    have hsome : ∃ e ∈ table, e.has ct.orig := h
    simp only [listKernel, if_pos hsome, and_true]
    ext e
    simp
  destroy_missing ct table errno h := by
    have hnone : ¬ ∃ e ∈ table, e.has ct.orig := fun ⟨e, he, hhas⟩ => h e he hhas
    simp only [listKernel, if_neg hnone, and_true]

end Kernels

end OFM.Iptables
