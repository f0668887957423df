import Mathlib.Algebra.BigOperators.Group.Finset.Basic
import Mathlib.Data.Fintype.BigOperators
import OFM.Lib.Machine
import OFM.Prads.Instance
import OFM.Prads.Lemmas.Instance

/-!
# Statistics on the move

A get takes the counters of an instance away, and a put replaces those it finds: when nothing is lost.
-/

namespace OFM.Prads
open OFM.Lib OFM.Shared
open Machine

/-! ## Several instances

Instances of PRADS that process packets and hand their statistics to each other, with the chunks that are
on their way and a count of what the packet path has incremented.
-/

section Deployment

variable [Macros] [PacketPath]

/-- What `processPacket` learns from the path of the packet. -/
def pathOf (inst : Instance) (packet : List (BitVec 8)) : Path PacketPath.counters PacketPath.Rest :=
  match PacketPath.parse inst.rest packet with
  | none => PacketPath.process inst.rest packet none
  | some pi =>
      let (tables, result) := cxTrack inst.tables pi
      let cxt := (tables.bucket (hash pi))[cxtIndex inst.tables pi]?
      PacketPath.process inst.rest packet (cxt.map fun cxt => (cxt.erase, result.result))

/-- The counters that a packet increments, once for each time they are named. -/
def increments (u : Undefined) (stack : ProcessContext) (inst : Instance) (packet : List (BitVec 8)) :
    List (Fin PacketPath.counters) :=
  if (sdmbnPreprocessPacket u inst.filters (inMemory packet) stack).2.1.stop ≠ 0 then []
  else PacketPath.gotPackets :: (pathOf inst packet).counted

structure Deployment (ι : Type) where
  instances : ι → Instance
  /-- The chunks that have been got and not been put. -/
  inFlight : List (List (BitVec 8))
  incremented : Fin PacketPath.counters → Nat

inductive DeploymentAction (ι : Type)
  | packet (i : ι) (packet : List (BitVec 8))
  | getAllflows (i : ι)
  | putAllflows (i : ι) (chunk : Nat)

variable {ι : Type} [DecidableEq ι]

def Deployment.step (u : Undefined) (stack : ProcessContext) (s : Deployment ι) :
    DeploymentAction ι → Option (Deployment ι)
  | .packet i packet => some { s with
      instances := Function.update s.instances i (gotPacket u stack (s.instances i) packet).1
      incremented := fun k => s.incremented k + (increments u stack (s.instances i) packet).count k }
  | .getAllflows i =>
      let (inst, state) := localGetAllflows (s.instances i)
      some { s with
        instances := Function.update s.instances i inst
        inFlight := s.inFlight ++ state.toList }
  | .putAllflows i chunk =>
      (s.inFlight[chunk]?).map fun state => { s with
        instances := Function.update s.instances i (localPutAllflows (s.instances i) state)
        inFlight := s.inFlight.eraseIdx chunk }

/-- The instances have just been started: nothing has been counted. -/
def Deployment.start (instances : ι → Instance) : Deployment ι where
  instances i := { instances i with prS := fun _ => 0 }
  inFlight := []
  incremented _ := 0

end Deployment

/-! ## The struct as text -/

theorem le32_wordBytes (word : BitVec 32) (rest : List (BitVec 8)) :
    le32 (inMemory (wordBytes word ++ rest)) 0 = word := by
  refine BitVec.eq_of_getLsbD_eq fun j hj => ?_
  simp only [le32, inMemory, wordBytes, List.cons_append, List.nil_append, List.getD_cons_zero,
    List.getD_cons_succ, Nat.zero_add, BitVec.getLsbD_append, BitVec.getLsbD_extractLsb']
  grind

theorem le32_words (words : List (BitVec 32)) (k : Nat) :
    le32 (inMemory (words.flatMap wordBytes)) (4 * k) = words.getD k 0 := by
  induction words generalizing k with
  | nil =>
      simp only [le32, inMemory, List.flatMap_nil, List.getD_nil]
      decide
  | cons word words ih =>
      cases k with
      | zero => exact le32_wordBytes word _
      | succ k =>
          rw [List.getD_cons_succ, ← ih k]
          rfl

/-- What is put is what was got. -/
theorem ofMemory_decode {counters : Nat} (stat : PradsStat counters) :
    PradsStat.ofMemory counters (inMemory (sdmbnBase64Decode (encodeBytes stat.bytes))) = stat := by
  funext k
  rw [decode_encodeBytes, PradsStat.ofMemory, PradsStat.bytes, le32_words]
  simp [List.getD_eq_getElem?_getD]

/-! ## The packet path -/

section Counters

variable [Macros] [PacketPath] {u : Undefined} {stack : ProcessContext} {inst : Instance}
  {packet : List (BitVec 8)}

omit [Macros] [PacketPath] in
theorem count_append {counters : Nat} (stat : PradsStat counters) (ks ks' : List (Fin counters)) :
    (stat.count ks).count ks' = stat.count (ks ++ ks') := by
  funext k
  simp only [PradsStat.count, List.count_append, BitVec.ofNat_add, BitVec.add_assoc]

theorem processPacket_prS :
    (processPacket inst packet).1.prS =
      inst.prS.count (PacketPath.gotPackets :: (pathOf inst packet).counted) := by
  have hone : ∀ ks, inst.prS.count (PacketPath.gotPackets :: ks) =
      (inst.prS.count [PacketPath.gotPackets]).count ks := fun ks => (count_append inst.prS [_] ks).symm
  rw [hone]
  simp only [processPacket, pathOf]
  cases PacketPath.parse inst.rest packet <;> rfl

/-- A packet adds to the counters what it increments. -/
theorem gotPacket_prS :
    (gotPacket u stack inst packet).1.prS = inst.prS.count (increments u stack inst packet) := by
  by_cases hs : (preprocessed u stack inst packet).2.1.stop = 0
  · rw [gotPacket_of_go hs, increments, if_neg (fun h => h hs)]
    exact processPacket_prS
  · have hs' : (sdmbnPreprocessPacket u inst.filters (inMemory packet) stack).2.1.stop ≠ 0 := hs
    rw [gotPacket_of_stop hs, increments, if_pos hs']
    funext k
    simp [PradsStat.count]

/-- The counter of an instance does not wrap around at the packet. -/
def Fits (u : Undefined) (stack : ProcessContext) (inst : Instance) (packet : List (BitVec 8)) : Prop :=
  ∀ k, (inst.prS k).toNat + (increments u stack inst packet).count k < 2 ^ 32

theorem toNat_gotPacket (h : Fits u stack inst packet) (k : Fin PacketPath.counters) :
    ((gotPacket u stack inst packet).1.prS k).toNat =
      (inst.prS k).toNat + (increments u stack inst packet).count k := by
  have hlt : (increments u stack inst packet).count k < 2 ^ 32 := by
    have hk := h k
    omega
  rw [gotPacket_prS, PradsStat.count, BitVec.toNat_add, BitVec.toNat_ofNat, Nat.mod_eq_of_lt hlt,
    Nat.mod_eq_of_lt (h k)]

end Counters

/-! ## Totals -/

section Totals

/-- A sum after one of its terms has been replaced. -/
theorem sum_update {ι α : Type} [Fintype ι] [DecidableEq ι] (f : α → Nat) (g : ι → α) (i : ι) (x : α) :
    ∑ j, f (Function.update g i x j) + f (g i) = ∑ j, f (g j) + f x := by
  have hrest : ∀ j ∈ Finset.univ.erase i, f (Function.update g i x j) = f (g j) := fun j hj => by
    rw [Function.update_of_ne (Finset.ne_of_mem_erase hj)]
  rw [← Finset.add_sum_erase _ _ (Finset.mem_univ i), ← Finset.add_sum_erase _ (fun j => f (g j))
    (Finset.mem_univ i), Finset.sum_congr rfl hrest, Function.update_self]
  omega

theorem sum_eraseIdx {α : Type} (f : α → Nat) {l : List α} {i : Nat} {x : α} (h : l[i]? = some x) :
    ((l.eraseIdx i).map f).sum + f x = (l.map f).sum := by
  obtain ⟨hi, rfl⟩ := List.getElem?_eq_some_iff.mp h
  rw [List.eraseIdx_eq_take_drop_succ]
  conv_rhs => rw [← List.take_append_drop i l, List.drop_eq_getElem_cons hi]
  simp only [List.map_append, List.map_cons, List.sum_append, List.sum_cons]
  omega

variable [Macros] [PacketPath] {ι : Type} [Fintype ι] [DecidableEq ι] {u : Undefined}
  {stack : ProcessContext} {s s' : Deployment ι} {a : DeploymentAction ι} {k : Fin PacketPath.counters}

omit [Macros] in
/-- A counter over the instances and the chunks on their way. -/
def Deployment.total (s : Deployment ι) (k : Fin PacketPath.counters) : Nat :=
  ∑ i, ((s.instances i).prS k).toNat + (s.inFlight.map fun state =>
    (PradsStat.ofMemory PacketPath.counters (inMemory (sdmbnBase64Decode state)) k).toNat).sum

/-- What a put loses of a counter. -/
def Deployment.lost (s : Deployment ι) (k : Fin PacketPath.counters) : DeploymentAction ι → Nat
  | .putAllflows i _ => ((s.instances i).prS k).toNat
  | _ => 0

/-- No counter wraps around. -/
def KeepsWithin (u : Undefined) (stack : ProcessContext) (s : Deployment ι) (a : DeploymentAction ι) :
    Prop :=
  ∀ i packet, a = .packet i packet → Fits u stack (s.instances i) packet

/-- What is put is not put over anything. -/
def PutsOverNothing (s : Deployment ι) (a : DeploymentAction ι) : Prop :=
  ∀ i chunk, a = .putAllflows i chunk → (s.instances i).prS = fun _ => 0

/-- What one step does to the balance of a counter. -/
theorem balance_step (h : s.step u stack a = some s') (hfit : KeepsWithin u stack s a) :
    s'.incremented k + s.total k = s.incremented k + s'.total k + s.lost k a := by
  cases a with
  | packet i packet =>
      cases h
      have hsum := sum_update (fun inst : Instance => (inst.prS k).toNat) s.instances i
        (gotPacket u stack (s.instances i) packet).1
      have hpacket := toNat_gotPacket (hfit i packet rfl) k
      simp only [Deployment.total, Deployment.lost] at hsum ⊢
      omega
  | getAllflows i =>
      simp only [Deployment.step, localGetAllflows_eq] at h
      cases h
      have hsum := sum_update (fun inst : Instance => (inst.prS k).toNat) s.instances i
        { s.instances i with prS := fun _ => 0 }
      simp only [Deployment.total, Deployment.lost, Option.toList_some, List.map_append, List.sum_append,
        List.map_cons, List.map_nil, List.sum_cons, List.sum_nil, ofMemory_decode] at hsum ⊢
      have hzero : (0 : BitVec 32).toNat = 0 := rfl
      omega
  | putAllflows i chunk =>
      obtain ⟨state, hstate, rfl⟩ := Option.map_eq_some_iff.mp h
      have hsum := sum_update (fun inst : Instance => (inst.prS k).toNat) s.instances i
        (localPutAllflows (s.instances i) state)
      have hflight := sum_eraseIdx (fun state => (PradsStat.ofMemory PacketPath.counters
        (inMemory (sdmbnBase64Decode state)) k).toNat) hstate
      simp only [Deployment.total, Deployment.lost] at hsum ⊢
      simp only [localPutAllflows] at hsum ⊢
      omega

/-- No more is there than has been counted, and what has been lost does not come back. -/
theorem balance_run {as : List (DeploymentAction ι)} :
    ∀ {s : Deployment ι}, run (Deployment.step u stack) s as = some s' →
      Along (Deployment.step u stack) (KeepsWithin u stack) s as →
      (∀ k, s.total k ≤ s.incremented k) →
      (∀ k, s'.total k ≤ s'.incremented k) ∧
        ((∀ k, s'.total k = s'.incremented k) ↔ (∀ k, s.total k = s.incremented k) ∧
          Along (Deployment.step u stack) PutsOverNothing s as) := by
  induction as with
  | nil =>
      intro s h _ hle
      cases h
      exact ⟨hle, fun heq => ⟨heq, along_nil⟩, fun heq => heq.1⟩
  | cons a as ih =>
      intro s h hfits hle
      obtain ⟨t, ht, h⟩ := Option.bind_eq_some_iff.mp h
      obtain ⟨hfit, hfits⟩ := along_cons.mp hfits
      have hbalance := fun k => balance_step (k := k) ht hfit
      have hle' : ∀ k, t.total k ≤ t.incremented k := fun k => by
        have hk := hbalance k
        have hk' := hle k
        omega
      obtain ⟨hend, hiff⟩ := ih h (hfits t ht) hle'
      have hlost : PutsOverNothing s a ↔ ∀ k, s.lost k a = 0 := by
        cases a with
        | packet i packet => exact ⟨fun _ _ => rfl, fun _ i' chunk ha => by cases ha⟩
        | getAllflows i => exact ⟨fun _ _ => rfl, fun _ i' chunk ha => by cases ha⟩
        | putAllflows i chunk =>
            constructor
            · intro hput k
              rw [Deployment.lost, hput i chunk rfl]
              rfl
            · rintro hzero i' chunk' ⟨⟩
              funext k
              exact BitVec.eq_of_toNat_eq (hzero k)
      refine ⟨hend, hiff.trans ?_⟩
      rw [along_cons, hlost]
      constructor
      · rintro ⟨heq, halong⟩
        refine ⟨fun k => ?_, fun k => ?_, fun t' ht' => ?_⟩
        · have hk := hbalance k
          have hk' := hle k
          have hk'' := heq k
          omega
        · have hk := hbalance k
          have hk' := hle k
          have hk'' := heq k
          omega
        · exact Option.some.inj (ht.symm.trans ht') ▸ halong
      · rintro ⟨heq, hzero, halong⟩
        refine ⟨fun k => ?_, halong t ht⟩
        have hk := hbalance k
        have hk' := heq k
        have hk'' := hzero k
        omega

/-- The statistics are conserved exactly when every put finds the counters at 0. -/
theorem conserved_iff {instances : ι → Instance} {as : List (DeploymentAction ι)}
    (h : run (Deployment.step u stack) (Deployment.start instances) as = some s)
    (hfits : Along (Deployment.step u stack) (KeepsWithin u stack) (Deployment.start instances) as) :
    (∀ k, s.total k = s.incremented k) ↔
      Along (Deployment.step u stack) PutsOverNothing (Deployment.start instances) as := by
  have hstart : ∀ k, (Deployment.start instances).total k = (Deployment.start instances).incremented k :=
    fun k => by simp [Deployment.total, Deployment.start]
  have hiff := (balance_run h hfits fun k => Nat.le_of_eq (hstart k)).2
  exact hiff.trans (and_iff_right hstart)

end Totals

/-! ## Samples -/

/-- Each of two instances has counted a packet when one of them hands its statistics to the other. -/
def sampleActions : List (DeploymentAction Bool) :=
  [.packet true sampleFrame, .packet false sampleFrame, .getAllflows true, .putAllflows false 0]

theorem keepsWithin_sample : letI := plainMacros; letI := plainPath
    Along (Deployment.step (.const .zero 0) cleanStack) (KeepsWithin (.const .zero 0) cleanStack)
      (Deployment.start fun _ => startedInstance) sampleActions := by
  let _ := plainMacros
  let _ := plainPath
  refine along_cons.mpr ⟨?_, ?_⟩
  · rintro i packet ⟨⟩ k
    revert k
    decide
  rintro t ⟨⟩
  refine along_cons.mpr ⟨?_, ?_⟩
  · rintro i packet ⟨⟩ k
    revert k
    decide
  rintro t ⟨⟩
  refine along_cons.mpr ⟨?_, ?_⟩
  · rintro i packet ⟨⟩
  rintro t ⟨⟩
  refine along_cons.mpr ⟨?_, ?_⟩
  · rintro i packet ⟨⟩
  rintro t ⟨⟩
  exact along_nil

theorem conserved_iff_sample : letI := plainMacros; letI := plainPath
    ∃ s, run (Deployment.step (.const .zero 0) cleanStack) (Deployment.start fun _ => startedInstance)
        sampleActions = some s ∧
      ((∀ k, s.total k = s.incremented k) ↔ Along (Deployment.step (.const .zero 0) cleanStack)
        PutsOverNothing (Deployment.start fun _ => startedInstance) sampleActions) := by
  let _ := plainMacros
  let _ := plainPath
  exact ⟨_, rfl, conserved_iff rfl keepsWithin_sample⟩

/-- Two packets have been counted, and one is left. -/
theorem not_conserved_put : letI := plainMacros; letI := plainPath
    ∃ s, run (Deployment.step (.const .zero 0) cleanStack) (Deployment.start fun _ => startedInstance)
        sampleActions = some s ∧
      Along (Deployment.step (.const .zero 0) cleanStack) (KeepsWithin (.const .zero 0) cleanStack)
        (Deployment.start fun _ => startedInstance) sampleActions ∧
      ¬ ∀ k, s.total k = s.incremented k := by
  let _ := plainMacros
  let _ := plainPath
  refine ⟨_, rfl, keepsWithin_sample, fun h => ?_⟩
  exact absurd (h 0) (by decide)

end OFM.Prads
