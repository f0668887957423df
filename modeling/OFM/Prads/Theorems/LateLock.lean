import OFM.Lib.Machine
import OFM.Prads.Lemmas.Perflow
import OFM.Prads.Lemmas.Records

/-!
# Gets that mark while packets arrive

Which packets are accounted for when a get marks one bucket after the other: those that are counted in a
record before it is serialised, and those that are raised.
-/

namespace OFM.Prads
open OFM.Lib OFM.Shared
open Machine

/-! ## A get while packets arrive

`local_get_perflow` called with `raiseEvents`, one bucket at a time, and `cx_track` in between: both take
`ConnEntryLock`, so that each bucket and each packet is one step.
-/

section Scan

/-- The get is at a bucket; when it is past the last one, the get-ack follows. -/
structure Scan where
  tables : Tables
  pos : Nat
  sent : List Sent
  raised : List Reprocess

inductive ScanAction
  | packet (pi : PacketInfo)
  | bucket

variable [Serializer] [Macros]

/-- One step of a get with the given key and id. -/
def Scan.step (u : Undefined) (key : PerflowKey) (id : BitVec 32) (s : Scan) : ScanAction → Option Scan
  | .packet pi =>
      let (tables, result) := cxTrack s.tables pi
      some { s with tables := tables, raised := s.raised ++ result.events }
  | .bucket =>
      if s.pos < Macros.bucketSize then
        match getBucket u key id true s.sent.length (s.tables.bucket s.pos) with
        | .ok (bucket, sent) => some { s with
            tables := { s.tables with bucket := Function.update s.tables.bucket s.pos bucket }
            pos := s.pos + 1
            sent := s.sent ++ sent }
        | .error _ => none
      else none

/-- The get has just begun. -/
def Scan.start (t : Tables) : Scan := ⟨t, 0, [], []⟩

end Scan

/-! ## Buckets -/

section Buckets

variable [Serializer] {u : Undefined} {key : PerflowKey} {id : BitVec 32}

variable [Macros] {s s' : Scan} {p : Place} {c : Connection}

/-- A scan of a bucket leaves every record where it is. -/
theorem record_bucket (h : Scan.step u key id s .bucket = some s') (hr : s.tables.record p = some c) :
    ∃ c', s'.tables.record p = some c' ∧ c.Evolves c' := by
  rw [Scan.step] at h
  split at h
  · split at h
    · rename_i bucket sent hb
      cases h
      obtain ⟨rfl, -⟩ := getBucket_ok hb
      obtain ⟨h, index⟩ := p
      by_cases hh : h = s.pos
      · subst hh
        refine ⟨gotten u key id true c, ?_, ?_⟩
        · simp only [Tables.record, Function.update_self] at hr ⊢
          rw [← List.map_reverse, List.getElem?_map, hr]
          rfl
        · rw [gotten]
          split
          · exact .single (.mark c _)
          · exact .refl
      · exact ⟨c, by simpa [Tables.record, Function.update_of_ne hh] using hr, .refl⟩
    · cases h
  · cases h

theorem record_step {a : ScanAction} (h : Scan.step u key id s a = some s')
    (hr : s.tables.record p = some c) : ∃ c', s'.tables.record p = some c' ∧ c.Evolves c' := by
  cases a with
  | packet pi =>
      cases h
      exact record_cxTrack hr
  | bucket => exact record_bucket h hr

theorem record_run {as : List ScanAction} (h : run (Scan.step u key id) s as = some s')
    (hr : s.tables.record p = some c) : ∃ c', s'.tables.record p = some c' ∧ c.Evolves c' := by
  induction as generalizing s c with
  | nil =>
      cases h
      exact ⟨c, hr, .refl⟩
  | cons a as ih =>
      obtain ⟨t, ht, h⟩ := Option.bind_eq_some_iff.mp h
      obtain ⟨c₁, hc₁, he₁⟩ := record_step ht hr
      obtain ⟨c₂, hc₂, he₂⟩ := ih h hc₁
      exact ⟨c₂, hc₂, he₁.trans he₂⟩

/-- A step moves past one bucket, or stays. -/
theorem pos_step {a : ScanAction} (h : Scan.step u key id s a = some s') :
    (∃ pi, a = .packet pi ∧ s'.pos = s.pos) ∨ (a = .bucket ∧ s'.pos = s.pos + 1) := by
  cases a with
  | packet pi =>
      cases h
      exact Or.inl ⟨pi, rfl, rfl⟩
  | bucket =>
      rw [Scan.step] at h
      split at h
      · split at h
        · cases h
          exact Or.inr ⟨rfl, rfl⟩
        · cases h
      · cases h

theorem pos_run {as : List ScanAction} (h : run (Scan.step u key id) s as = some s') :
    s.pos ≤ s'.pos := by
  induction as generalizing s with
  | nil => cases h; exact Nat.le_refl _
  | cons a as ih =>
      obtain ⟨t, ht, h⟩ := Option.bind_eq_some_iff.mp h
      rcases pos_step ht with ⟨pi, -, hp⟩ | ⟨-, hp⟩
      · exact hp ▸ ih h
      · exact Nat.le_trans (by omega) (ih h)

/-- A scan that gets past a bucket scans it. -/
theorem scanned_between {as : List ScanAction} {b : Nat} (h : run (Scan.step u key id) s as = some s')
    (hle : s.pos ≤ b) (hlt : b < s'.pos) : ∃ as₁ as₂ s₂ s₃, as = as₁ ++ .bucket :: as₂ ∧
      run (Scan.step u key id) s as₁ = some s₂ ∧ s₂.pos = b ∧
      Scan.step u key id s₂ .bucket = some s₃ := by
  induction as generalizing s with
  | nil =>
      cases h
      omega
  | cons a as ih =>
      obtain ⟨t, ht, h⟩ := Option.bind_eq_some_iff.mp h
      by_cases hb : s.pos = b ∧ a = .bucket
      · obtain ⟨hb, rfl⟩ := hb
        exact ⟨[], as, s, t, rfl, rfl, hb, ht⟩
      · have hle' : t.pos ≤ b := by
          rcases pos_step ht with ⟨pi, -, hp⟩ | ⟨ha, hp⟩
          · omega
          · have hne : s.pos ≠ b := fun he => hb ⟨he, ha⟩
            omega
        obtain ⟨as₁, as₂, s₂, s₃, rfl, hr, hp, hs⟩ := ih h hle'
        exact ⟨a :: as₁, as₂, s₂, s₃, rfl, by rw [run_cons, ht]; exact hr, hp, hs⟩

/-! ## Accounts -/

/-- The packet's connection is one that the get asks for. -/
def OfKey (u : Undefined) (key : PerflowKey) (t : Tables) (pi : PacketInfo) : Prop :=
  ∃ c, (cxTrack t pi).1.record (placeOf t pi) = some c ∧ getSelects u key c = true

/-- The packet is raised as an event. -/
def Raised (t : Tables) (pi : PacketInfo) : Prop := (cxTrack t pi).2.events ≠ []

/-- The packet is counted in its record. -/
def Counted (t : Tables) (pi : PacketInfo) (c : Connection) : Prop :=
  (cxTrack t pi).1.record (placeOf t pi) = some c ∧ counted c = (found t pi).elim 0 counted + 1

/-- The packet is counted in its record, and what the record has become by then is sent later. -/
def Reflected (u : Undefined) (key : PerflowKey) (id : BitVec 32) (s : Scan) (pi : PacketInfo)
    (rest : List ScanAction) : Prop :=
  ∃ c s' rest₁ rest₂ s₂ s₃ c₂, Counted s.tables pi c ∧ Scan.step u key id s (.packet pi) = some s' ∧
    rest = rest₁ ++ .bucket :: rest₂ ∧ run (Scan.step u key id) s' rest₁ = some s₂ ∧
    Scan.step u key id s₂ .bucket = some s₃ ∧ s₂.pos = hash pi ∧
    s₂.tables.record (placeOf s.tables pi) = some c₂ ∧ c.Evolves c₂ ∧
    ∃ m ∈ s₃.sent, Serializer.serIalize (c₂.marked id true) = some m.state ∧
      m.hashkey = c₂.cxid.setWidth 32

/-- When a packet is accounted for: its bucket is still to be scanned while its connection is not
marked, or its connection is marked and it is an IPv4 packet. -/
def Kept (s : Scan) (pi : PacketInfo) : Prop :=
  match found s.tables pi with
  | some c => if c.gotten = 0 then s.pos ≤ hash pi else pi.af = .inet ∧ c.gotten ≠ -1
  | none => s.pos ≤ hash pi

omit [Serializer] in
theorem raised_iff {pi : PacketInfo} {t : Tables} :
    Raised t pi ↔ ∃ c, found t pi = some c ∧ c.gotten ≠ 0 ∧ pi.af = .inet ∧ c.gotten ≠ -1 := by
  rcases bucket_cases pi (t.bucket (hash pi)) with ⟨pre, c, post, tr, hb, hpre, htr⟩ | hall
  · rw [Raised, cxTrack_of_some hb hpre htr, found_of_some hb hpre htr, trackOne_events htr]
    by_cases hc : pi.af = .inet ∧ c.gotten ≠ 0 ∧ c.gotten ≠ -1
    · rw [if_pos hc]
      simp only [ne_eq, List.cons_ne_nil, not_false_iff, Option.some.injEq, exists_eq_left', true_iff]
      exact ⟨hc.2.1, hc.1, hc.2.2⟩
    · rw [if_neg hc]
      simp only [ne_eq, not_true, Option.some.injEq, exists_eq_left', false_iff]
      exact fun ⟨h₁, h₂, h₃⟩ => hc ⟨h₂, h₁, h₃⟩
  · rw [Raised, cxTrack_of_none hall, found_of_none hall]
    simp

omit [Serializer] in
/-- A packet is counted unless its connection is marked. -/
theorem counted_iff {pi : PacketInfo} {t : Tables} :
    (∃ c, Counted t pi c) ↔ ∀ c, found t pi = some c → c.gotten = 0 := by
  rcases bucket_cases pi (t.bucket (hash pi)) with ⟨pre, c, post, tr, hb, hpre, htr⟩ | hall
  · simp only [Counted, record_placeOf_of_some hb hpre htr, found_of_some hb hpre htr,
      Option.some.injEq, exists_eq_left', forall_eq', Option.elim_some]
    by_cases hc : c.gotten = 0
    · simp only [hc, iff_true]
      exact counted_of_unmarked htr hc
    · simp only [hc, iff_false, (trackOne_marked htr hc).2]
      intro he
      exact counted_ne_succ c he
  · simp only [Counted, record_placeOf_of_none hall, found_of_none hall, Option.some.injEq,
      exists_eq_left', Option.elim_none]
    simp [counted, cxtNew]

/-- On the way to the end of a scan. -/
theorem accountedAt_iff {pi : PacketInfo} {t : Scan} {rest : List ScanAction}
    (ht : Scan.step u key id s (.packet pi) = some t)
    (hr : run (Scan.step u key id) t rest = some s') (hdone : s'.pos = Macros.bucketSize)
    (hkey : OfKey u key s.tables pi) :
    (Raised s.tables pi ∨ Reflected u key id s pi rest) ↔ Kept s pi := by
  have hpos : t.pos = s.pos := by
    cases ht
    rfl
  have htables : t.tables = (cxTrack s.tables pi).1 := by
    cases ht
    rfl
  have hlt : hash pi < Macros.bucketSize := by
    rw [hash]
    split
    · exact Macros.cxtHash4_lt _ _ _ _ _
    · exact Macros.cxtHash6_lt _ _ _ _ _
  -- A packet that is counted before its bucket is scanned is reflected.
  have hreflected : (∀ c, found s.tables pi = some c → c.gotten = 0) → s.pos ≤ hash pi →
      Reflected u key id s pi rest := by
    intro hfound hle
    obtain ⟨c, hc⟩ := counted_iff.mpr hfound
    obtain ⟨rest₁, rest₂, s₂, s₃, rfl, hr₁, hp, hs⟩ :=
      scanned_between hr (hpos ▸ hle) (hdone ▸ hlt)
    obtain ⟨c₂, hc₂, he⟩ := record_run hr₁ (htables ▸ hc.1)
    have hsel : getSelects u key c₂ = true := by
      obtain ⟨c', hc', hsel⟩ := hkey
      rw [Option.some.inj (hc.1.symm.trans hc'), he.getSelects] at *
      exact hsel
    obtain ⟨m, hm, hstate⟩ : ∃ m ∈ s₃.sent, Serializer.serIalize (c₂.marked id true) = some m.state ∧
        m.hashkey = c₂.cxid.setWidth 32 := by
      have hmem : c₂ ∈ s₂.tables.bucket s₂.pos := by
        rw [hp]
        exact List.mem_reverse.mp (List.mem_of_getElem? hc₂)
      rw [Scan.step] at hs
      split at hs
      · split at hs
        · rename_i bucket sent hb
          cases hs
          obtain ⟨m, hm, hstate⟩ := (getBucket_ok hb).2 c₂ hmem hsel
          exact ⟨m, List.mem_append_right _ hm, hstate⟩
        · cases hs
      · cases hs
    exact ⟨c, t, rest₁, rest₂, s₂, s₃, c₂, hc, ht, rfl, hr₁, hs, hp, hc₂, he, m, hm, hstate⟩
  have hfrom : Reflected u key id s pi rest →
      (∀ c, found s.tables pi = some c → c.gotten = 0) ∧ s.pos ≤ hash pi := by
    rintro ⟨c, t', rest₁, rest₂, s₂, s₃, c₂, hc, ht', -, hr₁, -, hp, -⟩
    refine ⟨counted_iff.mp ⟨c, hc⟩, ?_⟩
    obtain rfl := Option.some.inj (ht.symm.trans ht')
    have hle := pos_run hr₁
    omega
  rw [raised_iff, Kept]
  cases hf : found s.tables pi with
  | none =>
      simp only [hf] at hreflected hfrom ⊢
      constructor
      · rintro (⟨c, hc, -⟩ | hr)
        · cases hc
        · exact (hfrom hr).2
      · exact fun hle => Or.inr (hreflected (fun c hc => by cases hc) hle)
  | some c =>
      simp only [hf, Option.some.injEq, forall_eq', exists_eq_left'] at hreflected hfrom ⊢
      by_cases hc : c.gotten = 0
      · rw [if_pos hc]
        constructor
        · rintro (⟨hne, -⟩ | hr)
          · exact absurd hc hne
          · exact (hfrom hr).2
        · exact fun hle => Or.inr (hreflected hc hle)
      · rw [if_neg hc]
        constructor
        · rintro (⟨-, h⟩ | hr)
          · exact h
          · exact absurd (hfrom hr).1 hc
        · exact fun h => Or.inl ⟨hc, h⟩

/-- Every packet of a connection that the get asks for is raised or reflected. -/
def ScanAccounts (u : Undefined) (key : PerflowKey) (id : BitVec 32) (t : Tables) (as : List ScanAction) :
    Prop :=
  ∀ pre pi rest s, as = pre ++ .packet pi :: rest →
    run (Scan.step u key id) (Scan.start t) pre = some s → OfKey u key s.tables pi →
    Raised s.tables pi ∨ Reflected u key id s pi rest

/-- Every packet of a connection that the get asks for comes before its bucket is scanned, or finds its
connection marked and is an IPv4 packet. -/
def ScanKept (u : Undefined) (key : PerflowKey) (id : BitVec 32) (t : Tables) (as : List ScanAction) :
    Prop :=
  Along (Scan.step u key id) (fun s a => ∀ pi, a = .packet pi → OfKey u key s.tables pi → Kept s pi)
    (Scan.start t) as

/-- In a get from its start to its end, with packets in between. -/
theorem scanAccounts_iff {t : Tables} {as : List ScanAction}
    (hr : run (Scan.step u key id) (Scan.start t) as = some s) (hdone : s.pos = Macros.bucketSize) :
    ScanAccounts u key id t as ↔ ScanKept u key id t as := by
  constructor
  · rintro h pre a rest s₁ rfl hpre pi rfl hkey
    obtain ⟨s₁', hs₁, hrest⟩ := run_append_eq_some.mp hr
    obtain rfl := Option.some.inj (hpre.symm.trans hs₁)
    obtain ⟨t₁, ht₁, hrest⟩ := Option.bind_eq_some_iff.mp hrest
    exact (accountedAt_iff ht₁ hrest hdone hkey).mp (h pre pi rest s₁ rfl hpre hkey)
  · rintro h pre pi rest s₁ rfl hpre hkey
    obtain ⟨s₁', hs₁, hrest⟩ := run_append_eq_some.mp hr
    obtain rfl := Option.some.inj (hpre.symm.trans hs₁)
    obtain ⟨t₁, ht₁, hrest⟩ := Option.bind_eq_some_iff.mp hrest
    exact (accountedAt_iff ht₁ hrest hdone hkey).mpr (h pre _ rest s₁ rfl hpre pi rfl hkey)

end Buckets

/-! ## Samples -/

/-- A packet of the first of two buckets. -/
def samplePacket : PacketInfo where
  af := .inet
  ipSrc := ⟨1, 0, 0, 0⟩
  ipDst := ⟨2, 0, 0, 0⟩
  sPort := 3
  dPort := 4
  proto := 6
  ethType := 0x0800
  tcpFlags := some 2
  packetBytes := 60
  tvSec := 0
  asset := none
  packet := []

theorem scanAccounts_iff_sample : letI := plainMacros; letI := plainSerializer
    ∃ s, run (Scan.step (.const .zero 0) anyKey 7) (Scan.start emptyTables)
        [.packet samplePacket, .bucket, .bucket] = some s ∧ s.pos = 2 ∧
      (ScanAccounts (.const .zero 0) anyKey 7 emptyTables [.packet samplePacket, .bucket, .bucket] ↔
        ScanKept (.const .zero 0) anyKey 7 emptyTables [.packet samplePacket, .bucket, .bucket]) := by
  let _ := plainMacros
  let _ := plainSerializer
  exact ⟨_, rfl, rfl, scanAccounts_iff rfl rfl⟩

/-- The first packet of a connection in a bucket that has been scanned is neither raised nor sent. -/
theorem not_scanAccounts_new : letI := plainMacros; letI := plainSerializer
    ¬ ScanAccounts (.const .zero 0) anyKey 7 emptyTables [.bucket, .packet samplePacket, .bucket] := by
  let _ := plainMacros
  let _ := plainSerializer
  intro h
  -- The first bucket has been scanned.
  have hnone : ∀ c ∈ ([] : List Connection), isOf samplePacket c = false := fun c hc =>
    absurd hc List.not_mem_nil
  let s : Scan := ⟨⟨Function.update emptyTables.bucket 0 [], 0, 0⟩, 1, [], []⟩
  have hkey : OfKey (.const .zero 0) anyKey s.tables samplePacket :=
    ⟨cxtNew 1 samplePacket, record_placeOf_of_none hnone, by decide⟩
  have hkept := (accountedAt_iff rfl rfl rfl hkey).mp (h [.bucket] samplePacket [.bucket] s rfl rfl hkey)
  rw [Kept, found_of_none hnone] at hkept
  exact absurd hkept (by decide)

end OFM.Prads
