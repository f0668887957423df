import Mathlib.Data.FinEnum
import Mathlib.Data.Finset.BooleanAlgebra
import Mathlib.Data.Finset.Lattice.Fold
import Mathlib.Data.Finset.Prod
import Mathlib.Data.Fintype.Prod
import Mathlib.Data.List.Induction
import OFM.Prads.Assets

/-!
# Merged assets

Of an asset, what is there is named by keys: port and protocol of a service, detection and fingerprint of an
operating system. A merge should have the keys of both assets, each once.
-/

namespace OFM.Prads.Assets

/-! ## Keys -/

abbrev ServiceKey := BitVec 16 × BitVec 16

abbrev OsKey := BitVec 8 × Option BString

def ServAsset.key (sa : ServAsset) : ServiceKey := (sa.port, sa.proto)

def OsAsset.key (oa : OsAsset) : OsKey := (oa.detection, oa.rawFp)

def Asset.serviceKeys (a : Asset) : List ServiceKey := a.services.map ServAsset.key

def Asset.osKeys (a : Asset) : List OsKey := a.os.map OsAsset.key

/-- Services and operating systems. -/
abbrev Keys := Finset ServiceKey × Finset OsKey

def Asset.keys (a : Asset) : Keys := (a.serviceKeys.toFinset, a.osKeys.toFinset)

/-! ## The first element -/

section First

variable {α : Type*} {p : α → Bool} {f : α → α} {as bs : List α}

theorem updateFirst_eq_none : updateFirst p f as = none ↔ ∀ a ∈ as, p a = false := by
  induction as with
  | nil => simp [updateFirst]
  | cons a as ih =>
      by_cases h : p a
      · simp [updateFirst, h]
      · simp [updateFirst, h, ih]

theorem map_updateFirst {β : Type*} {g : α → β} (hg : ∀ a, p a → g (f a) = g a)
    (h : updateFirst p f as = some bs) : bs.map g = as.map g := by
  induction as generalizing bs with
  | nil => cases h
  | cons a as ih =>
      rw [updateFirst] at h
      split at h
      · rename_i ha
        cases h
        simp [hg a ha]
      · obtain ⟨cs, hcs, rfl⟩ := Option.map_eq_some_iff.mp h
        simp [ih hcs]

theorem find_updateFirst {a : α} (hp : ∀ a, p (f a) = p a) (h : as.find? p = some a) :
    ((updateFirst p f as).getD as).find? p = some (f a) := by
  induction as with
  | nil => cases h
  | cons b as ih =>
      by_cases hb : p b
      · rw [List.find?_cons_of_pos hb] at h
        cases h
        simp [updateFirst, hb, hp]
      · rw [List.find?_cons_of_neg hb] at h
        have hrest := ih h
        cases hu : updateFirst p f as with
        | none => simpa [updateFirst, hb, hu] using hrest
        | some bs =>
            rw [hu] at hrest
            simpa [updateFirst, hb, hu] using hrest

end First

/-! ## Services -/

section Services

variable [AssetMacros]

@[simp] theorem key_merged (inSa tmpSa : ServAsset) : (inSa.merged tmpSa).key = tmpSa.key := by
  simp only [ServAsset.merged]
  split_ifs <;> rfl

omit [AssetMacros] in
theorem found_iff_key {inSa tmpSa : ServAsset} : inSa.found tmpSa ↔ inSa.key = tmpSa.key := by
  simp [ServAsset.found, ServAsset.key]

/-- A service that is not there is put first. -/
theorem keys_updateSasset (services : List ServAsset) (inSa : ServAsset) :
    (updateSasset services inSa).map ServAsset.key =
      (services.map ServAsset.key).insert inSa.key := by
  rw [updateSasset]
  cases h : updateFirst inSa.found inSa.merged services with
  | none =>
      rw [updateFirst_eq_none] at h
      have hnot : inSa.key ∉ services.map ServAsset.key := by
        intro hmem
        obtain ⟨tmpSa, htmp, hkey⟩ := List.mem_map.mp hmem
        have hfound := h tmpSa htmp
        rw [found_iff_key.mpr hkey.symm] at hfound
        cases hfound
      rw [List.insert_of_not_mem hnot]
      rfl
  | some bs =>
      have hmem : inSa.key ∈ services.map ServAsset.key := by
        by_contra hnot
        have hnone : updateFirst inSa.found inSa.merged services = none := by
          apply updateFirst_eq_none.mpr
          intro tmpSa htmp
          simp only [Bool.eq_false_iff, ne_eq, found_iff_key]
          intro hkey
          exact hnot (List.mem_map.mpr ⟨tmpSa, htmp, hkey.symm⟩)
        rw [hnone] at h
        cases h
      rw [List.insert_of_mem hmem]
      exact map_updateFirst (fun tmpSa _ => key_merged inSa tmpSa) h

theorem keys_updateSassets {services : List ServAsset} (inServices : List ServAsset)
    (hnd : (services.map ServAsset.key).Nodup) :
    ((updateSassetsPerAsset services inServices).map ServAsset.key).Nodup ∧
      ((updateSassetsPerAsset services inServices).map ServAsset.key).toFinset =
        (services.map ServAsset.key).toFinset ∪ (inServices.map ServAsset.key).toFinset := by
  induction inServices generalizing services with
  | nil => simpa [updateSassetsPerAsset] using hnd
  | cons inSa inServices ih =>
      have hnd' : ((updateSasset services inSa).map ServAsset.key).Nodup := by
        rw [keys_updateSasset]
        exact hnd.insert
      obtain ⟨hnodup, hkeys⟩ := ih hnd'
      refine ⟨hnodup, ?_⟩
      rw [updateSassetsPerAsset, List.foldl_cons]
      refine hkeys.trans ?_
      rw [keys_updateSasset]
      ext k
      simp [or_assoc]

end Services

/-! ## Operating systems -/

theorem OsAsset.found_iff {inOa tmpOa : OsAsset} :
    inOa.found tmpOa ↔ inOa.rawFp.isSome ∧ inOa.key = tmpOa.key := by
  simp only [OsAsset.found, OsAsset.key, Prod.mk.injEq, decide_eq_true_eq]
  tauto

theorem OsAsset.key_refreshed {inOa tmpOa : OsAsset} (h : inOa.found tmpOa) :
    (tmpOa.refreshed inOa).key = tmpOa.key := by
  obtain ⟨-, hkey⟩ := OsAsset.found_iff.mp h
  rw [← hkey]
  simp only [OsAsset.key, Prod.mk.injEq] at hkey
  simp [OsAsset.key, OsAsset.refreshed, hkey.1]

/-- The keys from the head on. -/
def OsLoop.keys (s : OsLoop) : List OsKey := (s.before ++ s.after).map OsAsset.key

/-- A walk that finds nothing ends at the end; one that does ends there. -/
theorem seekOs_cases (inOa : OsAsset) (before after : List OsAsset) :
    (inOa.rawFp.isSome ∧ ∃ mid tmpOa rest, after = mid ++ tmpOa :: rest ∧ tmpOa.key = inOa.key ∧
      (∀ oa ∈ mid, oa.key ≠ inOa.key) ∧
      seekOs inOa before after = (before ++ mid, tmpOa.refreshed inOa :: rest) ∧
      (tmpOa.refreshed inOa).key = inOa.key) ∨
    ((inOa.rawFp.isSome → ∀ oa ∈ after, oa.key ≠ inOa.key) ∧
      seekOs inOa before after = (before ++ after, [])) := by
  induction after generalizing before with
  | nil => exact Or.inr ⟨by simp, by simp [seekOs]⟩
  | cons tmpOa after ih =>
      by_cases h : inOa.found tmpOa
      · obtain ⟨hsome, hkey⟩ := OsAsset.found_iff.mp h
        refine Or.inl ⟨hsome, [], tmpOa, after, rfl, hkey.symm, by simp, ?_, ?_⟩
        · simp [seekOs, h]
        · rw [OsAsset.key_refreshed h, hkey]
      · have hne : inOa.rawFp.isSome → tmpOa.key ≠ inOa.key := fun hsome hkey =>
          h (OsAsset.found_iff.mpr ⟨hsome, hkey.symm⟩)
        rw [seekOs, if_neg h]
        rcases ih (before ++ [tmpOa]) with ⟨hsome, mid, oa, rest, rfl, hkey, hmid, hseek, href⟩ | ⟨hnone, hseek⟩
        · refine Or.inl ⟨hsome, tmpOa :: mid, oa, rest, rfl, hkey, ?_, ?_, href⟩
          · simpa using ⟨hne hsome, hmid⟩
          · simpa using hseek
        · refine Or.inr ⟨fun hsome => ?_, ?_⟩
          · simpa using ⟨hne hsome, hnone hsome⟩
          · simpa using hseek

/-- From the `p`-th key on the keys are there in this order, and none is without a fingerprint. -/
def InOrderFrom (keys : List OsKey) (p : Nat) (ks : List OsKey) : Prop :=
  (∀ k ∈ ks, k.2.isSome ∧ k ∈ keys ∧ p ≤ keys.idxOf k) ∧ (ks.map keys.idxOf).Pairwise (· ≤ ·)

theorem inOrderFrom_cons {keys ks : List OsKey} {p : Nat} {k : OsKey} :
    InOrderFrom keys p (k :: ks) ↔
      k.2.isSome ∧ k ∈ keys ∧ p ≤ keys.idxOf k ∧ InOrderFrom keys (keys.idxOf k) ks := by
  simp only [InOrderFrom, List.forall_mem_cons, List.map_cons, List.pairwise_cons, List.forall_mem_map]
  constructor
  · rintro ⟨⟨⟨hsome, hmem, hp⟩, hall⟩, hle, hpw⟩
    exact ⟨hsome, hmem, hp, fun k' hk' => ⟨(hall k' hk').1, (hall k' hk').2.1, hle k' hk'⟩, hpw⟩
  · rintro ⟨hsome, hmem, hp, hall, hpw⟩
    refine ⟨⟨⟨hsome, hmem, hp⟩, fun k' hk' => ?_⟩, fun k' hk' => (hall k' hk').2.2, hpw⟩
    exact ⟨(hall k' hk').1, (hall k' hk').2.1, hp.trans (hall k' hk').2.2⟩

variable {s : OsLoop}

theorem OsLoop.next_cases (hnd : s.keys.Nodup) (inOa : OsAsset) :
    (s.next inOa).keys = s.keys ∧
    ((inOa.rawFp.isSome ∧ inOa.key ∈ s.keys ∧ s.before.length ≤ s.keys.idxOf inOa.key ∧
        (s.next inOa).before.length = s.keys.idxOf inOa.key ∧ (s.next inOa).pushed = s.pushed) ∨
      (¬ (inOa.rawFp.isSome ∧ inOa.key ∈ s.keys ∧ s.before.length ≤ s.keys.idxOf inOa.key) ∧
        (s.next inOa).after = [] ∧ (s.next inOa).pushed = some inOa)) := by
  obtain ⟨before, after, pushed⟩ := s
  rcases seekOs_cases inOa before after with
    ⟨hsome, mid, tmpOa, rest, rfl, hkey, hmid, hseek, href⟩ | ⟨hnone, hseek⟩
  · have hkeys : OsLoop.keys ⟨before, mid ++ tmpOa :: rest, pushed⟩ =
        (before ++ mid).map OsAsset.key ++ inOa.key :: rest.map OsAsset.key := by
      simp [OsLoop.keys, hkey]
    have hnot : inOa.key ∉ (before ++ mid).map OsAsset.key := by
      rw [hkeys, List.nodup_middle, List.nodup_cons, List.mem_append, not_or] at hnd
      exact hnd.1.1
    have hidx : (OsLoop.keys ⟨before, mid ++ tmpOa :: rest, pushed⟩).idxOf inOa.key =
        (before ++ mid).length := by
      rw [hkeys, List.idxOf_append_of_notMem hnot, List.idxOf_cons_self, List.length_map, Nat.add_zero]
    refine ⟨?_, Or.inl ⟨hsome, ?_, ?_, ?_, ?_⟩⟩
    · rw [hkeys]
      simp [OsLoop.next, OsLoop.keys, hseek, href]
    · simp [hkeys]
    · rw [hidx]
      simp
    · rw [hidx]
      simp [OsLoop.next, hseek]
    · simp [OsLoop.next, hseek]
  · refine ⟨?_, Or.inr ⟨?_, ?_, ?_⟩⟩
    · simp [OsLoop.next, OsLoop.keys, hseek]
    · rintro ⟨hsome, hmem, hle⟩
      have hbefore : inOa.key ∈ before.map OsAsset.key := by
        rw [OsLoop.keys, List.map_append, List.mem_append] at hmem
        refine hmem.resolve_right fun hafter => ?_
        obtain ⟨oa, hoa, hkey⟩ := List.mem_map.mp hafter
        exact hnone hsome oa hoa hkey
      rw [OsLoop.keys, List.map_append, List.idxOf_append_of_mem hbefore] at hle
      have hlt := List.idxOf_lt_length_of_mem hbefore
      rw [List.length_map] at hlt
      exact absurd hle (Nat.not_le.mpr hlt)
    · simp [OsLoop.next, hseek]
    · simp [OsLoop.next, hseek]

/-- At the end every one is a new one. -/
theorem OsLoop.pushed_at_end (inOs : List OsAsset) (h : s.after = []) :
    (inOs.foldl OsLoop.next s).keys = s.keys ∧
      (inOs.foldl OsLoop.next s).pushed = (inOs.getLast?).or s.pushed := by
  induction inOs generalizing s with
  | nil => simp
  | cons inOa inOs ih =>
      have hnext : s.next inOa = ⟨s.before, [], some inOa⟩ := by simp [OsLoop.next, h, seekOs]
      obtain ⟨hkeys, hpushed⟩ := ih (s := s.next inOa) (by rw [hnext])
      refine ⟨?_, ?_⟩
      · rw [List.foldl_cons, hkeys, hnext]
        simp [OsLoop.keys, h]
      · rw [List.foldl_cons, hpushed, hnext, List.getLast?_cons]
        cases inOs.getLast? <;> rfl

/-- What there is stays; a new one is put before it only if the others do not come in order, and it is the
last of them. -/
theorem OsLoop.run_cases (hnd : s.keys.Nodup) (inOs : List OsAsset) :
    (inOs.foldl OsLoop.next s).keys = s.keys ∧
    ((InOrderFrom s.keys s.before.length (inOs.map OsAsset.key) ∧
        (inOs.foldl OsLoop.next s).pushed = s.pushed) ∨
      (¬ InOrderFrom s.keys s.before.length (inOs.map OsAsset.key) ∧
        ∃ oa, inOs.getLast? = some oa ∧ (inOs.foldl OsLoop.next s).pushed = some oa)) := by
  induction inOs generalizing s with
  | nil => exact ⟨rfl, Or.inl ⟨by simp [InOrderFrom], rfl⟩⟩
  | cons inOa inOs ih =>
      rw [List.foldl_cons, List.map_cons, inOrderFrom_cons]
      obtain ⟨hkeys, ⟨hsome, hmem, hle, hlen, hpushed⟩ | ⟨hno, hend, hpushed⟩⟩ := OsLoop.next_cases hnd inOa
      · obtain ⟨hkeys', hrest⟩ := ih (hkeys ▸ hnd)
        rw [hkeys, hlen] at hrest
        refine ⟨hkeys'.trans hkeys, ?_⟩
        rcases hrest with ⟨horder, hp⟩ | ⟨horder, oa, hlast, hp⟩
        · exact Or.inl ⟨⟨hsome, hmem, hle, horder⟩, hp.trans hpushed⟩
        · refine Or.inr ⟨fun h => horder h.2.2.2, oa, ?_, hp⟩
          rw [List.getLast?_cons, hlast]
          rfl
      · obtain ⟨hkeys', hp⟩ := OsLoop.pushed_at_end inOs hend
        refine ⟨hkeys'.trans hkeys, Or.inr ⟨fun h => hno ⟨h.1, h.2.1, h.2.2.1⟩, ?_⟩⟩
        rw [hp, hpushed, List.getLast?_cons]
        cases inOs.getLast? with
        | none => exact ⟨inOa, rfl, rfl⟩
        | some oa => exact ⟨oa, rfl, rfl⟩

/-- What comes is there in this order. -/
def InOrder (keys ks : List OsKey) : Prop :=
  (∀ k ∈ ks, k.2.isSome ∧ k ∈ keys) ∧ (ks.map keys.idxOf).Pairwise (· ≤ ·)

/-- What comes is there, but for the last. -/
def LastNew (keys ks : List OsKey) : Prop :=
  ∃ k, ks.getLast? = some k ∧ k ∉ keys ∧ ∀ k' ∈ ks, k' = k ∨ k' ∈ keys

theorem inOrderFrom_zero {keys ks : List OsKey} : InOrderFrom keys 0 ks ↔ InOrder keys ks := by
  simp [InOrderFrom, InOrder]

/-- Where the operating systems are those of both. -/
theorem keys_updateOsassets_iff {os : List OsAsset} (inOs : List OsAsset) (hnd : (os.map OsAsset.key).Nodup) :
    ((updateOsassetsPerAsset os inOs).map OsAsset.key).Nodup ∧
        ((updateOsassetsPerAsset os inOs).map OsAsset.key).toFinset =
          (os.map OsAsset.key).toFinset ∪ (inOs.map OsAsset.key).toFinset ↔
      InOrder (os.map OsAsset.key) (inOs.map OsAsset.key) ∨
        LastNew (os.map OsAsset.key) (inOs.map OsAsset.key) := by
  have hstart : OsLoop.keys ⟨[], os, none⟩ = os.map OsAsset.key := rfl
  obtain ⟨hkeys, h⟩ := OsLoop.run_cases (s := ⟨[], os, none⟩) hnd inOs
  rw [hstart, List.length_nil, inOrderFrom_zero] at h
  have hmap : (updateOsassetsPerAsset os inOs).map OsAsset.key =
      ((inOs.foldl OsLoop.next ⟨[], os, none⟩).pushed.toList.map OsAsset.key) ++ os.map OsAsset.key := by
    rw [updateOsassetsPerAsset, OsLoop.os, List.map_append]
    exact congrArg _ hkeys
  rw [hmap]
  rcases h with ⟨horder, hp⟩ | ⟨horder, oa, hlast, hp⟩
  · rw [hp]
    refine iff_of_true ⟨hnd, ?_⟩ (Or.inl horder)
    ext k
    simp only [Option.toList_none, List.map_nil, List.nil_append, List.mem_toFinset, Finset.mem_union]
    exact ⟨Or.inl, fun h => h.elim id fun hk => (horder.1 k hk).2⟩
  · rw [hp]
    have hlast' : (inOs.map OsAsset.key).getLast? = some oa.key := by rw [List.getLast?_map, hlast]; rfl
    simp only [Option.toList_some, List.map_cons, List.map_nil, List.singleton_append, List.nodup_cons,
      horder, false_or]
    constructor
    · rintro ⟨⟨hnot, -⟩, hunion⟩
      refine ⟨oa.key, hlast', hnot, fun k hk => ?_⟩
      have hmem : k ∈ (oa.key :: os.map OsAsset.key).toFinset := by
        rw [hunion]
        exact Finset.mem_union_right _ (List.mem_toFinset.mpr hk)
      simpa using hmem
    · rintro ⟨k, hk, hnot, hall⟩
      obtain rfl := Option.some.inj (hlast'.symm.trans hk)
      refine ⟨⟨hnot, hnd⟩, ?_⟩
      ext k
      simp only [List.mem_toFinset, List.mem_cons, Finset.mem_union]
      constructor
      · rintro (rfl | hk)
        · exact Or.inr (List.mem_of_getLast? hlast')
        · exact Or.inl hk
      · rintro (hk | hk)
        · exact Or.inr hk
        · exact hall k hk

/-! ## The asset of an address -/

section Puts

variable [AssetMacros] {sip : BitVec 32} {passet : AssetTable} {a : Asset} {u : Keys}

/-- The keys of the asset of an address, each once. -/
def Exactly (sip : BitVec 32) (passet : AssetTable) (u : Keys) : Prop :=
  match getAssetPerSip passet sip with
  | none => u = ⊥
  | some l => l.serviceKeys.Nodup ∧ l.osKeys.Nodup ∧ l.keys = u

def keysAt (sip : BitVec 32) (passet : AssetTable) : Keys :=
  match getAssetPerSip passet sip with
  | none => ⊥
  | some l => l.keys

/-- No key is there twice. -/
def Once (a : Asset) : Prop := a.serviceKeys.Nodup ∧ a.osKeys.Nodup

/-- What a put needs: an older asset brings nothing new; of an asset that is not older the operating systems
are there in this order, or all but the last, which is new; and the first asset has nothing twice. -/
def Fits (sip : BitVec 32) (passet : AssetTable) (a : Asset) : Prop :=
  match getAssetPerSip passet sip with
  | none => Once a
  | some l => if l.lastSeen > a.lastSeen then a.keys ≤ l.keys
      else InOrder l.osKeys a.osKeys ∨ LastNew l.osKeys a.osKeys

theorem get_put_of_none (hget : getAssetPerSip passet sip = none) (ha : a.isOf sip) :
    getAssetPerSip (putAssetPerSip sip (some a) passet) sip = some { a with ref := 0 } := by
  have hfirst : ({ a with ref := 0 } : Asset).isOf sip := ha
  simp only [putAssetPerSip, hget]
  rw [getAssetPerSip, Function.update_self, List.find?_cons_of_pos hfirst]

theorem put_of_older {l : Asset} (hget : getAssetPerSip passet sip = some l)
    (hold : l.lastSeen > a.lastSeen) : putAssetPerSip sip (some a) passet = passet := by
  simp [putAssetPerSip, hget, hold]

theorem get_put_of_some {l : Asset} (hget : getAssetPerSip passet sip = some l)
    (hold : ¬ l.lastSeen > a.lastSeen) :
    getAssetPerSip (putAssetPerSip sip (some a) passet) sip = some (a.update l) := by
  have hisOf : ∀ l : Asset, (a.update l).isOf sip = l.isOf sip := fun _ => rfl
  simp only [putAssetPerSip, hget, if_neg hold]
  rw [getAssetPerSip, Function.update_self]
  exact find_updateFirst hisOf hget

theorem exactly_put_iff (h : Exactly sip passet u) (ha : a.isOf sip) :
    Exactly sip (putAssetPerSip sip (some a) passet) (u ⊔ a.keys) ↔ Fits sip passet a := by
  rw [Exactly] at h
  rw [Fits]
  cases hget : getAssetPerSip passet sip with
  | none =>
      simp only [hget] at h
      simp only [Exactly, get_put_of_none hget ha, h, bot_sup_eq]
      exact ⟨fun h => ⟨h.1, h.2.1⟩, fun h => ⟨h.1, h.2, rfl⟩⟩
  | some l =>
      simp only [hget] at h
      obtain ⟨hservices, hos, rfl⟩ := h
      by_cases hold : l.lastSeen > a.lastSeen
      · simp only [Exactly, put_of_older hget hold, hget, if_pos hold]
        exact ⟨fun h => sup_eq_left.mp h.2.2.symm, fun h => ⟨hservices, hos, (sup_eq_left.mpr h).symm⟩⟩
      · obtain ⟨hservices', hunion⟩ := keys_updateSassets a.services hservices
        have hiff := keys_updateOsassets_iff a.os hos
        simp only [Exactly, get_put_of_some hget hold, if_neg hold]
        constructor
        · rintro ⟨-, hos', hkeys⟩
          exact hiff.mp ⟨hos', congrArg Prod.snd hkeys⟩
        · intro h
          obtain ⟨hos', hkeys⟩ := hiff.mpr h
          exact ⟨hservices', hos', Prod.ext hunion hkeys⟩

/-- The table after the puts. -/
def putAll (sip : BitVec 32) (passet : AssetTable) (puts : List Asset) : AssetTable :=
  puts.foldl (fun passet a => putAssetPerSip sip (some a) passet) passet

/-- The keys that were there and those of the assets that have been put. -/
def unionKeys (sip : BitVec 32) (passet : AssetTable) (puts : List Asset) : Keys :=
  keysAt sip passet ⊔ puts.toFinset.sup Asset.keys

theorem unionKeys_snoc (puts : List Asset) :
    unionKeys sip passet (puts ++ [a]) = unionKeys sip passet puts ⊔ a.keys := by
  have hinsert : (puts ++ [a]).toFinset = insert a puts.toFinset := by
    ext b
    simp
  rw [unionKeys, unionKeys, hinsert, Finset.sup_insert, sup_comm a.keys, sup_assoc]

/-- Nothing is lost and nothing is there twice at any time of the puts, whatever their order, and however
often an asset is put, exactly if the first asset has nothing twice and every put fits. -/
theorem merges_iff (sip : BitVec 32) (passet : AssetTable) (puts : List Asset)
    (hsip : ∀ a ∈ puts, a.isOf sip) :
    (∀ pre suf, puts = pre ++ suf → Exactly sip (putAll sip passet pre) (unionKeys sip passet pre)) ↔
      (∀ l, getAssetPerSip passet sip = some l → Once l) ∧
        ∀ pre a suf, puts = pre ++ a :: suf → Fits sip (putAll sip passet pre) a := by
  have hstart : Exactly sip (putAll sip passet []) (unionKeys sip passet []) ↔
      ∀ l, getAssetPerSip passet sip = some l → Once l := by
    simp only [Exactly, putAll, unionKeys, keysAt, List.foldl_nil, List.toFinset_nil, Finset.sup_empty,
      sup_bot_eq]
    cases getAssetPerSip passet sip <;> simp [Once]
  have hstep : ∀ pre a suf, puts = pre ++ a :: suf → Exactly sip (putAll sip passet pre)
      (unionKeys sip passet pre) → (Exactly sip (putAll sip passet (pre ++ [a]))
        (unionKeys sip passet (pre ++ [a])) ↔ Fits sip (putAll sip passet pre) a) := by
    rintro pre a suf rfl h
    rw [unionKeys_snoc, putAll, List.foldl_append]
    exact exactly_put_iff h (hsip a (by simp))
  constructor
  · intro h
    refine ⟨hstart.mp (h [] puts rfl), fun pre a suf he => ?_⟩
    exact (hstep pre a suf he (h pre _ he)).mp (h (pre ++ [a]) suf (by rw [he, List.append_assoc]; rfl))
  · rintro ⟨hclean, hfits⟩ pre
    induction pre using List.reverseRecOn with
    | nil => exact fun _ _ => hstart.mpr hclean
    | append_singleton pre a ih =>
        intro suf he
        have he' : puts = pre ++ a :: suf := by rw [he, List.append_assoc]; rfl
        exact (hstep pre a suf he' (ih _ he')).mpr (hfits pre a suf he')

end Puts

/-! ## Samples -/

@[reducible] def plainAssetMacros : AssetMacros where
  assetHash4 sip := sip.toNat % 2
  cmpAddr4 addr sip := addr.word0 = sip
  maxServiceCheck := 5

def sampleOs (detection : BitVec 8) : OsAsset := ⟨0, 0, detection, some [0x53], 80, 64, 0⟩

def sampleAsset (os : List OsAsset) : Asset := ⟨0, .inet, 0, ⟨1, 0, 0, 0⟩, [], os, 0⟩

theorem merges_iff_sample : letI := plainAssetMacros
    (∀ a ∈ [sampleAsset [], sampleAsset [sampleOs 1], sampleAsset [sampleOs 1]], a.isOf 1) ∧
    ((∀ pre suf, [sampleAsset [], sampleAsset [sampleOs 1], sampleAsset [sampleOs 1]] = pre ++ suf →
        Exactly 1 (putAll 1 (fun _ => []) pre) (unionKeys 1 (fun _ => []) pre)) ↔
      (∀ l, getAssetPerSip (fun _ => []) 1 = some l → Once l) ∧
        ∀ pre a suf, [sampleAsset [], sampleAsset [sampleOs 1], sampleAsset [sampleOs 1]] = pre ++ a :: suf →
          Fits 1 (putAll 1 (fun _ => []) pre) a) := by
  let _ := plainAssetMacros
  have hsip : ∀ a ∈ [sampleAsset [], sampleAsset [sampleOs 1], sampleAsset [sampleOs 1]], a.isOf 1 := by
    decide
  exact ⟨hsip, merges_iff 1 (fun _ => []) _ hsip⟩

/-- Of two operating systems that come in one asset the first is lost. -/
theorem not_exactly_two : letI := plainAssetMacros
    ¬ ∀ pre suf, [sampleAsset [], sampleAsset [sampleOs 1, sampleOs 2]] = pre ++ suf →
      Exactly 1 (putAll 1 (fun _ => []) pre) (unionKeys 1 (fun _ => []) pre) := by
  let _ := plainAssetMacros
  intro h
  obtain ⟨-, -, hkeys⟩ := h [sampleAsset [], sampleAsset [sampleOs 1, sampleOs 2]] [] rfl
  exact absurd (congrArg (fun u => u.2.card) hkeys) (by decide)

end OFM.Prads.Assets
