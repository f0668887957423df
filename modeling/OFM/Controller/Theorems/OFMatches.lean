import OFM.Controller.Lemmas.OFMatches

/-!
# The rules of a key

Which packets the matches of a key match, for every key.
-/

namespace OFM.Controller
open OFM.Lib

namespace PerflowKey

variable {key : PerflowKey}

/-- A packet matches one of the matches of a key exactly when it satisfies the key as it has been
compiled. -/
theorem toOFMatches_compiled (ha : key.Addressed) (hm : key.MasksInRange)
    (hmask : key.nwDst.isSome = true → key.nwSrcMask.isSome = true → key.nwDstMask.isSome = true) :
    ∃ ms, key.toOFMatches = .ok ms ∧
      ∀ p : SwitchHeader, (∃ m ∈ ms, m.Matches p) ↔ key.compiled.Satisfied p.header := by
  have hbase : ∀ p : SwitchHeader, key.baseMatch.Matches p ↔
      { key.compiled with flip := false }.Satisfied p.header := fun p =>
    (OFMatch.matches_iff baseMatch_open p).trans (baseMatch_same hm hmask).satisfied_iff
  have hmatches : key.toOFMatches = if key.getTpFlip = true then
      .ok (key.baseMatch :: (flipPorts key.baseMatch).toList) else .ok [key.baseMatch] := by
    rw [toOFMatches, toOFMatch_eq ha hmask]
    rfl
  cases hflip : key.getTpFlip with
  | false =>
      refine ⟨[key.baseMatch], by rw [hmatches, hflip]; rfl, fun p => ?_⟩
      have he : { key.compiled with flip := false } = key.compiled := by
        rw [show (false : Bool) = key.compiled.flip from hflip.symm]
      rw [← he, ← hbase p]
      simp
  | true =>
      refine ⟨_, by rw [hmatches, hflip]; rfl, fun p => ?_⟩
      have hflip' : key.compiled.flip = true := hflip
      rw [FlowKey.satisfied_iff_flip key.compiled, ← hbase p]
      simp only [List.mem_cons, exists_eq_or_imp, hflip', true_and]
      rcases flipPorts_spec (m := key.baseMatch) baseMatch_open with ⟨hnone, hsrc, hdst⟩ | ⟨m', hsome, ho, hk⟩
      · -- No port is compared, and the flipped key is the key itself.
        have hsame := baseMatch_same hm hmask
        have hswap : { key.compiled.swapPorts with flip := false } =
            { key.compiled with flip := false } := by
          have hsrc' : key.compiled.tpSrc = none := hsame.tpSrc.symm.trans hsrc
          have hdst' : key.compiled.tpDst = none := hsame.tpDst.symm.trans hdst
          simp only [FlowKey.swapPorts, hsrc', hdst']
        rw [hnone, hswap, ← hbase p]
        simp
      · have hm' : m'.Matches p ↔ { key.compiled.swapPorts with flip := false }.Satisfied p.header := by
          rw [OFMatch.matches_iff ho, hk]
          exact (baseMatch_same hm hmask).swapPorts.satisfied_iff
        rw [hsome, ← hm']
        simp

/-- The masks of a key are compiled as they are: an address has a mask, and that of the destination is
looked at only when the source has a mask; otherwise the first bit alone is compared. -/
def MasksCompiled (key : PerflowKey) : Prop :=
  (key.nwSrc = none ∨ key.nwSrcMask.isSome = true) ∧
    (key.nwDst = none ∨ (key.nwSrcMask.isSome = true ∧ key.nwDstMask.isSome = true) ∨
      (key.nwSrcMask = none ∧ key.nwDstMask = some 1))

instance (key : PerflowKey) : Decidable key.MasksCompiled := inferInstanceAs (Decidable (_ ∧ _))

/-- The matches of a key exist and match the packets of its traffic. -/
def RulesExact (key : PerflowKey) : Prop :=
  ∃ ms, key.toOFMatches = .ok ms ∧
    ∀ p : SwitchHeader, (∃ m ∈ ms, m.Matches p) ↔ key.flowKey.Satisfied p.header

theorem flowKey_prefixes (key : PerflowKey) : key.flowKey =
    key.flowKey.withPrefixes ((key.nwSrcMask.map Int.toNat).getD 32)
      ((key.nwDstMask.map Int.toNat).getD 32) := by
  simp [flowKey, FlowKey.withPrefixes, Function.comp_def]

theorem compiled_prefixes (key : PerflowKey) : key.compiled =
    key.flowKey.withPrefixes ((key.nwSrcMask.map Int.toNat).getD 1)
      (if key.nwSrcMask.isSome then (key.nwDstMask.map Int.toNat).getD 32 else 1) := by
  simp [compiled, flowKey, FlowKey.withPrefixes, Function.comp_def]

/-- The matches of a key are exact when the prefixes that are compared are those of the key. -/
theorem rulesExact_iff_prefixes (ha : key.Addressed) (hm : key.MasksInRange)
    (hmask : key.nwDst.isSome = true → key.nwSrcMask.isSome = true → key.nwDstMask.isSome = true) :
    key.RulesExact ↔
      (key.nwSrc = none ∨
        (key.nwSrcMask.map Int.toNat).getD 1 = (key.nwSrcMask.map Int.toNat).getD 32) ∧
      (key.nwDst = none ∨
        (if key.nwSrcMask.isSome then (key.nwDstMask.map Int.toNat).getD 32 else 1) =
          (key.nwDstMask.map Int.toNat).getD 32) := by
  have hlength : ∀ (mask : Option Int) (d : Nat), (∀ n ∈ mask, 0 ≤ n ∧ n ≤ 32) → d ≤ 32 →
      (mask.map Int.toNat).getD d ≤ 32 := by
    intro mask d hr hd
    cases mask with
    | none => exact hd
    | some n =>
        have hn := hr n rfl
        simp only [Option.map_some, Option.getD_some]
        omega
  have hdst : (if key.nwSrcMask.isSome then (key.nwDstMask.map Int.toNat).getD 32 else 1) ≤ 32 := by
    split
    · exact hlength _ _ hm.2 (by decide)
    · decide
  have hprefixes := key.flowKey.withPrefixes_satisfied_iff
    (hlength key.nwSrcMask 1 hm.1 (by decide)) hdst (hlength key.nwSrcMask 32 hm.1 (by decide))
    (hlength key.nwDstMask 32 hm.2 (by decide))
  rw [← compiled_prefixes, ← flowKey_prefixes] at hprefixes
  have hnone : ∀ {α : Type} (o : Option JavaString) (f : JavaString → α), o.map f = none ↔ o = none :=
    fun o f => Option.map_eq_none_iff
  simp only [flowKey, hnone] at hprefixes
  rw [← hprefixes]
  obtain ⟨ms, hms, hcompiled⟩ := toOFMatches_compiled ha hm hmask
  constructor
  · rintro ⟨ms', hms', hall⟩ dlType nwProto nwSrc nwDst tpSrc tpDst
    obtain rfl : ms = ms' := Except.ok.inj (hms.symm.trans hms')
    exact (hcompiled ⟨0, 0, 0, 0, 0, dlType, 0, nwProto, nwSrc, nwDst, tpSrc, tpDst⟩).symm.trans
      (hall ⟨0, 0, 0, 0, 0, dlType, 0, nwProto, nwSrc, nwDst, tpSrc, tpDst⟩)
  · intro h
    exact ⟨ms, hms, fun p => (hcompiled p).trans
      (h p.dlType p.nwProto p.nwSrc p.nwDst p.tpSrc p.tpDst)⟩

/-- For every key with addresses and prefix lengths: its matches exist and match exactly the packets
that satisfy it if and only if its masks are compiled as they are. -/
theorem toOFMatches_exact_iff (ha : key.Addressed) (hm : key.MasksInRange) :
    key.RulesExact ↔ key.MasksCompiled := by
  by_cases hmask : key.nwDst.isSome = true → key.nwSrcMask.isSome = true → key.nwDstMask.isSome = true
  · rw [rulesExact_iff_prefixes ha hm hmask, MasksCompiled]
    have hsrc : (key.nwSrcMask.map Int.toNat).getD 1 = (key.nwSrcMask.map Int.toNat).getD 32 ↔
        key.nwSrcMask.isSome = true := by
      cases key.nwSrcMask <;> simp
    rw [hsrc]
    refine and_congr_right fun _ => ?_
    cases hd : key.nwDst with
    | none => simp
    | some text =>
        cases hs : key.nwSrcMask with
        | none =>
            cases hn : key.nwDstMask with
            | none => simp
            | some n =>
                have hrange := hm.2 n hn
                simp only [Option.map_some, Option.getD_some, Option.isSome_none, Bool.false_eq_true,
                  if_false, false_and, false_or, true_and, Option.some.injEq]
                simp only [reduceCtorEq, false_or]
                omega
        | some n =>
            have hsome := hmask (by simp [hd]) (by simp [hs])
            simp [hsome]
  · have hall : key.nwDst.isSome = true ∧ key.nwSrcMask.isSome = true ∧ key.nwDstMask = none := by
      simpa using hmask
    obtain ⟨hd, hs, hn⟩ := hall
    constructor
    · rintro ⟨ms, hms, -⟩
      rw [toOFMatches] at hms
      cases hbase : key.toOFMatch with
      | error e =>
          rw [hbase] at hms
          cases hms
      | ok m => exact absurd hbase (toOFMatch_error hd hs hn m)
    · rintro ⟨-, hdst⟩
      rw [Option.isSome_iff_ne_none] at hd
      rcases hdst with hnone | ⟨-, hsome⟩ | ⟨hnone, -⟩
      · exact absurd hnone hd
      · rw [hn] at hsome
        cases hsome
      · rw [hnone] at hs
        cases hs

/-- The traffic from `10.0.0.1` and its neighbours in a network of the given size. -/
def sampleKey (mask : Option Int) : PerflowKey :=
  { PerflowKey.new with nwSrc := some IPv4.sampleText, nwSrcMask := mask }

theorem toOFMatches_exact_iff_sample :
    (sampleKey (some 24)).RulesExact ↔ (sampleKey (some 24)).MasksCompiled :=
  toOFMatches_exact_iff
    ⟨fun text h => by cases h; decide, fun text h => by cases h⟩
    ⟨fun mask h => by cases h; decide, fun mask h => by cases h⟩

/-- Without a mask, one bit of the address is compared: a packet from `10.0.0.2` matches the rule for
`10.0.0.1`. -/
theorem toOFMatches_without_mask :
    (sampleKey none).Addressed ∧ (sampleKey none).MasksInRange ∧ ¬ (sampleKey none).RulesExact := by
  have ha : (sampleKey none).Addressed :=
    ⟨fun text h => by cases h; decide, fun text h => by cases h⟩
  have hm : (sampleKey none).MasksInRange := ⟨fun mask h => (by cases h), fun mask h => by cases h⟩
  refine ⟨ha, hm, ?_⟩
  rintro ⟨ms, hms, hall⟩
  obtain ⟨ms', hms', hcompiled⟩ := toOFMatches_compiled ha hm (by decide)
  obtain rfl : ms = ms' := Except.ok.inj (hms.symm.trans hms')
  have hsatisfied := (hall ⟨0, 0, 0, 0, 0, 0, 0, 0, 0x0a000002, 0, 0, 0⟩).mp
    ((hcompiled _).mpr (by decide))
  exact absurd hsatisfied (by decide)

end PerflowKey

end OFM.Controller
