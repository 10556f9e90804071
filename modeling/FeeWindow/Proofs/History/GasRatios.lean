import FeeWindow.Proofs.Binary64.Faithful
import FeeWindow.Proofs.Binary64.Quotients
import FeeWindow.Proofs.History.Alignment

/-!
The share of its gas limit that a block used, as a binary64 number. A limit that is not zero becomes
a number of at least one, so the share is no larger than the gas that was used and finite like it;
and the conversion keeps the order of amounts, so gas within the limit is a share of at most one.
-/

namespace FeeWindow

open Binary64

theorem Amount.one_le_of_ne_zero {a : Amount} (h : a ≠ zero) : one ≤ a := by
  apply Nat.pos_of_ne_zero
  intro hzero
  exact h (Amount.ext hzero)

/-- An amount that is not zero becomes a number of at least one. -/
theorem Amount.one_le_units_toBinary64 {a : Amount} (h : a ≠ zero) :
    unitsPerOne ≤ units a.toBinary64.rank := by
  have hone : units one.toBinary64.rank = one.val * unitsPerOne := units_toBinary64 (by decide)
  calc unitsPerOne = units one.toBinary64.rank := by rw [hone, val_one, Nat.one_mul]
    _ ≤ units a.toBinary64.rank := units_le_units.mpr (rank_toBinary64_le_rank (one_le_of_ne_zero h))

namespace BlockHeader

variable {header more : BlockHeader}

theorem gasUsedRatio_of_no_limit (h : header.gasLimit = Amount.zero) :
    header.gasUsedRatio = Binary64.zero :=
  if_pos h

theorem gasUsedRatio_of_limit (h : header.gasLimit ≠ Amount.zero) :
    header.gasUsedRatio = header.gasUsed.toBinary64 / header.gasLimit.toBinary64 :=
  if_neg h

theorem isMagnitude_gasUsedRatio (header : BlockHeader) : header.gasUsedRatio.IsMagnitude := by
  by_cases hlimit : header.gasLimit = Amount.zero
  · rw [gasUsedRatio_of_no_limit hlimit]
    exact ⟨rfl, by decide⟩
  · rw [gasUsedRatio_of_limit hlimit]
    apply IsMagnitude.div
    · exact header.gasUsed.isMagnitude_toBinary64
    · exact header.gasLimit.isMagnitude_toBinary64
    · exact Amount.one_le_units_toBinary64 hlimit

theorem value_gasUsedRatio_le_one (h : header.gasUsed ≤ header.gasLimit) :
    header.gasUsedRatio.value ≤ 1 := by
  rw [(isMagnitude_gasUsedRatio header).value_le_one_iff]
  by_cases hlimit : header.gasLimit = Amount.zero
  · simp [gasUsedRatio_of_no_limit hlimit, zero, signedZero]
  · rw [gasUsedRatio_of_limit hlimit]
    apply IsMagnitude.units_div_le
    · exact header.gasUsed.isMagnitude_toBinary64
    · exact header.gasLimit.isMagnitude_toBinary64
    · exact rank_pos_of_one_le (Amount.one_le_units_toBinary64 hlimit)
    · exact Amount.toBinary64_le_toBinary64 h

/-- Under one limit more gas is no smaller a share. -/
theorem gasUsedRatio_le_gasUsedRatio (hlimit : more.gasLimit = header.gasLimit)
    (h : header.gasUsed ≤ more.gasUsed) : header.gasUsedRatio ≤ more.gasUsedRatio := by
  by_cases hzero : header.gasLimit = Amount.zero
  · rw [gasUsedRatio_of_no_limit hzero, gasUsedRatio_of_no_limit (hlimit.trans hzero)]
    decide
  · rw [gasUsedRatio_of_limit hzero, gasUsedRatio_of_limit (hlimit ▸ hzero), hlimit]
    apply IsMagnitude.div_le_div
    · exact header.gasUsed.isMagnitude_toBinary64
    · exact more.gasUsed.isMagnitude_toBinary64
    · exact header.gasLimit.isMagnitude_toBinary64
    · exact header.gasLimit.isMagnitude_toBinary64
    · exact rank_pos_of_one_le (Amount.one_le_units_toBinary64 hzero)
    · exact Amount.toBinary64_le_toBinary64 h
    · exact Amount.toBinary64_le_toBinary64 (Nat.le_refl _)

/-- The whole limit is exactly one. -/
theorem value_gasUsedRatio_of_eq (hlimit : header.gasLimit ≠ Amount.zero)
    (h : header.gasUsed = header.gasLimit) : header.gasUsedRatio.value = 1 := by
  have hpos := rank_pos_of_one_le (Amount.one_le_units_toBinary64 hlimit)
  have hunits := header.gasLimit.isMagnitude_toBinary64.units_div_self hpos
  rw [(isMagnitude_gasUsedRatio header).value_eq_units, gasUsedRatio_of_limit hlimit, h, hunits]
  exact div_self cast_unitsPerOne_pos.ne'

/-- Even one unit of gas of the largest limit is more than nothing. -/
theorem value_gasUsedRatio_eq_zero_iff (hlimit : header.gasLimit ≠ Amount.zero) :
    header.gasUsedRatio.value = 0 ↔ header.gasUsed = Amount.zero := by
  have hused := header.gasUsed.isMagnitude_toBinary64
  have hgas := header.gasLimit.isMagnitude_toBinary64
  have hone := Amount.one_le_units_toBinary64 hlimit
  rw [(isMagnitude_gasUsedRatio header).value_eq_zero_iff, gasUsedRatio_of_limit hlimit]
  constructor
  · intro hrank
    by_contra hne
    have hleast : 0 < (Amount.one.toBinary64 / Amount.largest.toBinary64).rank := by
      decide +kernel
    have hlargest := Amount.largest.isMagnitude_toBinary64
    have hquotient := Amount.one.isMagnitude_toBinary64.div hlargest
      (Amount.one_le_units_toBinary64 (by decide))
    have hle : Amount.one.toBinary64 / Amount.largest.toBinary64 ≤
        header.gasUsed.toBinary64 / header.gasLimit.toBinary64 := by
      apply Amount.one.isMagnitude_toBinary64.div_le_div hused hlargest hgas
      · exact rank_pos_of_one_le hone
      · exact Amount.toBinary64_le_toBinary64 (Amount.one_le_of_ne_zero hne)
      · exact Amount.toBinary64_le_toBinary64 header.gasLimit.val_le_largest
    have hpos := (hquotient.isNonneg.le_iff (hused.div hgas hone).isNonneg).mp hle
    omega
  · intro hzero
    apply hused.rank_div_of_zero hgas hone
    rw [hzero]
    decide +kernel

end BlockHeader

namespace History

variable {chain : ChainView} {schedule : FeeSchedule} {request : Request} {history : History}

/-- Every share of an answer is that of a header which the chain has. -/
theorem exists_header_of_mem_gasUsedRatios (h : compute chain schedule request = .ok history)
    {ratio : Binary64} (hratio : ratio ∈ history.gasUsedRatios) :
    ∃ n header, chain.header? n = some header ∧ header.gasUsedRatio = ratio := by
  obtain ⟨_, _, rewards, _, hhistory⟩ := compute_eq_ok_iff.mp h
  rw [hhistory] at hratio
  obtain ⟨header, hheader, hshare⟩ := List.mem_map.mp hratio
  obtain ⟨n, _, hstored⟩ := List.mem_filterMap.mp hheader
  exact ⟨n, header, hstored, hshare⟩

theorem gasUsed_le_of_gapStore {n : BlockNumber} {header : BlockHeader}
    (h : gapStore.view.header? n = some header) : header.gasUsed ≤ header.gasLimit := by
  obtain ⟨block, hblock, hheader⟩ := Option.map_eq_some_iff.mp h
  simp only [gapStore, ChainStore.applyAll, List.foldl_cons, List.foldl_nil, ChainStore.apply,
    ChainStore.block?_insertReceipt, ChainStore.block?_setHead, ChainStore.block?_insertBlock,
    ChainStore.block?_empty] at hblock
  split at hblock
  · obtain rfl := Option.some.inj hblock
    subst hheader
    decide
  · split at hblock
    · obtain rfl := Option.some.inj hblock
      subst hheader
      decide
    · cases hblock

/-- The share of gas of every header can be reported: it is at most one where the gas is within the
limit, and exactly one where it is the whole limit; it is zero where the limit is zero, and else
only where no gas was used; and under one limit it does not fall where more gas was used. So all
shares in an answer can be reported, and all lie between zero and one where no block of the chain
goes beyond its limit. -/
theorem gasUsedRatios_reportable :
    (∀ header : BlockHeader, header.gasUsedRatio.IsReportable ∧
      (header.gasUsed ≤ header.gasLimit → header.gasUsedRatio.value ≤ 1) ∧
      (header.gasLimit = Amount.zero → header.gasUsedRatio = Binary64.zero) ∧
      (header.gasLimit ≠ Amount.zero →
        (header.gasUsed = header.gasLimit → header.gasUsedRatio.value = 1) ∧
        (header.gasUsedRatio.value = 0 ↔ header.gasUsed = Amount.zero))) ∧
    (∀ header more : BlockHeader, more.gasLimit = header.gasLimit →
      header.gasUsed ≤ more.gasUsed →
        header.gasUsedRatio ≤ more.gasUsedRatio ∧
        header.gasUsedRatio.value ≤ more.gasUsedRatio.value) ∧
    ∀ chain schedule request history, compute chain schedule request = .ok history →
      (∀ ratio ∈ history.gasUsedRatios, ratio.IsReportable) ∧
      ((∀ n header, chain.header? n = some header → header.gasUsed ≤ header.gasLimit) →
        ∀ ratio ∈ history.gasUsedRatios, 0 ≤ ratio.value ∧ ratio.value ≤ 1) := by
  refine ⟨?_, ?_, ?_⟩
  · intro header
    refine ⟨header.isMagnitude_gasUsedRatio.isReportable, BlockHeader.value_gasUsedRatio_le_one,
      BlockHeader.gasUsedRatio_of_no_limit, ?_⟩
    intro hlimit
    exact ⟨BlockHeader.value_gasUsedRatio_of_eq hlimit,
      BlockHeader.value_gasUsedRatio_eq_zero_iff hlimit⟩
  · intro header more hlimit hused
    have hle := BlockHeader.gasUsedRatio_le_gasUsedRatio hlimit hused
    refine ⟨hle, ?_⟩
    exact header.isMagnitude_gasUsedRatio.value_le_value more.isMagnitude_gasUsedRatio hle
  · intro chain schedule request history h
    constructor
    · intro ratio hratio
      obtain ⟨_, header, _, hshare⟩ := exists_header_of_mem_gasUsedRatios h hratio
      rw [← hshare]
      exact header.isMagnitude_gasUsedRatio.isReportable
    · intro hwithin ratio hratio
      obtain ⟨n, header, hstored, hshare⟩ := exists_header_of_mem_gasUsedRatios h hratio
      rw [← hshare]
      refine ⟨header.isMagnitude_gasUsedRatio.value_nonneg, ?_⟩
      exact BlockHeader.value_gasUsedRatio_le_one (hwithin n header hstored)

/-- One unit of gas short of the largest limit, which becomes the same number as the limit does. -/
def nearlyFull : BlockHeader :=
  ⟨Amount.zero, none, Amount.largest.subClamped Amount.one, Amount.largest, sampleHash 0⟩

def full : BlockHeader := { nearlyFull with gasUsed := Amount.largest }

/-- A limit of one unit of gas, overrun as far as possible. -/
def overrun : BlockHeader := { full with gasLimit := Amount.one }

/-- The ends of the range, and a chain with a gap whose blocks keep to their limits. -/
theorem gasUsedRatios_reportable_at_ends :
    (nearlyFull.gasUsed ≤ nearlyFull.gasLimit ∧ nearlyFull.gasUsedRatio.value ≤ 1) ∧
    (overrun.gasLimit ≠ Amount.zero ∧ overrun.gasUsedRatio.IsReportable ∧
      overrun.gasUsedRatio = Amount.largest.toBinary64 ∧
      (overrun.gasUsedRatio.value = 0 ↔ overrun.gasUsed = Amount.zero)) ∧
    (full.gasLimit = nearlyFull.gasLimit ∧ nearlyFull.gasUsed ≤ full.gasUsed ∧
      nearlyFull.gasUsedRatio ≤ full.gasUsedRatio) ∧
    ∃ history, compute gapStore.view gapSchedule gapRequest = .ok history ∧
      history.gasUsedRatios.length = 2 ∧
      (∀ n header, gapStore.view.header? n = some header → header.gasUsed ≤ header.gasLimit) ∧
      ∀ ratio ∈ history.gasUsedRatios, 0 ≤ ratio.value ∧ ratio.value ≤ 1 := by
  obtain ⟨hheaders, hmore, hanswers⟩ := gasUsedRatios_reportable
  have hfull : nearlyFull.gasUsed ≤ nearlyFull.gasLimit := by decide
  have hlimit : overrun.gasLimit ≠ Amount.zero := by decide
  have hused : nearlyFull.gasUsed ≤ full.gasUsed := by decide
  have hshare : overrun.gasUsedRatio = Amount.largest.toBinary64 := by decide +kernel
  refine ⟨⟨hfull, (hheaders nearlyFull).2.1 hfull⟩, ⟨hlimit, (hheaders overrun).1, hshare,
    ((hheaders overrun).2.2.2 hlimit).2⟩, ⟨rfl, hused, (hmore nearlyFull full rfl hused).1⟩, ?_⟩
  obtain ⟨rewards, hcompute⟩ : ∃ rewards, compute gapStore.view gapSchedule gapRequest =
      .ok (ofWindow gapRequest.window gapStore.view gapSchedule rewards) :=
    exists_compute_eq_ofWindow gapSchedule (by decide +kernel) (by decide +kernel)
      (by decide +kernel)
  have hlength : (gapRequest.window.headers gapStore.view).length = 2 := by decide +kernel
  refine ⟨_, hcompute, ?_, fun n header => gasUsed_le_of_gapStore, ?_⟩
  · rw [← hlength]
    exact List.length_map _
  · exact (hanswers _ _ _ _ hcompute).2 fun n header => gasUsed_le_of_gapStore

end History

end FeeWindow
