import FeeWindow.Proofs.History.Alignment

/-!
The order in which percentiles are asked for. Sorting brings every arrangement of the same values
into one list, because the total order tells any two different values apart, the two zeros and
the values that are not numbers included. So requests that differ in the order of their
percentiles have the same answer, and the same error unless a percentile is itself at fault.
-/

namespace FeeWindow

section Sorting

variable {percentiles others : List Binary64}

theorem sortedPercentiles_perm (percentiles : List Binary64) :
    (sortedPercentiles percentiles).Perm percentiles :=
  List.mergeSort_perm percentiles Binary64.totalLe

theorem pairwise_totalLe_sortedPercentiles (percentiles : List Binary64) :
    (sortedPercentiles percentiles).Pairwise fun x y => x.totalLe y = true := by
  apply List.pairwise_mergeSort
  · intro x y z hxy hyz
    simp only [Binary64.totalLe, decide_eq_true_iff] at hxy hyz ⊢
    exact Int.le_trans hxy hyz
  · intro x y
    simp only [Binary64.totalLe, Bool.or_eq_true, decide_eq_true_iff]
    exact Int.le_total _ _

theorem sortedPercentiles_congr (h : percentiles.Perm others) :
    sortedPercentiles percentiles = sortedPercentiles others := by
  have hperm : (sortedPercentiles percentiles).Perm (sortedPercentiles others) :=
    (sortedPercentiles_perm percentiles).trans (h.trans (sortedPercentiles_perm others).symm)
  exact hperm.eq_of_pairwise (fun _ _ _ _ => Binary64.eq_of_totalLe)
    (pairwise_totalLe_sortedPercentiles percentiles) (pairwise_totalLe_sortedPercentiles others)

theorem pairwise_totalOrder_sortedPercentiles (percentiles : List Binary64) :
    (sortedPercentiles percentiles).Pairwise Binary64.TotalOrder :=
  (pairwise_totalLe_sortedPercentiles percentiles).imp Binary64.totalLe_iff.mp

theorem pairwise_le_sortedPercentiles (h : ∀ p ∈ percentiles, p.IsPercentage) :
    (sortedPercentiles percentiles).Pairwise (· ≤ ·) := by
  have hnumber : ∀ p ∈ sortedPercentiles percentiles, p.isNaN = false := by
    intro p hp
    have hmem := (sortedPercentiles_perm percentiles).mem_iff.mp hp
    exact Binary64.isNaN_eq_false_of_isFinite (h p hmem).1
  apply (pairwise_totalOrder_sortedPercentiles percentiles).imp_of_mem
  intro x y hx hy hxy
  exact Binary64.le_of_totalOrder (hnumber x hx) (hnumber y hy) hxy

end Sorting

namespace Request

variable {a b : Request}

/-- Two requests that differ at most in the order of their percentiles. -/
structure Reordered (a b : Request) : Prop where
  blockCount : a.blockCount = b.blockCount
  highestBlock : a.highestBlock = b.highestBlock
  percentiles : a.percentiles = none ∧ b.percentiles = none ∨
    ∃ given others, a.percentiles = some given ∧ b.percentiles = some others ∧ given.Perm others

theorem Reordered.symm (h : a.Reordered b) : b.Reordered a := by
  refine ⟨h.blockCount.symm, h.highestBlock.symm, ?_⟩
  rcases h.percentiles with ⟨ha, hb⟩ | ⟨given, others, ha, hb, hperm⟩
  · exact .inl ⟨hb, ha⟩
  · exact .inr ⟨others, given, hb, ha, hperm.symm⟩

theorem Reordered.countInRange (h : a.Reordered b) : a.CountInRange ↔ b.CountInRange := by
  unfold CountInRange
  rw [h.blockCount]

theorem Reordered.wellFormed (h : a.Reordered b) (ha : a.WellFormed) : b.WellFormed := by
  obtain ⟨hcount, hall⟩ := ha
  refine ⟨h.countInRange.mp hcount, ?_⟩
  intro percentiles hasked p hp
  rcases h.percentiles with ⟨_, hb⟩ | ⟨given, others, ha, hb, hperm⟩
  · rw [hb] at hasked
    cases hasked
  · rw [hb] at hasked
    obtain rfl := Option.some.inj hasked
    exact hall given ha p (hperm.mem_iff.mpr hp)

theorem Reordered.window_eq (h : a.Reordered b) : a.window = b.window := by
  unfold window
  rw [h.blockCount, h.highestBlock]

theorem Reordered.rewardsFor_eq (h : a.Reordered b) (window : Window) (chain : ChainView) :
    window.rewardsFor chain a.percentiles = window.rewardsFor chain b.percentiles := by
  rcases h.percentiles with ⟨ha, hb⟩ | ⟨given, others, ha, hb, hperm⟩
  · rw [ha, hb]
  · rw [ha, hb]
    simp only [Window.rewardsFor, sortedPercentiles_congr hperm]

/-- A request that is refused although its count is in range has a first invalid percentile. -/
theorem exists_firstInvalid (hcount : a.CountInRange) (h : ¬ a.WellFormed) :
    ∃ p, a.FirstInvalid p := by
  cases hvalid : a.validate with
  | ok => exact absurd (validate_eq_ok_iff.mp hvalid) h
  | error error =>
      rcases validate_eq_error_iff.mp hvalid with ⟨hout, _⟩ | ⟨_, p, hp, _⟩
      · exact absurd hcount hout
      · exact ⟨p, hp⟩

end Request

namespace History

variable {chain : ChainView} {schedule : FeeSchedule} {a b : Request}

theorem compute_congr_of_reordered (h : a.Reordered b) (ha : a.WellFormed) :
    compute chain schedule a = compute chain schedule b := by
  have hb := h.wellFormed ha
  have haValid := Request.validate_eq_ok_iff.mpr ha
  have hbValid := Request.validate_eq_ok_iff.mpr hb
  rcases Nat.lt_or_ge chain.head.val a.highestBlock.val with hafter | hreached
  · rw [compute_eq_of_afterHead haValid hafter,
      compute_eq_of_afterHead hbValid (h.highestBlock ▸ hafter), h.highestBlock]
  · rw [compute_eq haValid hreached, compute_eq hbValid (h.highestBlock ▸ hreached), h.window_eq,
      h.rewardsFor_eq]

/-- Whatever is wrong with a request, only the percentile that is named can depend on the order
of the percentiles. -/
theorem compute_eq_or_firstInvalid (h : a.Reordered b) :
    compute chain schedule a = compute chain schedule b ∨
      ∃ p q, a.FirstInvalid p ∧ b.FirstInvalid q ∧
        compute chain schedule a = .error (.invalidRequest (.invalidPercentile p)) ∧
        compute chain schedule b = .error (.invalidRequest (.invalidPercentile q)) := by
  by_cases ha : a.WellFormed
  · exact .inl (compute_congr_of_reordered h ha)
  have hb : ¬ b.WellFormed := fun hb => ha (h.symm.wellFormed hb)
  by_cases hcount : a.CountInRange
  · have hcount' := h.countInRange.mp hcount
    obtain ⟨p, hp⟩ := Request.exists_firstInvalid hcount ha
    obtain ⟨q, hq⟩ := Request.exists_firstInvalid hcount' hb
    have hpValid := Request.validate_eq_error_iff.mpr (.inr ⟨hcount, p, hp, rfl⟩)
    have hqValid := Request.validate_eq_error_iff.mpr (.inr ⟨hcount', q, hq, rfl⟩)
    exact .inr ⟨p, q, hp, hq, compute_eq_of_invalid hpValid, compute_eq_of_invalid hqValid⟩
  · -- The count is checked first, so no percentile is looked at.
    have hcount' := mt h.countInRange.mpr hcount
    have haValid := Request.validate_eq_error_iff.mpr (.inl ⟨hcount, rfl⟩)
    have hbValid := Request.validate_eq_error_iff.mpr (.inl ⟨hcount', rfl⟩)
    rw [compute_eq_of_invalid haValid, compute_eq_of_invalid hbValid, h.blockCount]
    exact .inl rfl

/-- The first block alone, with the percentiles 101 and 102 in the order given. -/
def outOfRange (reversed : Bool) : Request :=
  let percentiles : List Binary64 := [.ofBits 0x4059400000000000, .ofBits 0x4059800000000000]
  ⟨1, .zero, some (if reversed then percentiles.reverse else percentiles)⟩

/-- Each request is refused for the percentile that it gives first. -/
theorem compute_names_first_invalid :
    (outOfRange false).Reordered (outOfRange true) ∧
    compute (ChainStore.empty .zero).view .free (outOfRange false) =
      .error (.invalidRequest (.invalidPercentile (.ofBits 0x4059400000000000))) ∧
    compute (ChainStore.empty .zero).view .free (outOfRange true) =
      .error (.invalidRequest (.invalidPercentile (.ofBits 0x4059800000000000))) ∧
    compute (ChainStore.empty .zero).view .free (outOfRange false) ≠
      compute (ChainStore.empty .zero).view .free (outOfRange true) := by
  have hreordered : (outOfRange false).Reordered (outOfRange true) :=
    ⟨rfl, rfl, .inr ⟨_, _, rfl, rfl, .swap _ _ _⟩⟩
  have hfirst : (outOfRange false).FirstInvalid (.ofBits 0x4059400000000000) :=
    ⟨[], _, rfl, by decide +kernel, by simp⟩
  have hsecond : (outOfRange true).FirstInvalid (.ofBits 0x4059800000000000) :=
    ⟨[], _, rfl, by decide +kernel, by simp⟩
  have hvalid := Request.validate_eq_error_iff.mpr (.inr ⟨by decide, _, hfirst, rfl⟩)
  have hvalid' := Request.validate_eq_error_iff.mpr (.inr ⟨by decide, _, hsecond, rfl⟩)
  refine ⟨hreordered, compute_eq_of_invalid hvalid, compute_eq_of_invalid hvalid', ?_⟩
  rw [compute_eq_of_invalid hvalid, compute_eq_of_invalid hvalid']
  intro hequal
  have hnamed := HistoryError.invalidRequest.inj (Except.error.inj hequal)
  exact absurd hnamed (by decide +kernel)

/-- Reordered percentiles pass the check together, and then they lead to the same answer or to the
same error. Sorting gives one list for all arrangements of the same values: each of them as often
as it was given, in the total order, and in the numeric order where all are from 0 to 100. -/
theorem compute_reordered :
    (∀ a b : Request, a.Reordered b →
      (a.validate = .ok () ↔ b.validate = .ok ()) ∧
      (a.validate = .ok () → ∀ (chain : ChainView) (schedule : FeeSchedule),
        compute chain schedule a = compute chain schedule b) ∧
      ∀ (chain : ChainView) (schedule : FeeSchedule),
        compute chain schedule a = compute chain schedule b ∨
          ∃ p q, a.FirstInvalid p ∧ b.FirstInvalid q ∧
            compute chain schedule a = .error (.invalidRequest (.invalidPercentile p)) ∧
            compute chain schedule b = .error (.invalidRequest (.invalidPercentile q))) ∧
    (∀ percentiles : List Binary64, (sortedPercentiles percentiles).Perm percentiles ∧
      (sortedPercentiles percentiles).Pairwise Binary64.TotalOrder) ∧
    (∀ percentiles others : List Binary64, percentiles.Perm others →
      sortedPercentiles percentiles = sortedPercentiles others) ∧
    ∀ percentiles : List Binary64, (∀ p ∈ percentiles, p.IsPercentage) →
      (sortedPercentiles percentiles).Pairwise (· ≤ ·) := by
  refine ⟨?_, ?_, ?_, ?_⟩
  · intro a b h
    simp only [Request.validate_eq_ok_iff]
    refine ⟨⟨h.wellFormed, h.symm.wellFormed⟩, ?_, ?_⟩
    · intro ha chain schedule
      exact compute_congr_of_reordered h ha
    · intro chain schedule
      exact compute_eq_or_firstInvalid h
  · intro percentiles
    exact ⟨sortedPercentiles_perm percentiles, pairwise_totalOrder_sortedPercentiles percentiles⟩
  · intro percentiles others h
    exact sortedPercentiles_congr h
  · intro percentiles h
    exact pairwise_le_sortedPercentiles h

/-- Both zeros among the percentiles, in two orders. -/
theorem compute_reordered_zeros :
    let given : List Binary64 := [.hundred, .zero, .signedZero true]
    let others : List Binary64 := [.signedZero true, .hundred, .zero]
    (∃ history, compute gapStore.view gapSchedule ⟨3, .ofUInt64 5, some given⟩ = .ok history ∧
      compute gapStore.view gapSchedule ⟨3, .ofUInt64 5, some others⟩ = .ok history) ∧
    sortedPercentiles given = sortedPercentiles others ∧
    (sortedPercentiles given).Pairwise (· ≤ ·) := by
  intro given others
  obtain ⟨hrequests, _, hsame, hascending⟩ := compute_reordered
  have hperm : given.Perm others := by decide +kernel
  let a : Request := ⟨3, .ofUInt64 5, some given⟩
  let b : Request := ⟨3, .ofUInt64 5, some others⟩
  have hvalid : a.validate = .ok () := Request.validate_eq_ok_iff.mpr (by decide +kernel)
  obtain ⟨rewards, hcompute⟩ : ∃ rewards, compute gapStore.view gapSchedule a =
      .ok (ofWindow a.window gapStore.view gapSchedule rewards) :=
    exists_compute_eq_ofWindow gapSchedule (by decide +kernel) (by decide) (by decide +kernel)
  obtain ⟨_, hequal, _⟩ := hrequests a b ⟨rfl, rfl, .inr ⟨given, others, rfl, rfl, hperm⟩⟩
  have hother := (hequal hvalid gapStore.view gapSchedule).symm.trans hcompute
  exact ⟨⟨_, hcompute, hother⟩, hsame given others hperm, hascending given (by decide +kernel)⟩

end History

end FeeWindow
