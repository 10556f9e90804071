import FeeWindow.Proofs.FeeMarket.Adjustment

/-!
How far one block can move the base fee. Where the product of fee and gas distance is an amount,
that is the fee over the change denominator, and at least one wei upwards. Beyond that a cut goes
down to zero and a raise up to the end of the range, so there the bound is lost unless zero or the
end of the range lies within it.
-/

namespace FeeWindow.FeeMarket

/-- Whether the fee of a block lies within the bounds around the fee of its parent: downwards for
gas below the target, upwards for gas from the target to twice of it. -/
def MovesBounded (market : FeeMarket) (block : BlockNumber) (fee : GasPrice)
    (gas target : Gas) : Prop :=
  (gas.val < target.val →
    fee.val - fee.val / market.changeDenominator.val ≤ (market.baseFee block fee gas target).val ∧
    (market.baseFee block fee gas target).val ≤ fee.val) ∧
  (target.val < gas.val → gas.val ≤ 2 * target.val →
    fee.val ≤ (market.baseFee block fee gas target).val ∧
    (market.baseFee block fee gas target).val ≤
      min (fee.val + max (fee.val / market.changeDenominator.val) 1) Amount.largest.val)

/-- Two wei and an empty block under a target of half the range: the exact cut rounds down to
nothing, but the product is just out of range. -/
theorem baseFee_loses_two_wei :
    Amount.one ≠ (startingAt Amount.zero).activationBlock ∧ 0 < halfRange.val ∧
    ¬ (startingAt Amount.zero).MovesBounded Amount.one (.ofUInt64 2) Amount.zero halfRange := by
  refine ⟨by decide, by decide, ?_⟩
  rintro ⟨hbelow, _⟩
  obtain ⟨hlow, _⟩ := hbelow (by decide)
  revert hlow
  decide +kernel

variable {market : FeeMarket} {block : BlockNumber} {fee : GasPrice} {gas target : Gas}

theorem baseFee_le_of_below (hblock : block ≠ market.activationBlock)
    (hgas : gas.val < target.val) : (market.baseFee block fee gas target).val ≤ fee.val := by
  rw [baseFee_of_below hblock hgas, Amount.val_subClamped]
  exact Nat.sub_le _ _

theorem le_baseFee_of_above (hblock : block ≠ market.activationBlock) (htarget : 0 < target.val)
    (hgas : target.val < gas.val) : fee.val ≤ (market.baseFee block fee gas target).val := by
  have hfee := fee.val_le_largest
  rw [baseFee_of_above hblock htarget hgas, Amount.val_addClamped]
  omega

/-- A cut that leaves nothing is within the share only if the share is the whole fee. -/
theorem sub_div_eq_zero_iff {n d : Nat} (hn : 0 < n) (hd : 0 < d) : n - n / d = 0 ↔ d = 1 := by
  constructor
  · intro h
    by_contra hone
    have hlt : n / d < n := Nat.div_lt_self hn (by omega)
    omega
  · rintro rfl
    rw [Nat.div_one, Nat.sub_self]

theorem sub_div_le_baseFee_iff (hblock : block ≠ market.activationBlock)
    (htarget : 0 < target.val) (hgas : gas.val < target.val) :
    fee.val - fee.val / market.changeDenominator.val ≤ (market.baseFee block fee gas target).val ↔
      fee.val * (target.val - gas.val) ≤ Amount.largest.val ∨
        market.changeDenominator.val = 1 := by
  rcases Nat.lt_or_ge Amount.largest.val (fee.val * (target.val - gas.val)) with hover | hproduct
  · have hfee : 0 < fee.val := by
      apply Nat.pos_of_ne_zero
      intro hzero
      rw [hzero, Nat.zero_mul] at hover
      exact absurd hover (Nat.not_lt_zero _)
    rw [baseFee_of_below_of_overflow hblock hgas hover, Amount.val_zero, Nat.le_zero,
      sub_div_eq_zero_iff hfee market.changeDenominator_pos]
    exact (or_iff_right (Nat.not_le_of_lt hover)).symm
  · have hvalue := val_baseFee_of_below hblock htarget hgas hproduct
    have hquotient := quotient_le fee.val market.changeDenominator.val
      (Nat.sub_le target.val gas.val)
    have hlow : fee.val - fee.val / market.changeDenominator.val ≤
        (market.baseFee block fee gas target).val := by
      omega
    exact iff_of_true hlow (.inl hproduct)

theorem baseFee_le_min_iff (hblock : block ≠ market.activationBlock)
    (htarget : 0 < target.val) (hgas : target.val < gas.val) (htwice : gas.val ≤ 2 * target.val) :
    (market.baseFee block fee gas target).val ≤
        min (fee.val + max (fee.val / market.changeDenominator.val) 1) Amount.largest.val ↔
      fee.val * (gas.val - target.val) ≤ Amount.largest.val ∨
        Amount.largest.val ≤ fee.val + max (fee.val / market.changeDenominator.val) 1 := by
  rcases Nat.lt_or_ge Amount.largest.val (fee.val * (gas.val - target.val)) with hover | hproduct
  · rw [baseFee_of_above_of_overflow hblock htarget hgas hover, Nat.le_min,
      and_iff_left (Nat.le_refl _)]
    exact (or_iff_right (Nat.not_le_of_lt hover)).symm
  · have hquotient := quotient_le fee.val market.changeDenominator.val
      (show gas.val - target.val ≤ target.val by omega)
    have hhigh : (market.baseFee block fee gas target).val ≤
        min (fee.val + max (fee.val / market.changeDenominator.val) 1) Amount.largest.val := by
      rw [val_baseFee_of_above hblock htarget hgas hproduct]
      omega
    exact iff_of_true hhigh (.inl hproduct)

/-- Whatever the parent, gas below the target never raises the fee and gas above it never cuts
it. Up to twice the target, the change is at most the fee over the denominator, and at least one wei
upwards, exactly where the product of fee and gas distance is an amount or the bound is as far as
the range goes. Where the product is no amount, a cut takes the whole fee and a raise goes to the
end of the range. -/
theorem baseFee_bounded (hblock : block ≠ market.activationBlock) (htarget : 0 < target.val) :
    (gas.val < target.val →
      (market.baseFee block fee gas target).val ≤ fee.val ∧
      (fee.val - fee.val / market.changeDenominator.val ≤
          (market.baseFee block fee gas target).val ↔
        fee.val * (target.val - gas.val) ≤ Amount.largest.val ∨
          market.changeDenominator.val = 1) ∧
      (Amount.largest.val < fee.val * (target.val - gas.val) →
        market.baseFee block fee gas target = Amount.zero)) ∧
    (target.val < gas.val → gas.val ≤ 2 * target.val →
      fee.val ≤ (market.baseFee block fee gas target).val ∧
      ((market.baseFee block fee gas target).val ≤
          min (fee.val + max (fee.val / market.changeDenominator.val) 1) Amount.largest.val ↔
        fee.val * (gas.val - target.val) ≤ Amount.largest.val ∨
          Amount.largest.val ≤ fee.val + max (fee.val / market.changeDenominator.val) 1) ∧
      (Amount.largest.val < fee.val * (gas.val - target.val) →
        market.baseFee block fee gas target = Amount.largest)) ∧
    (fee.val * (max gas.val target.val - min gas.val target.val) ≤ Amount.largest.val →
      market.MovesBounded block fee gas target) := by
  refine ⟨?_, ?_, ?_⟩
  · intro hgas
    exact ⟨baseFee_le_of_below hblock hgas, sub_div_le_baseFee_iff hblock htarget hgas,
      baseFee_of_below_of_overflow hblock hgas⟩
  · intro hgas htwice
    exact ⟨le_baseFee_of_above hblock htarget hgas,
      baseFee_le_min_iff hblock htarget hgas htwice,
      baseFee_of_above_of_overflow hblock htarget hgas⟩
  · intro hproduct
    constructor
    · intro hgas
      rw [Nat.max_eq_right (Nat.le_of_lt hgas), Nat.min_eq_left (Nat.le_of_lt hgas)] at hproduct
      exact ⟨(sub_div_le_baseFee_iff hblock htarget hgas).mpr (.inl hproduct),
        baseFee_le_of_below hblock hgas⟩
    · intro hgas htwice
      rw [Nat.max_eq_left (Nat.le_of_lt hgas), Nat.min_eq_right (Nat.le_of_lt hgas)] at hproduct
      exact ⟨le_baseFee_of_above hblock htarget hgas,
        (baseFee_le_min_iff hblock htarget hgas htwice).mpr (.inl hproduct)⟩

/-- The largest fee, one gas below a target of one: the product is the largest amount. -/
theorem baseFee_bounded_at_largest :
    Amount.one ≠ (startingAt Amount.zero).activationBlock ∧ 0 < Amount.one.val ∧
    Amount.largest.val * (max 0 1 - min 0 1) ≤ Amount.largest.val ∧
    (startingAt Amount.zero).MovesBounded Amount.one Amount.largest Amount.zero Amount.one := by
  have hblock : Amount.one ≠ (startingAt Amount.zero).activationBlock := by decide
  have htarget : 0 < Amount.one.val := by decide
  have hproduct : Amount.largest.val * (max 0 1 - min 0 1) ≤ Amount.largest.val := by decide
  obtain ⟨_, _, hbounded⟩ := baseFee_bounded hblock htarget
  exact ⟨hblock, htarget, hproduct, hbounded hproduct⟩

end FeeWindow.FeeMarket
