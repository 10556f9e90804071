import FeeWindow.Proofs.FeeMarket.Bounds

/-!
In which direction gas and fee of the parent move the base fee. More gas never means a lower fee:
the change grows with the distance from the target, also where its product leaves the range and
the change becomes the largest there is, and the fee of the parent lies between what a cut and
what a raise leave. A higher fee of the parent never means a lower one either while the product
stays in range; a cut takes at most one wei more for each wei of the fee.
-/

namespace FeeWindow.FeeMarket

variable {market : FeeMarket} {block : BlockNumber} {fee higher : GasPrice}
  {gas more target : Gas}

/-- The fee at activation is the market's own, whatever the parent was. -/
theorem baseFee_at_activation_le :
    (market.baseFee market.activationBlock fee gas target).val ≤
      (market.baseFee market.activationBlock higher more target).val :=
  Nat.le_of_eq (congrArg Amount.val (baseFee_at_activation.trans baseFee_at_activation.symm))

section Gas

/-- A longer distance never makes the change smaller. -/
theorem change_le_change (htarget : 0 < target.val) (h : gas.val ≤ more.val) :
    (market.change fee gas target).val ≤ (market.change fee more target).val := by
  have hproducts : fee.val * gas.val ≤ fee.val * more.val := Nat.mul_le_mul_left _ h
  rcases Nat.lt_or_ge Amount.largest.val (fee.val * more.val) with hover | hproduct
  · rw [change_of_overflow hover]
    exact Amount.val_le_largest _
  · rw [val_change htarget (Nat.le_trans hproducts hproduct), val_change htarget hproduct]
    exact Nat.div_le_div_right hproducts

theorem baseFee_le_of_le_target (hblock : block ≠ market.activationBlock)
    (hgas : gas.val ≤ target.val) : (market.baseFee block fee gas target).val ≤ fee.val := by
  rcases Nat.lt_or_eq_of_le hgas with hbelow | heq
  · exact baseFee_le_of_below hblock hbelow
  · have hsame : market.baseFee block fee gas target = fee :=
      baseFee_unmoved hblock (.inr (Amount.ext heq))
    exact Nat.le_of_eq (congrArg Amount.val hsame)

theorem le_baseFee_of_target_le (hblock : block ≠ market.activationBlock)
    (htarget : 0 < target.val) (hgas : target.val ≤ gas.val) :
    fee.val ≤ (market.baseFee block fee gas target).val := by
  rcases Nat.lt_or_eq_of_le hgas with habove | heq
  · exact le_baseFee_of_above hblock htarget habove
  · have hsame : market.baseFee block fee gas target = fee :=
      baseFee_unmoved hblock (.inr (Amount.ext heq.symm))
    exact Nat.le_of_eq (congrArg Amount.val hsame.symm)

theorem baseFee_le_baseFee_of_below (hblock : block ≠ market.activationBlock)
    (h : gas.val ≤ more.val) (hmore : more.val < target.val) :
    (market.baseFee block fee gas target).val ≤ (market.baseFee block fee more target).val := by
  have htarget : 0 < target.val := Nat.zero_lt_of_lt hmore
  have hdistance : (target.subClamped more).val ≤ (target.subClamped gas).val :=
    Nat.sub_le_sub_left h _
  rw [baseFee_of_below hblock (Nat.lt_of_le_of_lt h hmore), baseFee_of_below hblock hmore,
    Amount.val_subClamped, Amount.val_subClamped]
  exact Nat.sub_le_sub_left (change_le_change htarget hdistance) _

theorem baseFee_le_baseFee_of_above (hblock : block ≠ market.activationBlock)
    (htarget : 0 < target.val) (hgas : target.val < gas.val) (h : gas.val ≤ more.val) :
    (market.baseFee block fee gas target).val ≤ (market.baseFee block fee more target).val := by
  have hdistance : (gas.subClamped target).val ≤ (more.subClamped target).val :=
    Nat.sub_le_sub_right h _
  have hchange : (market.change fee (gas.subClamped target) target).val ≤
      (market.change fee (more.subClamped target) target).val :=
    change_le_change htarget hdistance
  rw [baseFee_of_above hblock htarget hgas,
    baseFee_of_above hblock htarget (Nat.lt_of_lt_of_le hgas h), Amount.val_addClamped,
    Amount.val_addClamped, Amount.val_greatest, Amount.val_greatest]
  omega

theorem baseFee_le_baseFee_of_gas_le (h : gas.val ≤ more.val) :
    (market.baseFee block fee gas target).val ≤ (market.baseFee block fee more target).val := by
  by_cases hblock : block = market.activationBlock
  · subst hblock
    exact baseFee_at_activation_le
  rcases Nat.eq_zero_or_pos target.val with hzero | htarget
  · have hless : market.baseFee block fee gas target = fee :=
      baseFee_unmoved hblock (.inl (Amount.ext hzero))
    have hmore : market.baseFee block fee more target = fee :=
      baseFee_unmoved hblock (.inl (Amount.ext hzero))
    exact Nat.le_of_eq (congrArg Amount.val (hless.trans hmore.symm))
  -- Both on one side of the target, or the fee of the parent between them.
  rcases Nat.lt_or_ge more.val target.val with hmore | hmore
  · exact baseFee_le_baseFee_of_below hblock h hmore
  rcases Nat.lt_or_ge target.val gas.val with hgas | hgas
  · exact baseFee_le_baseFee_of_above hblock htarget hgas h
  · exact Nat.le_trans (baseFee_le_of_le_target hblock hgas)
      (le_baseFee_of_target_le hblock htarget hmore)

/-- A raise is at least one wei, so only the end of the range can swallow it. -/
theorem lt_baseFee_iff_of_above (hblock : block ≠ market.activationBlock)
    (htarget : 0 < target.val) (hgas : target.val < gas.val) :
    fee.val < (market.baseFee block fee gas target).val ↔ fee ≠ Amount.largest := by
  have hfee := fee.val_le_largest
  rw [baseFee_of_above hblock htarget hgas, Amount.val_addClamped, Amount.val_greatest,
    Amount.val_one, Ne, Amount.ext_iff]
  omega

end Gas

section Fee

/-- A quotient whose dividend grows in steps no larger than the divisor grows no faster than what
it is a share of. -/
theorem add_mul_div_le {c m : Nat} (p k : Nat) (h : c ≤ m) : (p + k) * c / m ≤ p * c / m + k := by
  rcases Nat.eq_zero_or_pos m with rfl | hm
  · simp
  · calc (p + k) * c / m = (p * c + k * c) / m := by rw [Nat.add_mul]
      _ ≤ (p * c + k * m) / m :=
          Nat.div_le_div_right (Nat.add_le_add_left (Nat.mul_le_mul_left k h) _)
      _ = p * c / m + k := Nat.add_mul_div_right _ _ hm

theorem baseFee_le_baseFee_of_fee_le_of_below (hblock : block ≠ market.activationBlock)
    (hgas : gas.val < target.val) (h : fee.val ≤ higher.val)
    (hproduct : higher.val * (target.val - gas.val) ≤ Amount.largest.val) :
    (market.baseFee block fee gas target).val ≤ (market.baseFee block higher gas target).val := by
  have htarget : 0 < target.val := Nat.zero_lt_of_lt hgas
  have hproducts : fee.val * (target.val - gas.val) ≤ higher.val * (target.val - gas.val) :=
    Nat.mul_le_mul_right _ h
  have hlow := val_baseFee_of_below hblock htarget hgas (Nat.le_trans hproducts hproduct)
  have hhigh := val_baseFee_of_below hblock htarget hgas hproduct
  have hdistance : target.val - gas.val ≤ target.val * market.changeDenominator.val :=
    Nat.le_trans (Nat.sub_le _ _) (Nat.le_mul_of_pos_right _ market.changeDenominator_pos)
  have hcut := add_mul_div_le fee.val (higher.val - fee.val) hdistance
  rw [Nat.add_sub_cancel' h] at hcut
  omega

theorem baseFee_le_baseFee_of_fee_le_of_above (hblock : block ≠ market.activationBlock)
    (htarget : 0 < target.val) (hgas : target.val < gas.val) (h : fee.val ≤ higher.val)
    (hproduct : higher.val * (gas.val - target.val) ≤ Amount.largest.val) :
    (market.baseFee block fee gas target).val ≤ (market.baseFee block higher gas target).val := by
  have hproducts : fee.val * (gas.val - target.val) ≤ higher.val * (gas.val - target.val) :=
    Nat.mul_le_mul_right _ h
  have hraise : fee.val * (gas.val - target.val) / (target.val * market.changeDenominator.val) ≤
      higher.val * (gas.val - target.val) / (target.val * market.changeDenominator.val) :=
    Nat.div_le_div_right hproducts
  rw [val_baseFee_of_above hblock htarget hgas (Nat.le_trans hproducts hproduct),
    val_baseFee_of_above hblock htarget hgas hproduct]
  omega

theorem baseFee_le_baseFee_of_fee_le (h : fee.val ≤ higher.val)
    (hproduct : higher.val * (max gas.val target.val - min gas.val target.val) ≤
      Amount.largest.val) :
    (market.baseFee block fee gas target).val ≤ (market.baseFee block higher gas target).val := by
  by_cases hblock : block = market.activationBlock
  · subst hblock
    exact baseFee_at_activation_le
  by_cases hunmoved : target = Amount.zero ∨ gas = target
  · rw [baseFee_unmoved hblock hunmoved, baseFee_unmoved hblock hunmoved]
    exact h
  have hzero : target.val ≠ 0 := fun heq => hunmoved (.inl (Amount.ext heq))
  have hne : gas.val ≠ target.val := fun heq => hunmoved (.inr (Amount.ext heq))
  rcases Nat.lt_or_gt_of_ne hne with hgas | hgas
  · rw [Nat.max_eq_right (Nat.le_of_lt hgas), Nat.min_eq_left (Nat.le_of_lt hgas)] at hproduct
    exact baseFee_le_baseFee_of_fee_le_of_below hblock hgas h hproduct
  · rw [Nat.max_eq_left (Nat.le_of_lt hgas), Nat.min_eq_right (Nat.le_of_lt hgas)] at hproduct
    exact baseFee_le_baseFee_of_fee_le_of_above hblock (Nat.pos_of_ne_zero hzero) hgas h hproduct

end Fee

/-- The base fee never falls where the parent used more gas, whatever the block, the target and
the fee. Gas above the target raises it strictly unless the fee is the largest there is, and gas
below the target never raises it. It never falls where the fee of the parent is higher either, as
long as the product of that fee and the gas distance is an amount. -/
theorem baseFee_monotone (market : FeeMarket) (block : BlockNumber) (target : Gas) :
    (∀ (fee : GasPrice) (gas more : Gas), gas ≤ more →
      market.baseFee block fee gas target ≤ market.baseFee block fee more target) ∧
    (block ≠ market.activationBlock → 0 < target.val → ∀ (fee : GasPrice) (gas : Gas),
      (target < gas → (fee < market.baseFee block fee gas target ↔ fee ≠ Amount.largest)) ∧
      (gas < target → market.baseFee block fee gas target ≤ fee)) ∧
    ∀ (gas : Gas) (fee higher : GasPrice), fee ≤ higher →
      higher.val * (max gas.val target.val - min gas.val target.val) ≤ Amount.largest.val →
        market.baseFee block fee gas target ≤ market.baseFee block higher gas target := by
  refine ⟨?_, ?_, ?_⟩
  · intro fee gas more h
    exact baseFee_le_baseFee_of_gas_le h
  · intro hblock htarget fee gas
    exact ⟨lt_baseFee_iff_of_above hblock htarget, baseFee_le_of_below hblock⟩
  · intro gas fee higher h hproduct
    exact baseFee_le_baseFee_of_fee_le h hproduct

/-- Two wei under a target of half the range: the product is out of range for an empty block, so
the cut takes all, and in range with one gas, so that nothing is cut. Gas on the other side of the
target raises the fee. With one gas used, a fee of one wei leads to no more than one of two. -/
theorem baseFee_monotone_at_halfRange :
    (startingAt Amount.zero).baseFee Amount.one (.ofUInt64 2) Amount.zero halfRange ≤
      (startingAt Amount.zero).baseFee Amount.one (.ofUInt64 2) Amount.one halfRange ∧
    Amount.ofUInt64 2 <
      (startingAt Amount.zero).baseFee Amount.one (.ofUInt64 2) Amount.largest halfRange ∧
    (startingAt Amount.zero).baseFee Amount.one Amount.one Amount.one halfRange ≤
      (startingAt Amount.zero).baseFee Amount.one (.ofUInt64 2) Amount.one halfRange := by
  obtain ⟨hgas, hdirection, hfee⟩ :=
    baseFee_monotone (startingAt Amount.zero) Amount.one halfRange
  have hblock : Amount.one ≠ (startingAt Amount.zero).activationBlock := by decide
  have htarget : 0 < halfRange.val := by decide
  refine ⟨hgas _ _ _ (by decide), ?_, hfee _ _ _ (by decide) (by decide)⟩
  exact ((hdirection hblock htarget _ _).1 (by decide)).mpr (by decide)

end FeeWindow.FeeMarket
