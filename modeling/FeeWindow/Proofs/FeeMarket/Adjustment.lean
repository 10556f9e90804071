import FeeWindow.FeeMarket
import FeeWindow.Proofs.Amount.Arithmetic

/-!
The rule of the base fee in natural numbers without bound. While the product of fee and gas
distance is an amount, rounding down at each of the two divisions is rounding down once, and only
a raise can meet the end of the range. A product that is no amount makes the change the largest
there is, so that a raise ends at the largest fee and a cut at zero.
-/

namespace FeeWindow.FeeMarket

variable {market : FeeMarket} {block : BlockNumber} {fee : GasPrice} {gas target : Gas}

/-- A divisor that is not set, or set to zero, is the default one. -/
theorem val_divisor (setting : Option UInt64) (default : Amount) :
    (divisor setting default).val =
      if setting.getD 0 = 0 then default.val else (setting.getD 0).toNat := by
  cases setting with
  | none => rfl
  | some n =>
      simp only [divisor, Option.getD_some]
      split <;> rfl

section Change

/-- While the product is an amount, the two divisions are one. -/
theorem val_change (htarget : 0 < target.val) (h : fee.val * gas.val ≤ Amount.largest.val) :
    (market.change fee gas target).val =
      fee.val * gas.val / (target.val * market.changeDenominator.val) := by
  obtain ⟨product, hproduct, hproductVal⟩ := Amount.exists_mul?_eq h
  obtain ⟨share, hshare, hshareVal⟩ := product.exists_div?_eq htarget
  obtain ⟨moved, hmoved, hmovedVal⟩ := share.exists_div?_eq market.changeDenominator_pos
  have hchange : market.change fee gas target = moved := by
    simp [change, hproduct, hshare, hmoved]
  rw [hchange, hmovedVal, hshareVal, hproductVal, Nat.div_div_eq_div_mul]

theorem change_of_overflow (h : Amount.largest.val < fee.val * gas.val) :
    market.change fee gas target = Amount.largest := by
  have hproduct := Amount.mul?_eq_none.mpr h
  simp [change, hproduct]

/-- A distance of at most the target moves the fee by at most its share of the denominator. -/
theorem quotient_le (fee denominator : Nat) {distance target : Nat} (h : distance ≤ target) :
    fee * distance / (target * denominator) ≤ fee / denominator := by
  rw [← Nat.div_div_eq_div_mul]
  apply Nat.div_le_div_right
  apply Nat.div_le_of_le_mul
  rw [Nat.mul_comm target]
  exact Nat.mul_le_mul_left fee h

end Change

section Branches

theorem baseFee_at_activation : market.baseFee market.activationBlock fee gas target =
    market.initialBaseFee :=
  if_pos rfl

theorem baseFee_unmoved (hblock : block ≠ market.activationBlock)
    (h : target = Amount.zero ∨ gas = target) : market.baseFee block fee gas target = fee := by
  unfold baseFee
  rw [if_neg hblock, if_pos h]

theorem baseFee_of_above (hblock : block ≠ market.activationBlock) (htarget : 0 < target.val)
    (hgas : target.val < gas.val) :
    market.baseFee block fee gas target =
      fee.addClamped ((market.change fee (gas.subClamped target) target).greatest Amount.one) := by
  have hmoves : ¬ (target = Amount.zero ∨ gas = target) := by
    simp only [Amount.ext_iff, Amount.val_zero]
    omega
  have habove : target < gas := hgas
  unfold baseFee
  rw [if_neg hblock, if_neg hmoves, if_pos habove]

theorem baseFee_of_below (hblock : block ≠ market.activationBlock) (hgas : gas.val < target.val) :
    market.baseFee block fee gas target =
      fee.subClamped (market.change fee (target.subClamped gas) target) := by
  have hmoves : ¬ (target = Amount.zero ∨ gas = target) := by
    simp only [Amount.ext_iff, Amount.val_zero]
    omega
  have habove : ¬ target < gas := Nat.lt_asymm hgas
  unfold baseFee
  rw [if_neg hblock, if_neg hmoves, if_neg habove]

end Branches

section Values

variable (hblock : block ≠ market.activationBlock)

include hblock

theorem val_baseFee_of_above (htarget : 0 < target.val) (hgas : target.val < gas.val)
    (hproduct : fee.val * (gas.val - target.val) ≤ Amount.largest.val) :
    (market.baseFee block fee gas target).val = min (fee.val +
      max (fee.val * (gas.val - target.val) / (target.val * market.changeDenominator.val)) 1)
      Amount.largest.val := by
  rw [baseFee_of_above hblock htarget hgas, Amount.val_addClamped, Amount.val_greatest,
    val_change htarget hproduct, Amount.val_subClamped, Amount.val_one]

/-- What is cut off is never more than the fee. -/
theorem val_baseFee_of_below (htarget : 0 < target.val) (hgas : gas.val < target.val)
    (hproduct : fee.val * (target.val - gas.val) ≤ Amount.largest.val) :
    (market.baseFee block fee gas target).val + fee.val * (target.val - gas.val) /
      (target.val * market.changeDenominator.val) = fee.val := by
  have hquotient := quotient_le fee.val market.changeDenominator.val
    (Nat.sub_le target.val gas.val)
  have hshare := Nat.div_le_self fee.val market.changeDenominator.val
  rw [baseFee_of_below hblock hgas, Amount.val_subClamped, val_change htarget hproduct,
    Amount.val_subClamped]
  omega

/-- A raise by the largest amount ends at the end of the range. -/
theorem baseFee_of_above_of_overflow (htarget : 0 < target.val) (hgas : target.val < gas.val)
    (hover : Amount.largest.val < fee.val * (gas.val - target.val)) :
    market.baseFee block fee gas target = Amount.largest := by
  have hchange : market.change fee (gas.subClamped target) target = Amount.largest :=
    change_of_overflow hover
  apply Amount.ext
  rw [baseFee_of_above hblock htarget hgas, hchange, Amount.val_addClamped, Amount.val_greatest]
  omega

/-- A cut by the largest amount leaves nothing. -/
theorem baseFee_of_below_of_overflow (hgas : gas.val < target.val)
    (hover : Amount.largest.val < fee.val * (target.val - gas.val)) :
    market.baseFee block fee gas target = Amount.zero := by
  have hchange : market.change fee (target.subClamped gas) target = Amount.largest :=
    change_of_overflow hover
  have hfee := fee.val_le_largest
  apply Amount.ext
  rw [baseFee_of_below hblock hgas, hchange, Amount.val_subClamped, Amount.val_zero]
  omega

end Values

/-- The base fee of every market, block, parent and target: the fixed fee of the first block, the
fee of the parent where nothing moves it, and else the fee of the parent raised or cut by one
rounded quotient. The denominator is never zero, and eight unless another one is set. -/
theorem baseFee_formula :
    (∀ start, (startingAt start).changeDenominator.val = 8) ∧
    (∀ settings, (ofSettings settings).changeDenominator.val =
      if settings.changeDenominator.getD 0 = 0 then 8
      else (settings.changeDenominator.getD 0).toNat) ∧
    ∀ (market : FeeMarket) (fee : GasPrice) (gas target : Gas),
      0 < market.changeDenominator.val ∧
      market.baseFee market.activationBlock fee gas target = market.initialBaseFee ∧
      ∀ block, block ≠ market.activationBlock →
        (target.val = 0 ∨ gas.val = target.val → market.baseFee block fee gas target = fee) ∧
        (0 < target.val → target.val < gas.val →
          (fee.val * (gas.val - target.val) ≤ Amount.largest.val →
            (market.baseFee block fee gas target).val = min (fee.val +
              max (fee.val * (gas.val - target.val) /
                (target.val * market.changeDenominator.val)) 1) Amount.largest.val) ∧
          (Amount.largest.val < fee.val * (gas.val - target.val) →
            market.baseFee block fee gas target = Amount.largest)) ∧
        (0 < target.val → gas.val < target.val →
          (fee.val * (target.val - gas.val) ≤ Amount.largest.val →
            (market.baseFee block fee gas target).val + fee.val * (target.val - gas.val) /
              (target.val * market.changeDenominator.val) = fee.val) ∧
          (Amount.largest.val < fee.val * (target.val - gas.val) →
            market.baseFee block fee gas target = Amount.zero)) := by
  refine ⟨fun _ => rfl, fun settings => val_divisor settings.changeDenominator _, ?_⟩
  intro market fee gas target
  refine ⟨market.changeDenominator_pos, baseFee_at_activation, ?_⟩
  intro block hblock
  refine ⟨?_, ?_, ?_⟩
  · intro h
    exact baseFee_unmoved hblock (h.imp Amount.ext Amount.ext)
  · intro htarget hgas
    exact ⟨val_baseFee_of_above hblock htarget hgas,
      baseFee_of_above_of_overflow hblock htarget hgas⟩
  · intro htarget hgas
    exact ⟨val_baseFee_of_below hblock htarget hgas, baseFee_of_below_of_overflow hblock hgas⟩

/-- Half of the range of amounts. -/
def halfRange : Gas := ⟨Nat.pow 2 255, by decide⟩

/-- A market that divides by 4 in place of 8, from block 5 on. Gas at twice the target raises the
fee by a quarter; the cut of two wei under a target of half the range takes them both. -/
theorem baseFee_of_quarters :
    ((ofSettings ⟨5, none, none, some 4⟩).baseFee (.ofUInt64 6) (.ofUInt64 800) (.ofUInt64 2)
      Amount.one).val = 1000 ∧
    (ofSettings ⟨5, none, none, some 4⟩).baseFee (.ofUInt64 6) (.ofUInt64 2) Amount.zero
      halfRange = Amount.zero := by
  obtain ⟨_, hdenominator, hmarkets⟩ := baseFee_formula
  have hfour : (ofSettings ⟨5, none, none, some 4⟩).changeDenominator.val = 4 :=
    hdenominator ⟨5, none, none, some 4⟩
  have hblock : Amount.ofUInt64 6 ≠ (ofSettings ⟨5, none, none, some 4⟩).activationBlock := by
    decide
  constructor
  · obtain ⟨_, _, hfee⟩ :=
      hmarkets (ofSettings ⟨5, none, none, some 4⟩) (.ofUInt64 800) (.ofUInt64 2) Amount.one
    obtain ⟨_, habove, _⟩ := hfee _ hblock
    rw [(habove (by decide) (by decide)).1 (by decide), hfour]
    decide
  · obtain ⟨_, _, hfee⟩ :=
      hmarkets (ofSettings ⟨5, none, none, some 4⟩) (.ofUInt64 2) Amount.zero halfRange
    obtain ⟨_, _, hbelow⟩ := hfee _ hblock
    exact (hbelow (by decide) (by decide)).2 (by decide)

end FeeWindow.FeeMarket
