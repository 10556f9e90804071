import FeeWindow.Proofs.Amount.Arithmetic
import FeeWindow.Proofs.Binary64.Conversion
import FeeWindow.Reward
import Mathlib.Algebra.BigOperators.Group.List.Basic
import Mathlib.Algebra.GroupWithZero.Nat
import Mathlib.Algebra.Order.BigOperators.Group.List

/-!
The share of a block's gas that transactions cover. Their gas is added up in any order, with one
stop at the end of the range, and more gas reaches every percentile that less gas reaches. That
holds for a block without gas as well, whose percentages are no number at first and then infinite.
-/

namespace FeeWindow

open Binary64

section Percentage

variable {gas more blockGas : Gas} {p : Binary64}

theorem isMagnitude_hundred : hundred.IsMagnitude := ⟨rfl, by decide +kernel⟩

theorem isMagnitude_hundred_mul (gas : Gas) : (hundred * gas.toBinary64).IsMagnitude := by
  have hgas := gas.isMagnitude_toBinary64
  have hlargest := Amount.largest.isMagnitude_toBinary64
  have hle := mul_le_mul_left isMagnitude_hundred hgas hlargest
    (Amount.toBinary64_le_toBinary64 gas.val_le_largest)
  have hbound : (hundred * Amount.largest.toBinary64).IsMagnitude := by
    refine ⟨?_, ?_⟩ <;> decide +kernel
  exact .of_le (isMagnitude_hundred.isNonneg_mul hgas) hbound hle

/-- What is at most a percentage is so for more gas as well. -/
theorem le_gasPercentage_of_le (hreached : p ≤ gasPercentage gas blockGas)
    (h : gas.val ≤ more.val) : p ≤ gasPercentage more blockGas := by
  have hproducts : hundred * gas.toBinary64 ≤ hundred * more.toBinary64 :=
    mul_le_mul_left isMagnitude_hundred gas.isMagnitude_toBinary64 more.isMagnitude_toBinary64
      (Amount.toBinary64_le_toBinary64 h)
  have hquotients : gasPercentage gas blockGas ≤ gasPercentage more blockGas :=
    div_le_div_right (isMagnitude_hundred_mul gas) (isMagnitude_hundred_mul more)
      blockGas.isMagnitude_toBinary64 hproducts (isNaN_eq_false_of_le hreached)
  exact Binary64.le_trans hreached hquotients

end Percentage

section Gas

variable {receiptGas : Hash → Option Gas} {transactions others : List Transaction}

/-- The gas of a transaction by its receipt, none where it has no receipt. -/
def gasBy (receiptGas : Hash → Option Gas) (transaction : Transaction) : Nat :=
  ((receiptGas transaction.hash).getD Amount.zero).val

/-- The gas of transactions together, at most the largest amount. -/
def totalGas (receiptGas : Hash → Option Gas) (transactions : List Transaction) : Gas :=
  Amount.clamp (transactions.map (gasBy receiptGas)).sum

theorem totalGas_congr_of_perm (h : transactions.Perm others) :
    totalGas receiptGas transactions = totalGas receiptGas others := by
  unfold totalGas
  rw [(h.map (gasBy receiptGas)).sum_eq]

theorem val_totalGas_le_of_sublist (h : transactions.Sublist others) :
    (totalGas receiptGas transactions).val ≤ (totalGas receiptGas others).val := by
  have hsum : (transactions.map (gasBy receiptGas)).sum ≤ (others.map (gasBy receiptGas)).sum :=
    (h.map (gasBy receiptGas)).sum_le_sum fun _ _ => Nat.zero_le _
  unfold totalGas
  rw [Amount.val_clamp, Amount.val_clamp]
  omega

/-- One more transaction is added as the walk along a ranking adds it. -/
theorem totalGas_concat {transaction : Transaction} {gas : Gas}
    (h : receiptGas transaction.hash = some gas) :
    totalGas receiptGas (transactions ++ [transaction]) =
      (totalGas receiptGas transactions).addClamped gas := by
  have hgas : gasBy receiptGas transaction = gas.val := by
    simp [gasBy, h]
  unfold totalGas
  rw [Amount.clamp_addClamped, List.map_append, List.sum_append, List.map_singleton,
    List.sum_singleton, hgas]

/-- Whether transactions cover a percentile of a block's gas. -/
def Reaches (receiptGas : Hash → Option Gas) (blockGas : Gas) (transactions : List Transaction)
    (p : Binary64) : Prop :=
  p ≤ gasPercentage (totalGas receiptGas transactions) blockGas

instance (receiptGas : Hash → Option Gas) (blockGas : Gas) (transactions : List Transaction)
    (p : Binary64) : Decidable (Reaches receiptGas blockGas transactions p) :=
  inferInstanceAs (Decidable (_ ≤ _))

variable {blockGas : Gas} {p q : Binary64}

theorem Reaches.congr_of_perm (h : transactions.Perm others) :
    Reaches receiptGas blockGas transactions p ↔ Reaches receiptGas blockGas others p := by
  unfold Reaches
  rw [totalGas_congr_of_perm h]

theorem Reaches.of_val_totalGas_le (hreached : Reaches receiptGas blockGas transactions p)
    (h : (totalGas receiptGas transactions).val ≤ (totalGas receiptGas others).val) :
    Reaches receiptGas blockGas others p :=
  le_gasPercentage_of_le hreached h

theorem Reaches.of_sublist (hreached : Reaches receiptGas blockGas transactions p)
    (h : transactions.Sublist others) : Reaches receiptGas blockGas others p :=
  hreached.of_val_totalGas_le (val_totalGas_le_of_sublist h)

theorem Reaches.of_le (hreached : Reaches receiptGas blockGas transactions q) (h : p ≤ q) :
    Reaches receiptGas blockGas transactions p :=
  Binary64.le_trans h hreached

end Gas

end FeeWindow
