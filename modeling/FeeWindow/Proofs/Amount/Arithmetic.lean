import FeeWindow.Amount
import Mathlib.Tactic.Common

/-!
Amounts against the arithmetic of natural numbers. An operation with an answer gives the value
that natural numbers give, and one that stops at the end of the range gives the value cut off
there.
-/

namespace FeeWindow.Amount

theorem val_injective : Function.Injective Amount.val := fun _ _ h => Amount.ext h

theorem succ?_eq_some {a b : Amount} : a.succ? = some b ↔ b.val = a.val + 1 := by
  unfold succ?
  rw [ofNat?_eq_some]
  exact eq_comm

theorem val_largest : largest.val = Nat.pow 2 256 - 1 := rfl

theorem val_le_largest (a : Amount) : a.val ≤ largest.val := by
  have ha := a.val_lt
  rw [val_largest]
  omega

theorem succ?_eq_none {a : Amount} : a.succ? = none ↔ a = largest := by
  unfold succ?
  rw [ofNat?_eq_none, Amount.ext_iff, val_largest]
  have ha := a.val_lt
  omega

theorem succ_lt_of_lt_largest {a : Amount} (h : a < largest) : a.val + 1 < Nat.pow 2 256 := by
  have h : a.val < largest.val := h
  rw [val_largest] at h
  omega

@[simp] theorem val_ofUInt64 (n : UInt64) : (ofUInt64 n).val = n.toNat := rfl

@[simp] theorem val_zero : zero.val = 0 := rfl

@[simp] theorem val_one : one.val = 1 := rfl

theorem exists_mul?_eq {a b : Amount} (h : a.val * b.val ≤ largest.val) :
    ∃ c, a.mul? b = some c ∧ c.val = a.val * b.val := by
  have hrange : a.val * b.val < Nat.pow 2 256 := Nat.lt_of_le_of_lt h largest.val_lt
  exact ⟨⟨_, hrange⟩, dif_pos hrange, rfl⟩

theorem mul?_eq_none {a b : Amount} : a.mul? b = none ↔ largest.val < a.val * b.val := by
  unfold mul?
  rw [ofNat?_eq_none, val_largest]
  have hrange : 0 < Nat.pow 2 256 := by decide
  omega

theorem exists_div?_eq (a : Amount) {b : Amount} (h : 0 < b.val) :
    ∃ c, a.div? b = some c ∧ c.val = a.val / b.val :=
  ⟨_, if_neg (Nat.ne_of_gt h), rfl⟩

@[simp] theorem val_greatest (a b : Amount) : (a.greatest b).val = max a.val b.val := by
  unfold greatest
  split
  · next h =>
      have h : a.val < b.val := h
      rw [Nat.max_eq_right (Nat.le_of_lt h)]
  · next h =>
      have h : ¬ a.val < b.val := h
      rw [Nat.max_eq_left (Nat.le_of_not_lt h)]

@[simp] theorem val_least (a b : Amount) : (a.least b).val = min a.val b.val := by
  unfold least
  split
  · next h =>
      have h : b.val < a.val := h
      rw [Nat.min_eq_right (Nat.le_of_lt h)]
  · next h =>
      have h : ¬ b.val < a.val := h
      rw [Nat.min_eq_left (Nat.le_of_not_lt h)]

/-- The amount of a number, or the largest amount where the number is out of range. -/
def clamp (n : Nat) : Amount := (ofNat? n).getD largest

theorem val_clamp (n : Nat) : (clamp n).val = min n largest.val := by
  have hrange := largest.val_lt
  unfold clamp
  rcases Nat.lt_or_ge n (Nat.pow 2 256) with h | h
  · have hsome : ofNat? n = some ⟨n, h⟩ := dif_pos h
    have hle := val_le_largest ⟨n, h⟩
    rw [hsome, Option.getD_some]
    exact (Nat.min_eq_left hle).symm
  · rw [ofNat?_eq_none.mpr h, Option.getD_none]
    omega

/-- Adding up with a stop at the end of the range is adding up and stopping once. -/
theorem clamp_addClamped (n : Nat) (a : Amount) : (clamp n).addClamped a = clamp (n + a.val) := by
  apply Amount.ext
  rw [val_addClamped, val_clamp, val_clamp]
  omega

end FeeWindow.Amount
