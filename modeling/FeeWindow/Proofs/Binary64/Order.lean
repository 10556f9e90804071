import FeeWindow.Request
import FeeWindow.Binary64.Arithmetic
import Mathlib.Order.Monotone.Basic
import Mathlib.Tactic.Common

/-!
The orders of binary64 numbers and their exact values. Ranks and units ascend together, so
comparing places compares values, and the percentiles that a request may name are exactly the
finite numbers from 0 to 100. The total order refines the numeric one and ranks every value.
-/

namespace FeeWindow.Binary64

/-- The next magnitude is larger, inside a binade, where a binade ends, and where the subnormal
magnitudes end. -/
theorem units_lt_units_succ (rank : Nat) : units rank < units (rank + 1) := by
  have hsize : binadeSize = 2 ^ 52 := rfl
  simp only [units, hsize, Nat.shiftLeft_eq]
  by_cases hsub : rank + 1 < 2 ^ 52
  · rw [if_pos (by omega), if_pos hsub]
    omega
  by_cases hlast : rank < 2 ^ 52
  · have hrank : rank = 2 ^ 52 - 1 := by omega
    subst hrank
    decide
  rw [if_neg hlast, if_neg hsub]
  have hdiv := Nat.div_add_mod rank (2 ^ 52)
  by_cases hinside : rank % 2 ^ 52 + 1 < 2 ^ 52
  · have hquot : (rank + 1) / 2 ^ 52 = rank / 2 ^ 52 := by omega
    have hmod : (rank + 1) % 2 ^ 52 = rank % 2 ^ 52 + 1 := by omega
    rw [hquot, hmod]
    exact Nat.mul_lt_mul_of_pos_right (by omega) (Nat.two_pow_pos _)
  · have hquot : (rank + 1) / 2 ^ 52 = rank / 2 ^ 52 + 1 := by omega
    have hmod : (rank + 1) % 2 ^ 52 = 0 := by omega
    obtain ⟨binade, hbinade⟩ : ∃ binade, rank / 2 ^ 52 = binade + 1 :=
      ⟨rank / 2 ^ 52 - 1, by omega⟩
    rw [hquot, hmod, hbinade, Nat.add_sub_cancel, Nat.add_sub_cancel, Nat.pow_succ]
    have hpos : 0 < 2 ^ binade := Nat.two_pow_pos binade
    calc (2 ^ 52 + rank % 2 ^ 52) * 2 ^ binade < (2 ^ 52 * 2) * 2 ^ binade :=
          Nat.mul_lt_mul_of_pos_right (by omega) hpos
      _ = (2 ^ 52 + 0) * (2 ^ binade * 2) := by
          rw [Nat.add_zero, Nat.mul_assoc, Nat.mul_comm 2]

theorem strictMono_units : StrictMono units := strictMono_nat_of_lt_succ units_lt_units_succ

theorem units_le_units {a b : Nat} : units a ≤ units b ↔ a ≤ b := strictMono_units.le_iff_le

@[simp] theorem units_zero : units 0 = 0 := rfl

theorem units_pos {rank : Nat} (h : 0 < rank) : 0 < units rank := strictMono_units h

/-- Exact values are ordered as the places on the line are. -/
theorem signedUnits_le_iff {x y : Binary64} :
    x.signedUnits ≤ y.signedUnits ↔ x.place ≤ y.place := by
  have hmono : units x.rank ≤ units y.rank ↔ x.rank ≤ y.rank := units_le_units
  have hanti : units y.rank ≤ units x.rank ↔ y.rank ≤ x.rank := units_le_units
  have hxpos : 0 < x.rank → 0 < units x.rank := units_pos
  have hypos : 0 < y.rank → 0 < units y.rank := units_pos
  have hxzero : x.rank = 0 → units x.rank = 0 := fun h => by rw [h, units_zero]
  have hyzero : y.rank = 0 → units y.rank = 0 := fun h => by rw [h, units_zero]
  unfold place signedUnits
  cases x.negative <;> cases y.negative <;>
    simp only [Bool.false_eq_true, if_true, if_false] <;> omega

/-- Numbers compare as their exact values. -/
theorem le_iff_signedUnits {x y : Binary64} (hx : x.isNaN = false) (hy : y.isNaN = false) :
    x.le y = true ↔ x.signedUnits ≤ y.signedUnits := by
  simp only [le, hx, hy, Bool.not_false, Bool.true_and, decide_eq_true_iff, signedUnits_le_iff]

/-- The total order of the format. Numbers stand in the order of their exact values, `-0` before
`0`. Values that are not numbers stand before all numbers where they are negative and after all
of them where they are not, and among themselves by sign and rank. -/
def TotalOrder (x y : Binary64) : Prop :=
  match x.isNaN, y.isNaN with
  | false, false =>
      x.signedUnits < y.signedUnits ∨
        x.signedUnits = y.signedUnits ∧ (y.negative = true → x.negative = true)
  | true, false => x.negative = true
  | false, true => y.negative = false
  | true, true =>
      if x.negative = true then y.negative = true → y.rank ≤ x.rank
      else y.negative = false ∧ x.rank ≤ y.rank

theorem totalLe_iff {x y : Binary64} : x.totalLe y = true ↔ x.TotalOrder y := by
  have hlt : x.signedUnits < y.signedUnits ↔ x.place < y.place := by
    rw [← Int.not_le, ← Int.not_le, signedUnits_le_iff]
  have heq : x.signedUnits = y.signedUnits ↔ x.place = y.place := by
    rw [le_antisymm_iff, le_antisymm_iff, signedUnits_le_iff, signedUnits_le_iff]
  have hplace : x.totalLe y = true ↔ x.totalPlace ≤ y.totalPlace := decide_eq_true_iff
  have hnan (z : Binary64) : z.isNaN = true ↔ infinityRank < z.rank := decide_eq_true_iff
  have hx := hnan x
  have hy := hnan y
  rw [hplace]
  unfold TotalOrder
  simp only [hlt, heq]
  unfold totalPlace place
  -- A value that is no number has a rank above that of every number.
  cases hxnan : x.isNaN <;> cases hynan : y.isNaN <;>
    rw [hxnan] at hx <;> rw [hynan] at hy <;>
    cases hxsign : x.negative <;> cases hysign : y.negative <;> simp at hx hy ⊢ <;> omega

/-- Values that stand before each other in the total order are the same, sign and all. -/
theorem eq_of_totalLe {x y : Binary64} (hxy : x.totalLe y = true) (hyx : y.totalLe x = true) :
    x = y := by
  simp only [totalLe, decide_eq_true_iff] at hxy hyx
  exact totalPlace_inj (Int.le_antisymm hxy hyx)

/-- Among numbers the total order refines the numeric one. -/
theorem le_of_totalOrder {x y : Binary64} (hx : x.isNaN = false) (hy : y.isNaN = false)
    (h : x.TotalOrder y) : x ≤ y := by
  unfold TotalOrder at h
  rw [hx, hy] at h
  rcases h with hlt | ⟨heq, _⟩
  · exact (le_iff_signedUnits hx hy).mpr (Int.le_of_lt hlt)
  · exact (le_iff_signedUnits hx hy).mpr (Int.le_of_eq heq)

/-- A number from 0 to 100, by its exact value; `-0` is one of them. -/
def IsPercentage (p : Binary64) : Prop :=
  p.isFinite = true ∧ 0 ≤ p.signedUnits ∧ p.signedUnits ≤ 100 * unitsPerOne

instance (p : Binary64) : Decidable p.IsPercentage :=
  inferInstanceAs (Decidable (_ ∧ _ ∧ _))

example : (signedZero true).IsPercentage := by decide

theorem signedUnits_hundred : hundred.signedUnits = 100 * unitsPerOne := by
  decide +kernel

theorem isNaN_eq_false_of_isFinite {x : Binary64} (h : x.isFinite = true) :
    x.isNaN = false := by
  simp only [isFinite, isNaN, decide_eq_true_iff, decide_eq_false_iff_not] at h ⊢
  omega

/-- Infinity would have a value above that of every finite number. -/
theorem isFinite_of_units_lt {x : Binary64} (h : units x.rank < units infinityRank) :
    x.isFinite = true := by
  simpa only [isFinite, decide_eq_true_iff] using strictMono_units.lt_iff_lt.mp h

/-- The percentiles that pass the check are the finite numbers from 0 to 100. -/
theorem isPercentile_iff {p : Binary64} : isPercentile p = true ↔ p.IsPercentage := by
  have hzero : zero.isNaN = false := by decide
  have hhundred : hundred.isNaN = false := by decide +kernel
  have hunits : zero.signedUnits = 0 := rfl
  unfold isPercentile
  rw [Bool.and_eq_true]
  constructor
  · rintro ⟨hlow, hhigh⟩
    have hnan : p.isNaN = false := by
      cases h : p.isNaN with
      | false => rfl
      | true => simp [le, h] at hlow
    rw [le_iff_signedUnits hzero hnan, hunits] at hlow
    rw [le_iff_signedUnits hnan hhundred, signedUnits_hundred] at hhigh
    refine ⟨?_, hlow, hhigh⟩
    apply isFinite_of_units_lt
    have hlarge : 100 * unitsPerOne < units infinityRank := by decide +kernel
    have habs : units p.rank ≤ 100 * unitsPerOne := by
      unfold signedUnits at hlow hhigh
      cases hsign : p.negative <;> rw [hsign] at hlow hhigh <;>
        simp only [Bool.false_eq_true, if_true, if_false] at hlow hhigh <;> omega
    exact Nat.lt_of_le_of_lt habs hlarge
  · rintro ⟨hfinite, hlow, hhigh⟩
    have hnan := isNaN_eq_false_of_isFinite hfinite
    rw [le_iff_signedUnits hzero hnan, le_iff_signedUnits hnan hhundred, hunits,
      signedUnits_hundred]
    exact ⟨hlow, hhigh⟩

end FeeWindow.Binary64
