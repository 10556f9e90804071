import FeeWindow.Proofs.Binary64.Arithmetic
import Mathlib.Algebra.Order.Field.Rat
import Mathlib.Algebra.Order.Field.Power
import Mathlib.Tactic.FieldSimp
import Mathlib.Tactic.Linarith
import Mathlib.Tactic.Positivity

/-!
Binary64 numbers as exact rationals. The value is read off the fields of the format, and is the
number of units over the units in one. Which numbers are nearest to a rational is then told by the
two midpoints around a magnitude, and the one rounding of the arithmetic gives the nearest number,
of two the one with an even significand.
-/

namespace FeeWindow.Binary64

variable {n rank : Nat} {x y : Binary64}

/-- The value of a finite magnitude: a fraction of 52 bits, after the leading one of a normal
number, with the exponent that is stored above it. -/
def magnitude (rank : Nat) : ℚ :=
  if rank / binadeSize = 0 then (rank % binadeSize : Nat) * 2 ^ (-1074 : ℤ)
  else (binadeSize + rank % binadeSize : Nat) * 2 ^ ((rank / binadeSize : Nat) - 1075 : ℤ)

/-- The exact value of a finite number. -/
def value (x : Binary64) : ℚ := if x.negative then -magnitude x.rank else magnitude x.rank

/-- A finite number nearest to a rational; where there are two such values, the one with the even
significand. -/
structure IsNearestEven (q : ℚ) (x : Binary64) : Prop where
  finite : x.isFinite = true
  nearest : ∀ y : Binary64, y.isFinite = true → |q - x.value| ≤ |q - y.value|
  even : ∀ y : Binary64, y.isFinite = true → |q - y.value| = |q - x.value| → y.value ≠ x.value →
    x.rank % 2 = 0

section Units

theorem cast_unitsPerOne : (unitsPerOne : ℚ) = 2 ^ ((1074 : Nat) : ℤ) := by
  unfold unitsPerOne
  generalize 1074 = e
  rw [Nat.pow_eq, Nat.cast_pow, Nat.cast_ofNat, zpow_natCast]

theorem cast_unitsPerOne_pos : (0 : ℚ) < unitsPerOne := Nat.cast_pos.mpr unitsPerOne_pos

theorem magnitude_eq (rank : Nat) : magnitude rank = units rank / unitsPerOne := by
  have hpos : 0 < binadeSize := Nat.two_pow_pos 52
  have htwo : (2 : ℚ) ≠ 0 := two_ne_zero
  rw [eq_div_iff cast_unitsPerOne_pos.ne', cast_unitsPerOne]
  unfold magnitude units
  by_cases hsub : rank < binadeSize
  · rw [if_pos (Nat.div_eq_of_lt hsub), if_pos hsub, Nat.mod_eq_of_lt hsub, mul_assoc,
      ← zpow_add₀ htwo]
    norm_num
  · obtain ⟨e, he⟩ : ∃ e, rank / binadeSize = e + 1 := by
      have hquot : 0 < rank / binadeSize := Nat.div_pos (Nat.le_of_not_lt hsub) hpos
      exact ⟨rank / binadeSize - 1, by omega⟩
    have hexp : ((e + 1 : Nat) - 1075 + (1074 : Nat) : ℤ) = (e : ℤ) := by
      push_cast
      ring
    rw [if_neg (by omega), if_neg hsub, he, Nat.add_sub_cancel, Nat.shiftLeft_eq, mul_assoc,
      ← zpow_add₀ htwo, hexp, zpow_natCast, Nat.cast_mul, Nat.cast_pow, Nat.cast_ofNat]

theorem value_eq (x : Binary64) : x.value = x.signedUnits / unitsPerOne := by
  unfold value signedUnits
  split
  · rw [magnitude_eq, Int.cast_neg, Int.cast_natCast, neg_div]
  · rw [magnitude_eq, Int.cast_natCast]

theorem value_le_value_iff : x.value ≤ y.value ↔ x.signedUnits ≤ y.signedUnits := by
  rw [value_eq, value_eq, div_le_div_iff_of_pos_right cast_unitsPerOne_pos, Int.cast_le]

theorem value_eq_value_iff : x.value = y.value ↔ x.signedUnits = y.signedUnits := by
  rw [value_eq, value_eq, div_left_inj' cast_unitsPerOne_pos.ne', Int.cast_inj]

/-- Distances from a number of units, in units. -/
theorem abs_sub_value (n : Nat) (x : Binary64) :
    |(n : ℚ) / unitsPerOne - x.value| = (|(n : ℤ) - x.signedUnits| : ℤ) / unitsPerOne := by
  rw [value_eq, ← sub_div, abs_div, abs_of_pos cast_unitsPerOne_pos, Int.cast_abs, Int.cast_sub,
    Int.cast_natCast]

theorem abs_sub_value_le_iff :
    |(n : ℚ) / unitsPerOne - x.value| ≤ |(n : ℚ) / unitsPerOne - y.value| ↔
      |(n : ℤ) - x.signedUnits| ≤ |(n : ℤ) - y.signedUnits| := by
  rw [abs_sub_value, abs_sub_value, div_le_div_iff_of_pos_right cast_unitsPerOne_pos, Int.cast_le]

theorem abs_sub_value_eq_iff :
    |(n : ℚ) / unitsPerOne - y.value| = |(n : ℚ) / unitsPerOne - x.value| ↔
      |(n : ℤ) - y.signedUnits| = |(n : ℤ) - x.signedUnits| := by
  rw [abs_sub_value, abs_sub_value, div_left_inj' cast_unitsPerOne_pos.ne', Int.cast_inj]

end Units

section Nearest

/-- Whether a number of units lies between the two midpoints around a magnitude, either midpoint
included. -/
structure IsAround (n rank : Nat) : Prop where
  upper : 2 * n ≤ units rank + units (rank + 1)
  lower : ∀ below, below + 1 = rank → units below + units rank ≤ 2 * n

/-- No number has a value between those of neighbours. -/
theorem signedUnits_le_or_le (x : Binary64) (rank : Nat) :
    x.signedUnits ≤ units rank ∨ (units (rank + 1) : ℤ) ≤ x.signedUnits := by
  unfold signedUnits
  rcases Nat.lt_or_ge rank x.rank with habove | hbelow
  · have hunits : units (rank + 1) ≤ units x.rank := units_le_units.mpr habove
    cases x.negative
    · right
      exact Int.ofNat_le.mpr hunits
    · left
      simp only [if_true]
      omega
  · have hunits : units x.rank ≤ units rank := units_le_units.mpr hbelow
    left
    cases x.negative <;> simp only [if_true, if_false, Bool.false_eq_true] <;> omega

theorem signedUnits_nonpos_or_eq (x : Binary64) :
    x.signedUnits ≤ 0 ∨ x.signedUnits = units x.rank := by
  unfold signedUnits
  cases x.negative <;> simp

theorem IsMagnitude.isFinite (h : x.IsMagnitude) : x.isFinite = true := decide_eq_true h.finite

/-- A magnitude between whose midpoints a number of units lies is nearest to it. -/
theorem IsAround.abs_sub_le (h : IsAround n rank) (y : Binary64) :
    |(n : ℤ) - units rank| ≤ |(n : ℤ) - y.signedUnits| := by
  have hupper := h.upper
  have hright := le_abs_self ((n : ℤ) - y.signedUnits)
  have hleft := neg_le_abs ((n : ℤ) - y.signedUnits)
  rw [abs_le]
  rcases signedUnits_le_or_le y rank with hbelow | habove
  · cases rank with
    | zero =>
        rw [units_zero] at hbelow ⊢
        omega
    | succ below =>
        have hlower := h.lower below rfl
        rcases signedUnits_le_or_le y below with hfar | hsame <;> omega
  · have hnext := units_lt_units_succ rank
    omega

theorem isAround_of_forall (hrank : rank + 1 < infinityRank)
    (h : ∀ y : Binary64, y.isFinite = true →
      |(n : ℤ) - units rank| ≤ |(n : ℤ) - y.signedUnits|) : IsAround n rank := by
  have hcompare (other : Nat) (hother : other < infinityRank) :
      |(n : ℤ) - units rank| ≤ |(n : ℤ) - units other| :=
    h ⟨false, other, Nat.lt_trans hother (by decide)⟩ (decide_eq_true hother)
  constructor
  · have hnext := units_lt_units_succ rank
    have hle := hcompare (rank + 1) hrank
    have hself := le_abs_self ((n : ℤ) - units rank)
    by_contra hfar
    have hnear : |(n : ℤ) - units (rank + 1)| < (n : ℤ) - units rank :=
      abs_lt.mpr ⟨by omega, by omega⟩
    omega
  · rintro below rfl
    have hnext := units_lt_units_succ below
    have hle := hcompare below (by omega)
    have hself := neg_le_abs ((n : ℤ) - units (below + 1))
    by_contra hfar
    have hnear : |(n : ℤ) - units below| < (units (below + 1) : ℤ) - n :=
      abs_lt.mpr ⟨by omega, by omega⟩
    omega

theorem isAround_nearestRank (n : Nat) : IsAround n (nearestRank n 1) where
  upper := by
    rcases withinUpper_nearestRank (n := n) Nat.one_pos with h | ⟨h, _⟩ <;> omega
  lower := by
    intro below hbelow
    rcases withinLower_nearestRank (n := n) Nat.one_pos below hbelow with h | ⟨h, _⟩ <;> omega

/-- A number of units is rounded to the nearest number, and to the even one of two. -/
theorem isNearestEven_ofUnits (h : (ofUnits false n 1).IsMagnitude) :
    IsNearestEven (n / unitsPerOne) (ofUnits false n 1) := by
  have hrank := rank_ofUnits_of_isMagnitude h
  have hunits : (ofUnits false n 1).signedUnits = units (nearestRank n 1) := by
    rw [h.signedUnits_eq, hrank]
  refine ⟨h.isFinite, ?_, ?_⟩
  · intro y _
    rw [abs_sub_value_le_iff, hunits]
    exact (isAround_nearestRank n).abs_sub_le y
  · intro y _ hsame hother
    rw [abs_sub_value_eq_iff, hunits] at hsame
    rw [ne_eq, value_eq_value_iff, hunits] at hother
    rw [hrank]
    -- The other number is then the neighbour beyond one of the midpoints.
    have hmid : 2 * (n : ℤ) = y.signedUnits + units (nearestRank n 1) := by
      rcases abs_eq_abs.mp hsame with heq | hopposite
      · exact absurd (by omega) hother
      · omega
    rcases signedUnits_le_or_le y (nearestRank n 1) with hbelow | habove
    · cases hcase : nearestRank n 1 with
      | zero => rfl
      | succ below =>
          have hlower := withinLower_nearestRank (n := n) Nat.one_pos below hcase.symm
          rw [hcase] at hmid hother hlower
          rcases signedUnits_le_or_le y below with hfar | hnear
          · omega
          · rw [hcase] at hbelow
            omega
    · have hupper := withinUpper_nearestRank (n := n) Nat.one_pos
      unfold WithinUpper at hupper
      omega

end Nearest

end FeeWindow.Binary64
