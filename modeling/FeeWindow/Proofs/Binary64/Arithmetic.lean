import FeeWindow.Proofs.Binary64.Rounding

/-!
Arithmetic on the finite numbers from zero upwards. Sum, product and quotient are there one
rounding of the exact result, so each of them keeps the order of its operands; a quotient that is
out of range is infinity, which stands above all of them.
-/

namespace FeeWindow.Binary64

variable {x y z : Binary64}

/-- A number from zero upwards, infinity included. -/
structure IsNonneg (x : Binary64) : Prop where
  sign : x.negative = false
  bounded : x.rank ≤ infinityRank

/-- A finite number from zero upwards. -/
structure IsMagnitude (x : Binary64) : Prop where
  sign : x.negative = false
  finite : x.rank < infinityRank

theorem IsMagnitude.isNonneg (h : x.IsMagnitude) : x.IsNonneg := ⟨h.sign, Nat.le_of_lt h.finite⟩

theorem IsNonneg.isNaN_eq_false (h : x.IsNonneg) : x.isNaN = false := by
  simpa [isNaN] using h.bounded

theorem IsNonneg.le_iff (hx : x.IsNonneg) (hy : y.IsNonneg) : x ≤ y ↔ x.rank ≤ y.rank := by
  change x.le y = true ↔ _
  simp [le, hx.isNaN_eq_false, hy.isNaN_eq_false, place, hx.sign, hy.sign]

theorem IsMagnitude.of_le (hx : x.IsNonneg) (hy : y.IsMagnitude) (h : x ≤ y) :
    x.IsMagnitude := by
  rw [hx.le_iff hy.isNonneg] at h
  exact ⟨hx.sign, Nat.lt_of_le_of_lt h hy.finite⟩

theorem IsMagnitude.units_le (hx : x.IsMagnitude) (hy : y.IsMagnitude) (h : x ≤ y) :
    units x.rank ≤ units y.rank :=
  units_le_units.mpr ((hx.isNonneg.le_iff hy.isNonneg).mp h)

theorem isNaN_eq_false_of_le (h : x ≤ y) : y.isNaN = false := by
  change x.le y = true at h
  simp only [le, Bool.and_eq_true, Bool.not_eq_true'] at h
  exact h.1.2

/-- Numbers that compare are numbers, so the order is transitive without conditions. -/
theorem le_trans (hxy : x ≤ y) (hyz : y ≤ z) : x ≤ z := by
  change x.le y = true at hxy
  change y.le z = true at hyz
  change x.le z = true
  simp only [le, Bool.and_eq_true, decide_eq_true_iff] at hxy hyz ⊢
  exact ⟨⟨hxy.1.1, hyz.1.2⟩, Int.le_trans hxy.2 hyz.2⟩

section Rounded

variable {n d : Nat}

theorem isNonneg_ofUnits : (ofUnits false n d).IsNonneg := ⟨rfl, Nat.min_le_right _ _⟩

theorem ofUnits_le_ofUnits {n' d' : Nat} (hd : 0 < d) (hd' : 0 < d') (h : n * d' ≤ n' * d) :
    ofUnits false n d ≤ ofUnits false n' d' := by
  rw [isNonneg_ofUnits.le_iff isNonneg_ofUnits]
  have hrank := nearestRank_le_nearestRank hd hd' h
  simp only [ofUnits]
  omega

/-- A finite result is the magnitude that the ratio is rounded to. -/
theorem rank_ofUnits_of_isMagnitude (h : (ofUnits false n d).IsMagnitude) :
    (ofUnits false n d).rank = nearestRank n d := by
  have hfinite := h.finite
  simp only [ofUnits] at hfinite ⊢
  omega

theorem rank_ofUnits_units {rank : Nat} (hd : 0 < d) (h : rank ≤ infinityRank) :
    (ofUnits false (units rank * d) d).rank = rank := by
  have hrank := nearestRank_units rank hd
  simp only [ofUnits]
  omega

end Rounded

section Operations

theorem IsMagnitude.isNaN_eq_false (h : x.IsMagnitude) : x.isNaN = false :=
  h.isNonneg.isNaN_eq_false

theorem IsMagnitude.isInfinite_eq_false (h : x.IsMagnitude) : x.isInfinite = false := by
  simpa [isInfinite] using Nat.ne_of_lt h.finite

theorem IsMagnitude.signedUnits_eq (h : x.IsMagnitude) : x.signedUnits = units x.rank := by
  simp [signedUnits, h.sign]

theorem ofUnits_zero {d : Nat} (hd : 0 < d) : ofUnits false 0 d = signedZero false := by
  have hrank := rank_ofUnits_units hd (Nat.zero_le infinityRank)
  rw [units_zero, Nat.zero_mul] at hrank
  exact Binary64.ext rfl hrank

theorem IsMagnitude.add_eq (hx : x.IsMagnitude) (hy : y.IsMagnitude) :
    x + y = ofUnits false (units x.rank + units y.rank) 1 := by
  change x.add y = _
  simp only [add, hx.isNaN_eq_false, hy.isNaN_eq_false, hx.isInfinite_eq_false,
    hy.isInfinite_eq_false, hx.signedUnits_eq, hy.signedUnits_eq, hx.sign, hy.sign, Bool.or_self,
    Bool.false_eq_true, if_false, Bool.and_self]
  split
  · next hzero =>
      have hsum : units x.rank + units y.rank = 0 := by omega
      rw [hsum, ofUnits_zero Nat.one_pos]
  · next hsum =>
      have hsign : decide ((units x.rank : Int) + units y.rank < 0) = false := by
        rw [decide_eq_false_iff_not]
        omega
      have habs : ((units x.rank : Int) + units y.rank).natAbs = units x.rank + units y.rank := by
        omega
      rw [hsign, habs]

theorem IsMagnitude.mul_eq (hx : x.IsMagnitude) (hy : y.IsMagnitude) :
    x * y = ofUnits false (units x.rank * units y.rank) unitsPerOne := by
  change x.mul y = _
  simp [mul, hx.isNaN_eq_false, hy.isNaN_eq_false, hx.isInfinite_eq_false,
    hy.isInfinite_eq_false, hx.sign, hy.sign]

theorem IsMagnitude.isNonneg_mul (hx : x.IsMagnitude) (hy : y.IsMagnitude) :
    (x * y).IsNonneg := by
  rw [hx.mul_eq hy]
  exact isNonneg_ofUnits

theorem IsMagnitude.div_eq (hx : x.IsMagnitude) (hy : y.IsMagnitude) (hpos : 0 < y.rank) :
    x / y = ofUnits false (units x.rank * unitsPerOne) (units y.rank) := by
  have hzero : y.isZero = false := by
    simpa [isZero] using Nat.ne_of_gt hpos
  change x.div y = _
  simp [div, hx.isNaN_eq_false, hy.isNaN_eq_false, hx.isInfinite_eq_false,
    hy.isInfinite_eq_false, hx.sign, hy.sign, hzero]

/-- A quotient by zero is infinity, that of zero by zero no number. -/
theorem IsMagnitude.div_of_rank_eq_zero (hx : x.IsMagnitude) (hy : y.IsMagnitude)
    (hzero : y.rank = 0) : x / y = if x.rank = 0 then nan else infinity false := by
  change x.div y = _
  simp [div, hx.isNaN_eq_false, hy.isNaN_eq_false, hx.isInfinite_eq_false,
    hy.isInfinite_eq_false, hx.sign, hy.sign, isZero, hzero]

end Operations

section Order

theorem mul_le_mul_left (hx : x.IsMagnitude) (hy : y.IsMagnitude) (hz : z.IsMagnitude)
    (h : y ≤ z) : x * y ≤ x * z := by
  rw [hx.mul_eq hy, hx.mul_eq hz]
  apply ofUnits_le_ofUnits unitsPerOne_pos unitsPerOne_pos
  apply Nat.mul_le_mul_right
  exact Nat.mul_le_mul_left _ (hy.units_le hz h)

/-- A quotient grows with the dividend and falls with the divisor. -/
theorem IsMagnitude.div_le_div {w : Binary64} (hx : x.IsMagnitude) (hy : y.IsMagnitude)
    (hz : z.IsMagnitude) (hw : w.IsMagnitude) (hpos : 0 < w.rank) (hxy : x ≤ y) (hwz : w ≤ z) :
    x / z ≤ y / w := by
  have hrank := (hw.isNonneg.le_iff hz.isNonneg).mp hwz
  have hposz : 0 < z.rank := Nat.lt_of_lt_of_le hpos hrank
  rw [hx.div_eq hz hposz, hy.div_eq hw hpos]
  apply ofUnits_le_ofUnits (units_pos hposz) (units_pos hpos)
  apply Nat.mul_le_mul
  · exact Nat.mul_le_mul_right _ (hx.units_le hy hxy)
  · exact hw.units_le hz hwz

/-- Division by one and the same number keeps the order. By zero that holds from the first
dividend on for which the quotient is a number. -/
theorem div_le_div_right (hx : x.IsMagnitude) (hy : y.IsMagnitude) (hz : z.IsMagnitude)
    (h : x ≤ y) (hnan : (x / z).isNaN = false) : x / z ≤ y / z := by
  rcases Nat.eq_zero_or_pos z.rank with hzero | hpos
  · have hrank := (hx.isNonneg.le_iff hy.isNonneg).mp h
    have hxpos : x.rank ≠ 0 := by
      intro hxzero
      rw [hx.div_of_rank_eq_zero hz hzero, if_pos hxzero] at hnan
      exact absurd hnan (by decide)
    have hypos : y.rank ≠ 0 := by omega
    rw [hx.div_of_rank_eq_zero hz hzero, hy.div_of_rank_eq_zero hz hzero, if_neg hxpos,
      if_neg hypos]
    decide
  · have hself : z ≤ z := (hz.isNonneg.le_iff hz.isNonneg).mpr (Nat.le_refl _)
    exact hx.div_le_div hy hz hz hpos h hself

end Order

end FeeWindow.Binary64
