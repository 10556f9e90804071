import FeeWindow.Proofs.Binary64.Value

/-!
Quotients of finite numbers from zero upwards. A quotient by one or more is no larger than the
dividend, so it is finite, and one by a number that is no smaller is at most one. Exact values are
compared by their units.
-/

namespace FeeWindow.Binary64

variable {x y : Binary64}

theorem IsMagnitude.value_eq_units (h : x.IsMagnitude) :
    x.value = units x.rank / unitsPerOne := by
  rw [value_eq, h.signedUnits_eq, Int.cast_natCast]

theorem IsMagnitude.value_nonneg (h : x.IsMagnitude) : 0 ≤ x.value := by
  rw [h.value_eq_units]
  exact div_nonneg (Nat.cast_nonneg _) cast_unitsPerOne_pos.le

theorem IsMagnitude.value_le_value (hx : x.IsMagnitude) (hy : y.IsMagnitude) (h : x ≤ y) :
    x.value ≤ y.value := by
  rw [value_le_value_iff, hx.signedUnits_eq, hy.signedUnits_eq]
  exact Int.ofNat_le.mpr (hx.units_le hy h)

theorem IsMagnitude.value_eq_zero_iff (h : x.IsMagnitude) : x.value = 0 ↔ x.rank = 0 := by
  rw [h.value_eq_units, div_eq_zero_iff, or_iff_left cast_unitsPerOne_pos.ne', Nat.cast_eq_zero]
  exact strictMono_units.injective.eq_iff' units_zero

theorem IsMagnitude.value_le_one_iff (h : x.IsMagnitude) :
    x.value ≤ 1 ↔ units x.rank ≤ unitsPerOne := by
  rw [h.value_eq_units, div_le_one cast_unitsPerOne_pos, Nat.cast_le]

section Quotients

theorem exists_rank_eq_one : ∃ rank, units rank = unitsPerOne ∧ rank ≤ infinityRank :=
  ⟨1023 * binadeSize, by decide +kernel, by decide⟩

theorem rank_pos_of_one_le (h : unitsPerOne ≤ units y.rank) : 0 < y.rank := by
  apply Nat.pos_of_ne_zero
  intro hzero
  have hone := unitsPerOne_pos
  rw [hzero, units_zero] at h
  omega

/-- A quotient by one or more is no larger than the dividend. -/
theorem IsMagnitude.div_le_self (hx : x.IsMagnitude) (hy : y.IsMagnitude)
    (hone : unitsPerOne ≤ units y.rank) : x / y ≤ x := by
  have hself : ofUnits false (units x.rank * unitsPerOne) unitsPerOne = x := by
    apply Binary64.ext
    · exact hx.sign.symm
    · exact rank_ofUnits_units unitsPerOne_pos (Nat.le_of_lt hx.finite)
  have hpos := rank_pos_of_one_le hone
  have hle : ofUnits false (units x.rank * unitsPerOne) (units y.rank) ≤
      ofUnits false (units x.rank * unitsPerOne) unitsPerOne := by
    apply ofUnits_le_ofUnits (units_pos hpos) unitsPerOne_pos
    exact Nat.mul_le_mul_left _ hone
  rw [hx.div_eq hy hpos]
  rwa [hself] at hle

/-- So it is finite. -/
theorem IsMagnitude.div (hx : x.IsMagnitude) (hy : y.IsMagnitude)
    (hone : unitsPerOne ≤ units y.rank) : (x / y).IsMagnitude := by
  have hle := hx.div_le_self hy hone
  have hnonneg : (x / y).IsNonneg := by
    rw [hx.div_eq hy (rank_pos_of_one_le hone)]
    exact isNonneg_ofUnits
  exact .of_le hnonneg hx hle

theorem IsMagnitude.rank_div_of_zero (hx : x.IsMagnitude) (hy : y.IsMagnitude)
    (hone : unitsPerOne ≤ units y.rank) (hzero : x.rank = 0) : (x / y).rank = 0 := by
  have hle := hx.div_le_self hy hone
  rw [(hx.div hy hone).isNonneg.le_iff hx.isNonneg, hzero] at hle
  exact Nat.le_zero.mp hle

/-- A quotient by a number that is no smaller is at most one. -/
theorem IsMagnitude.units_div_le (hx : x.IsMagnitude) (hy : y.IsMagnitude) (hpos : 0 < y.rank)
    (h : x ≤ y) : units (x / y).rank ≤ unitsPerOne := by
  obtain ⟨one, hone, hbound⟩ := exists_rank_eq_one
  have hself := rank_ofUnits_units (units_pos hpos) hbound
  have hle : ofUnits false (units x.rank * unitsPerOne) (units y.rank) ≤
      ofUnits false (units one * units y.rank) (units y.rank) := by
    apply ofUnits_le_ofUnits (units_pos hpos) (units_pos hpos)
    apply Nat.mul_le_mul_right
    rw [hone, Nat.mul_comm]
    exact Nat.mul_le_mul_left _ (hx.units_le hy h)
  rw [isNonneg_ofUnits.le_iff isNonneg_ofUnits, hself, ← hx.div_eq hy hpos] at hle
  calc units (x / y).rank ≤ units one := units_le_units.mpr hle
    _ = unitsPerOne := hone

/-- A number divided by itself is exactly one. -/
theorem IsMagnitude.units_div_self (hx : x.IsMagnitude) (hpos : 0 < x.rank) :
    units (x / x).rank = unitsPerOne := by
  obtain ⟨one, hone, hbound⟩ := exists_rank_eq_one
  have hself := rank_ofUnits_units (units_pos hpos) hbound
  rw [hone, Nat.mul_comm, ← hx.div_eq hx hpos] at hself
  rw [hself, hone]

end Quotients

/-- A number that can stand in a report: neither infinite nor no number at all, and not negative,
by its sign as well as by its exact value. -/
structure IsReportable (x : Binary64) : Prop where
  finite : x.isFinite = true
  number : x.isNaN = false
  sign : x.negative = false
  nonneg : 0 ≤ x.value

theorem IsMagnitude.isReportable (h : x.IsMagnitude) : x.IsReportable :=
  ⟨h.isFinite, h.isNaN_eq_false, h.sign, h.value_nonneg⟩

end FeeWindow.Binary64
