import FeeWindow.Proofs.Binary64.Faithful
import FeeWindow.Proofs.Binary64.Precision

/-!
Which amounts become a number nearest to them. The two halves of an amount are rounded before
their sum is, and rounding them never moves the sum across a midpoint of neighbours, with one
exception: an upper half that is itself midway between neighbours. So the number is a nearest one
unless a tie is resolved against the amount: a tie of the upper half, where the lower half lies
beyond it, or a tie of the sum, where the amount is not the sum but lies beyond it.
-/

namespace FeeWindow.Binary64

variable {n rank high low : Nat}

section Midpoint

/-- Below a midpoint, numbers are rounded to the magnitude before it at most. -/
theorem nearestRank_le_of_lt_midpoint (h : 2 * n < units rank + units (rank + 1)) :
    nearestRank n 1 ≤ rank := by
  apply nearestRank_le_of_withinUpper Nat.one_pos
  left
  rwa [Nat.one_mul]

/-- Above a midpoint, numbers are rounded to the magnitude after it at least. -/
theorem succ_le_nearestRank_of_midpoint_lt (h : units rank + units (rank + 1) < 2 * n) :
    rank + 1 ≤ nearestRank n 1 := by
  refine rank_le_of_within Nat.one_pos Nat.one_pos ?_ (withinUpper_nearestRank Nat.one_pos)
    (Nat.le_refl (n * 1))
  intro below hbelow
  obtain rfl : below = rank := by omega
  left
  rwa [Nat.one_mul]

/-- At a midpoint the even neighbour decides. -/
theorem nearestRank_of_midpoint (h : 2 * n = units rank + units (rank + 1)) :
    nearestRank n 1 = if rank % 2 = 0 then rank else rank + 1 := by
  have hupper : nearestRank n 1 ≤ rank + 1 := by
    apply nearestRank_le_of_lt_midpoint
    have hnext := units_lt_units_succ rank
    have hafter := units_lt_units_succ (rank + 1)
    omega
  have hlower : rank ≤ nearestRank n 1 := by
    apply le_nearestRank_of_units_le Nat.one_pos
    have hnext := units_lt_units_succ rank
    omega
  split
  · next heven =>
      have hself : nearestRank n 1 ≤ rank := by
        apply nearestRank_le_of_withinUpper Nat.one_pos
        right
        rw [Nat.one_mul]
        exact ⟨h, heven⟩
      omega
  · next hodd =>
      have hnext : rank + 1 ≤ nearestRank n 1 := by
        rw [succ_le_nearestRank_iff Nat.one_pos (by omega), Nat.one_mul]
        exact Nat.le_of_eq h.symm
      omega

/-- A midpoint of neighbours is no magnitude. -/
theorem two_mul_units_ne_midpoint (other rank : Nat) :
    2 * units other ≠ units rank + units (rank + 1) := by
  have hnext := units_lt_units_succ rank
  rcases Nat.lt_or_ge rank other with h | h
  · have hunits : units (rank + 1) ≤ units other := units_le_units.mpr h
    omega
  · have hunits : units other ≤ units rank := units_le_units.mpr h
    omega

end Midpoint

section Exact

/-- Twice a midpoint, by the exponent and the significand of the magnitude before it. -/
theorem exists_midpoint_eq (rank : Nat) :
    ∃ e m, rank = e * binadeSize + m ∧ m < 2 * binadeSize ∧ (e = 0 ∨ binadeSize ≤ m) ∧
      units rank = m * 2 ^ e ∧ units (rank + 1) = (m + 1) * 2 ^ e ∧
      units rank + units (rank + 1) = (2 * m + 1) * 2 ^ e := by
  obtain ⟨e, m, rfl, hm, hnormal⟩ := exists_rank_eq rank
  have hself := units_significand (Nat.le_of_lt hm) hnormal
  have hnext := units_significand_succ hm hnormal
  refine ⟨e, m, rfl, hm, hnormal, hself, hnext, ?_⟩
  rw [hself, hnext]
  ring

/-- A midpoint between an exact upper half and the next one is a magnitude away from that half. -/
theorem exists_units_midpoint_eq (hpos : 0 < high) (hhigh : high < 2 * binadeSize)
    (hlow : 2 * (high * 2 ^ 128 * unitsPerOne) ≤ units rank + units (rank + 1))
    (hupp : units rank + units (rank + 1) ≤ 2 * ((high + 1) * 2 ^ 128 * unitsPerOne)) :
    ∃ offset, 2 * (high * 2 ^ 128 * unitsPerOne) + 2 * units offset =
      units rank + units (rank + 1) := by
  obtain ⟨one, hone⟩ := exists_unitsPerOne_eq
  obtain ⟨e, m, _, hm, hnormal, _, _, hmid⟩ := exists_midpoint_eq rank
  have hweight (k : Nat) : 2 * (k * 2 ^ 128 * unitsPerOne) = k * 2 ^ (128 + one + 1) := by
    rw [hone]
    ring
  have hsize : binadeSize = 2 ^ 52 := rfl
  rw [hmid, hweight] at hlow hupp
  rw [hmid, hweight]
  -- The step of the midpoint's binade is at most the weight of the upper half.
  have hfine : e ≤ 128 + one := by
    by_contra hcoarse
    have hpow : 2 ^ (128 + one + 1) ≤ 2 ^ e := Nat.pow_le_pow_right (by decide) (by omega)
    have hsignificand : high + 1 < 2 * m + 1 := by omega
    have hless : (high + 1) * 2 ^ (128 + one + 1) < (2 * m + 1) * 2 ^ e :=
      calc (high + 1) * 2 ^ (128 + one + 1) ≤ (high + 1) * 2 ^ e := Nat.mul_le_mul_left _ hpow
        _ < (2 * m + 1) * 2 ^ e := Nat.mul_lt_mul_of_pos_right hsignificand (Nat.two_pow_pos e)
    omega
  obtain ⟨j, hj⟩ := Nat.exists_eq_add_of_le hfine
  have hpow : 2 ^ (128 + one + 1) = 2 ^ (j + 1) * 2 ^ e := by
    rw [hj]
    ring
  rw [hpow, ← Nat.mul_assoc] at hlow hupp ⊢
  have hlow := Nat.le_of_mul_le_mul_right hlow (Nat.two_pow_pos e)
  have hupp := Nat.le_of_mul_le_mul_right hupp (Nat.two_pow_pos e)
  -- And it is no finer than `2 ^ 52` parts of that weight.
  have hbits : j ≤ 52 := by
    by_contra hfiner
    have hlarge : 2 ^ (53 + 1) ≤ 2 ^ (j + 1) := Nat.pow_le_pow_right (by decide) (by omega)
    have hone : 2 ^ (j + 1) ≤ high * 2 ^ (j + 1) := Nat.le_mul_of_pos_left _ hpos
    omega
  have hlarge : 2 ^ (j + 1) ≤ 2 ^ (52 + 1) := Nat.pow_le_pow_right (by decide) (by omega)
  obtain ⟨k, hk⟩ := Nat.exists_eq_add_of_le hlow
  rw [Nat.succ_mul high] at hupp
  obtain ⟨below, hbelow⟩ : ∃ below, e = below + 1 := ⟨e - 1, by omega⟩
  obtain ⟨offset, hoffset⟩ := exists_units_eq (m := k) (e := below) (by omega)
  refine ⟨offset, ?_⟩
  rw [hoffset, hk, hbelow]
  ring

theorem wholeRank_le_of_le_units (h : n * unitsPerOne ≤ units rank) : wholeRank n ≤ rank := by
  rw [← nearestRank_units rank Nat.one_pos]
  exact nearestRank_le_nearestRank Nat.one_pos Nat.one_pos (Nat.mul_le_mul_right 1 (by omega))

theorem le_wholeRank_of_units_le (h : units rank ≤ n * unitsPerOne) : rank ≤ wholeRank n :=
  le_nearestRank_of_units_le Nat.one_pos (by omega)

section

variable (hhigh : high < 2 * binadeSize) (hlow : low ≤ 2 ^ 128)

include hhigh hlow

theorem halvesUnits_of_exact :
    halvesUnits high low = high * 2 ^ 128 * unitsPerOne + units (wholeRank low) ∧
      units (wholeRank low) ≤ 2 ^ 128 * unitsPerOne ∧
      (high + 1) * 2 ^ 128 * unitsPerOne =
        high * 2 ^ 128 * unitsPerOne + 2 ^ 128 * unitsPerOne ∧
      (high * 2 ^ 128 + low) * unitsPerOne =
        high * 2 ^ 128 * unitsPerOne + low * unitsPerOne ∧
      low * unitsPerOne ≤ 2 ^ 128 * unitsPerOne := by
  refine ⟨?_, units_wholeRank_le_half hlow, by ring, by ring, Nat.mul_le_mul_right _ hlow⟩
  unfold halvesUnits
  rw [units_wholeRank (Nat.le_of_lt hhigh)]
  ring

/-- Where the upper half is exact, rounding the lower half takes no amount up across a midpoint. -/
theorem halvesUnits_le_midpoint_of_exact
    (h : 2 * ((high * 2 ^ 128 + low) * unitsPerOne) < units rank + units (rank + 1)) :
    2 * halvesUnits high low ≤ units rank + units (rank + 1) := by
  obtain ⟨hsum, hhalf, hnext, hamount, _⟩ := halvesUnits_of_exact hhigh hlow
  rcases Nat.eq_zero_or_pos high with rfl | hpos
  · have hrank : wholeRank low ≤ rank := nearestRank_le_of_lt_midpoint (by omega)
    have hunits := units_le_units.mpr hrank
    have hstep := units_lt_units_succ rank
    omega
  · rcases Nat.le_total (units rank + units (rank + 1))
      (2 * ((high + 1) * 2 ^ 128 * unitsPerOne)) with hnear | hfar
    · obtain ⟨offset, hoffset⟩ := exists_units_midpoint_eq hpos hhigh (by omega) hnear
      have hoffset : low * unitsPerOne ≤ units offset := by omega
      have hunits := units_le_units.mpr (wholeRank_le_of_le_units hoffset)
      omega
    · omega

/-- Nor down. -/
theorem midpoint_le_halvesUnits_of_exact
    (h : units rank + units (rank + 1) < 2 * ((high * 2 ^ 128 + low) * unitsPerOne)) :
    units rank + units (rank + 1) ≤ 2 * halvesUnits high low := by
  obtain ⟨hsum, hhalf, hnext, hamount, hbound⟩ := halvesUnits_of_exact hhigh hlow
  rcases Nat.eq_zero_or_pos high with rfl | hpos
  · have hrank : rank + 1 ≤ wholeRank low := succ_le_nearestRank_of_midpoint_lt (by omega)
    have hunits := units_le_units.mpr hrank
    have hstep := units_lt_units_succ rank
    omega
  · rcases Nat.le_total (2 * (high * 2 ^ 128 * unitsPerOne))
      (units rank + units (rank + 1)) with hnear | hfar
    · obtain ⟨offset, hoffset⟩ := exists_units_midpoint_eq hpos hhigh hnear (by omega)
      have hoffset : units offset ≤ low * unitsPerOne := by omega
      have hunits := units_le_units.mpr (le_wholeRank_of_units_le hoffset)
      omega
    · omega

end

end Exact

section Coarse

/-- A midpoint beyond `2 ^ 53` upper halves is the midpoint of two neighbours times the weight of
the upper half, is a whole number of such halves, and is a lower half away from the neighbours. -/
theorem exists_coarse_midpoint (h : 2 * binadeSize * (2 ^ 128 * unitsPerOne) < units (rank + 1)) :
    ∃ scaled middle, units rank = units scaled * 2 ^ 128 ∧
      units (rank + 1) = units (scaled + 1) * 2 ^ 128 ∧ scaled % 2 = rank % 2 ∧
      units scaled + units (scaled + 1) = 2 * (middle * unitsPerOne) ∧
      units rank + 2 * (2 ^ 128 * unitsPerOne) ≤ units (rank + 1) := by
  obtain ⟨one, hone⟩ := exists_unitsPerOne_eq
  obtain ⟨e, m, hrank, hm, hnormal, hself, hnext, _⟩ := exists_midpoint_eq rank
  have hexp : 128 + one + 1 ≤ e := by
    by_contra hfine
    have hpow : 2 ^ e ≤ 2 ^ (128 + one) := Nat.pow_le_pow_right (by decide) (by omega)
    have hless : units (rank + 1) ≤ 2 * binadeSize * (2 ^ 128 * unitsPerOne) :=
      calc units (rank + 1) = (m + 1) * 2 ^ e := hnext
        _ ≤ 2 * binadeSize * 2 ^ (128 + one) := Nat.mul_le_mul hm hpow
        _ = 2 * binadeSize * (2 ^ 128 * unitsPerOne) := by
          rw [hone]
          ring
    omega
  obtain ⟨k, rfl⟩ := Nat.exists_eq_add_of_le hexp
  have hlow : binadeSize ≤ m := hnormal.resolve_left (by omega)
  have hscaled := units_significand (e := one + 1 + k) (Nat.le_of_lt hm) (.inr hlow)
  have hscaledNext := units_significand_succ (e := one + 1 + k) hm (.inr hlow)
  refine ⟨(one + 1 + k) * binadeSize + m, (2 * m + 1) * 2 ^ k, ?_, ?_, ?_, ?_, ?_⟩
  · rw [hself, hscaled]
    ring
  · rw [hnext, hscaledNext]
    ring
  · have hmove : rank = (one + 1 + k) * binadeSize + m + 128 * binadeSize := by
      rw [hrank]
      ring
    have hsize : 128 * binadeSize % 2 = 0 := rfl
    omega
  · rw [hscaledNext, hscaled, hone]
    ring
  · have hstep : 2 * (2 ^ 128 * unitsPerOne) ≤ 2 ^ (128 + one + 1 + k) := by
      calc 2 * (2 ^ 128 * unitsPerOne) = 2 ^ (128 + one + 1) := by
            rw [hone]
            ring
        _ ≤ 2 ^ (128 + one + 1 + k) := Nat.pow_le_pow_right (by decide) (Nat.le_add_right _ _)
    rw [hself, hnext, Nat.succ_mul m]
    omega

/-- An upper half that is not rounded beyond a magnitude leaves the sum within its midpoint. -/
theorem halvesUnits_le_midpoint {scaled : Nat} (hlow : low ≤ 2 ^ 128)
    (hself : units rank = units scaled * 2 ^ 128)
    (hstep : units rank + 2 * (2 ^ 128 * unitsPerOne) ≤ units (rank + 1))
    (hscaled : wholeRank high ≤ scaled) :
    2 * halvesUnits high low ≤ units rank + units (rank + 1) := by
  have hhalf := units_wholeRank_le_half hlow
  have hunits : units (wholeRank high) * 2 ^ 128 ≤ units scaled * 2 ^ 128 :=
    Nat.mul_le_mul_right _ (units_le_units.mpr hscaled)
  unfold halvesUnits
  omega

/-- An upper half that is rounded beyond a magnitude takes the sum beyond its midpoint. -/
theorem midpoint_le_halvesUnits {scaled : Nat}
    (hnext : units (rank + 1) = units (scaled + 1) * 2 ^ 128)
    (hscaled : scaled + 1 ≤ wholeRank high) :
    units rank + units (rank + 1) ≤ 2 * halvesUnits high low := by
  have hunits : units (scaled + 1) * 2 ^ 128 ≤ units (wholeRank high) * 2 ^ 128 :=
    Nat.mul_le_mul_right _ (units_le_units.mpr hscaled)
  have hstep := units_lt_units_succ rank
  unfold halvesUnits
  omega

section

variable (hhigh : 2 * binadeSize ≤ high) (hlow : low ≤ 2 ^ 128)

include hhigh hlow

/-- Where the upper half has more than 53 bits, rounding takes no amount up across a midpoint. -/
theorem halvesUnits_le_midpoint_of_coarse
    (h : 2 * ((high * 2 ^ 128 + low) * unitsPerOne) < units rank + units (rank + 1)) :
    2 * halvesUnits high low ≤ units rank + units (rank + 1) := by
  have hup := units_lt_units_succ rank
  have hlarge : 2 * binadeSize * (2 ^ 128 * unitsPerOne) ≤ high * (2 ^ 128 * unitsPerOne) :=
    Nat.mul_le_mul_right _ hhigh
  have hamount : (high * 2 ^ 128 + low) * unitsPerOne =
      high * (2 ^ 128 * unitsPerOne) + low * unitsPerOne := by ring
  have hcoarse : 2 * binadeSize * (2 ^ 128 * unitsPerOne) < units (rank + 1) := by omega
  obtain ⟨scaled, middle, hself, hnext, _, hmid, hstep⟩ := exists_coarse_midpoint hcoarse
  have hmiddle : high < middle := by
    by_contra hle
    have hmul : middle * (2 ^ 128 * unitsPerOne) ≤ high * (2 ^ 128 * unitsPerOne) :=
      Nat.mul_le_mul_right _ (Nat.le_of_not_lt hle)
    have hweight : 2 * (middle * unitsPerOne) * 2 ^ 128 =
        2 * (middle * (2 ^ 128 * unitsPerOne)) := by ring
    rw [← hmid] at hweight
    omega
  have hscaled : wholeRank high ≤ scaled := by
    apply nearestRank_le_of_lt_midpoint
    have hless := Nat.mul_lt_mul_of_pos_right hmiddle unitsPerOne_pos
    omega
  exact halvesUnits_le_midpoint hlow hself hstep hscaled

/-- At a midpoint of even rank the upper half is rounded down, whatever the lower half is. -/
theorem halvesUnits_le_midpoint_of_tie
    (h : 2 * (high * 2 ^ 128 * unitsPerOne) = units rank + units (rank + 1))
    (heven : rank % 2 = 0) : 2 * halvesUnits high low ≤ units rank + units (rank + 1) := by
  have hup := units_lt_units_succ rank
  have hlarge : 2 * binadeSize * (2 ^ 128 * unitsPerOne) ≤ high * (2 ^ 128 * unitsPerOne) :=
    Nat.mul_le_mul_right _ hhigh
  have hweight : high * 2 ^ 128 * unitsPerOne = high * (2 ^ 128 * unitsPerOne) :=
    Nat.mul_assoc _ _ _
  have hcoarse : 2 * binadeSize * (2 ^ 128 * unitsPerOne) < units (rank + 1) := by omega
  obtain ⟨scaled, middle, hself, hnext, hparity, hmid, hstep⟩ := exists_coarse_midpoint hcoarse
  have htie : 2 * (high * unitsPerOne) = units scaled + units (scaled + 1) := by
    have hscale : 2 * (high * 2 ^ 128 * unitsPerOne) = 2 * (high * unitsPerOne) * 2 ^ 128 := by ring
    omega
  have hscaled : wholeRank high ≤ scaled := by
    unfold wholeRank
    rw [nearestRank_of_midpoint htie, if_pos (by omega)]
  exact halvesUnits_le_midpoint hlow hself hstep hscaled

/-- Nor down, unless the upper half is the midpoint itself and is rounded down. -/
theorem midpoint_le_halvesUnits_of_coarse
    (h : units rank + units (rank + 1) < 2 * ((high * 2 ^ 128 + low) * unitsPerOne)) :
    units rank + units (rank + 1) ≤ 2 * halvesUnits high low ∨
      2 * (high * 2 ^ 128 * unitsPerOne) = units rank + units (rank + 1) ∧ rank % 2 = 0 := by
  have hup := units_lt_units_succ rank
  rcases Nat.lt_or_ge (2 * binadeSize * (2 ^ 128 * unitsPerOne)) (units (rank + 1)) with
    hcoarse | hfine
  · obtain ⟨scaled, middle, hself, hnext, hparity, hmid, hstep⟩ := exists_coarse_midpoint hcoarse
    have hweight (k : Nat) : 2 * (k * unitsPerOne) * 2 ^ 128 =
        2 * (k * (2 ^ 128 * unitsPerOne)) := by ring
    have hmiddle : middle ≤ high := by
      by_contra hgt
      have hmul : (high + 1) * (2 ^ 128 * unitsPerOne) ≤ middle * (2 ^ 128 * unitsPerOne) :=
        Nat.mul_le_mul_right _ (Nat.lt_of_not_le hgt)
      have hamount : (high * 2 ^ 128 + low) * unitsPerOne ≤
          (high + 1) * (2 ^ 128 * unitsPerOne) := by
        calc (high * 2 ^ 128 + low) * unitsPerOne ≤ (high * 2 ^ 128 + 2 ^ 128) * unitsPerOne :=
              Nat.mul_le_mul_right _ (Nat.add_le_add_left hlow _)
          _ = (high + 1) * (2 ^ 128 * unitsPerOne) := by ring
      have hscale := hweight middle
      rw [← hmid] at hscale
      omega
    rcases Nat.lt_or_eq_of_le hmiddle with hbelow | rfl
    · left
      apply midpoint_le_halvesUnits hnext
      apply succ_le_nearestRank_of_midpoint_lt
      have hless := Nat.mul_lt_mul_of_pos_right hbelow unitsPerOne_pos
      omega
    · rcases Nat.mod_two_eq_zero_or_one rank with heven | hodd
      · right
        have hscale := hweight middle
        rw [← hmid] at hscale
        rw [Nat.mul_assoc middle]
        exact ⟨by omega, heven⟩
      · left
        apply midpoint_le_halvesUnits hnext
        unfold wholeRank
        rw [nearestRank_of_midpoint hmid.symm, if_neg (by omega)]
  · left
    have hexact := units_wholeRank (Nat.le_refl (2 * binadeSize))
    have hunits : 2 * binadeSize * unitsPerOne ≤ units (wholeRank high) := by
      rw [← hexact]
      exact units_le_units.mpr (wholeRank_le_wholeRank hhigh)
    have hmul := Nat.mul_le_mul_right (2 ^ 128) hunits
    have hweight : 2 * binadeSize * unitsPerOne * 2 ^ 128 =
        2 * binadeSize * (2 ^ 128 * unitsPerOne) := by ring
    unfold halvesUnits
    omega

end

end Coarse

section Ties

/-- Whether a number of units is the midpoint of neighbours and another one lies beyond it, on the
side of the odd neighbour. To round the first one is then to go away from the second. -/
def TurnsAway (n amount : Nat) : Prop :=
  ∃ rank, 2 * n = units rank + units (rank + 1) ∧
    (rank % 2 = 0 ∧ n < amount ∨ rank % 2 = 1 ∧ amount < n)

section

variable (hlow : low ≤ 2 ^ 128)

include hlow

theorem halvesUnits_le_midpoint_of_lt
    (h : 2 * ((high * 2 ^ 128 + low) * unitsPerOne) < units rank + units (rank + 1)) :
    2 * halvesUnits high low ≤ units rank + units (rank + 1) := by
  rcases Nat.lt_or_ge high (2 * binadeSize) with hexact | hcoarse
  · exact halvesUnits_le_midpoint_of_exact hexact hlow h
  · exact halvesUnits_le_midpoint_of_coarse hcoarse hlow h

theorem midpoint_le_halvesUnits_of_lt
    (h : units rank + units (rank + 1) < 2 * ((high * 2 ^ 128 + low) * unitsPerOne)) :
    units rank + units (rank + 1) ≤ 2 * halvesUnits high low ∨
      2 * (high * 2 ^ 128 * unitsPerOne) = units rank + units (rank + 1) ∧ rank % 2 = 0 := by
  rcases Nat.lt_or_ge high (2 * binadeSize) with hexact | hcoarse
  · exact .inl (midpoint_le_halvesUnits_of_exact hexact hlow h)
  · exact midpoint_le_halvesUnits_of_coarse hcoarse hlow h

/-- An upper half that is a midpoint of even rank is rounded down, and the sum stays with it. -/
theorem nearestRank_halvesUnits_le_of_tie
    (h : 2 * (high * 2 ^ 128 * unitsPerOne) = units rank + units (rank + 1))
    (heven : rank % 2 = 0) : nearestRank (halvesUnits high low) 1 ≤ rank := by
  have hcoarse : 2 * binadeSize ≤ high := by
    by_contra hexact
    obtain ⟨one, hone⟩ := exists_unitsPerOne_eq
    obtain ⟨other, hother⟩ := exists_units_eq (m := high) (e := 128 + one) (by omega)
    apply two_mul_units_ne_midpoint other rank
    rw [hother, ← h, hone, Nat.pow_add, Nat.mul_assoc]
  apply nearestRank_le_of_withinUpper Nat.one_pos
  unfold WithinUpper
  rw [Nat.one_mul]
  rcases Nat.lt_or_eq_of_le (halvesUnits_le_midpoint_of_tie hcoarse hlow h heven) with hlt | heq
  · exact .inl hlt
  · exact .inr ⟨heq, heven⟩

/-- Rounding the halves and their sum gives a magnitude with the amount between its midpoints,
unless the tie of one of these roundings turns away from the amount. -/
theorem isAround_halvesUnits_iff :
    IsAround ((high * 2 ^ 128 + low) * unitsPerOne) (nearestRank (halvesUnits high low) 1) ↔
      ¬ TurnsAway (high * 2 ^ 128 * unitsPerOne) ((high * 2 ^ 128 + low) * unitsPerOne) ∧
      ¬ TurnsAway (halvesUnits high low) ((high * 2 ^ 128 + low) * unitsPerOne) := by
  constructor
  · intro haround
    refine ⟨?_, ?_⟩
    · rintro ⟨rank, hmid, ⟨heven, hless⟩ | ⟨_, hless⟩⟩
      · have hrank := nearestRank_halvesUnits_le_of_tie hlow hmid heven
        have hself := units_le_units.mpr hrank
        have hnext := units_le_units.mpr (Nat.add_le_add_right hrank 1)
        have hupper := haround.upper
        omega
      · have hamount : high * 2 ^ 128 * unitsPerOne ≤ (high * 2 ^ 128 + low) * unitsPerOne :=
          Nat.mul_le_mul_right _ (Nat.le_add_right _ _)
        omega
    · rintro ⟨rank, hmid, ⟨hparity, hless⟩ | ⟨hparity, hless⟩⟩
      · rw [nearestRank_of_midpoint hmid, if_pos hparity] at haround
        have hupper := haround.upper
        omega
      · rw [nearestRank_of_midpoint hmid, if_neg (by omega)] at haround
        have hlower := haround.lower rank rfl
        omega
  · rintro ⟨hhalf, hsum⟩
    have hupper : WithinUpper (halvesUnits high low) 1 (nearestRank (halvesUnits high low) 1) :=
      withinUpper_nearestRank Nat.one_pos
    have hlower : WithinLower (halvesUnits high low) 1 (nearestRank (halvesUnits high low) 1) :=
      withinLower_nearestRank Nat.one_pos
    generalize nearestRank (halvesUnits high low) 1 = rank at hupper hlower
    unfold WithinUpper at hupper
    constructor
    · by_contra hbeyond
      rcases midpoint_le_halvesUnits_of_lt hlow (Nat.lt_of_not_le hbeyond) with hle | ⟨htie, heven⟩
      · exact hsum ⟨rank, by omega, .inl ⟨by omega, by omega⟩⟩
      · exact hhalf ⟨rank, htie, .inl ⟨heven, by omega⟩⟩
    · rintro below rfl
      by_contra hbeyond
      have hle := halvesUnits_le_midpoint_of_lt hlow (Nat.lt_of_not_le hbeyond)
      have hlower := hlower below rfl
      exact hsum ⟨below, by omega, .inr ⟨by omega, by omega⟩⟩

end

end Ties

end FeeWindow.Binary64

namespace FeeWindow.Amount

open Binary64

variable {a : Amount}

/-- The upper half of an amount with its weight. -/
def upperPart (a : Amount) : Nat := a.val / Nat.pow 2 128 * Nat.pow 2 128

/-- Whether a rational is the midpoint of two neighbouring magnitudes and an amount lies beyond it,
on the side of the odd one: to round the rational is then to go away from the amount. -/
def TieTurnsAway (a : Amount) (q : ℚ) : Prop :=
  ∃ rank, 2 * q = magnitude rank + magnitude (rank + 1) ∧
    (rank % 2 = 0 ∧ q < a.val ∨ rank % 2 = 1 ∧ a.val < q)

theorem tieTurnsAway_iff (a : Amount) (n : Nat) :
    a.TieTurnsAway (n / unitsPerOne) ↔ TurnsAway n (a.val * unitsPerOne) := by
  have hmid (rank : Nat) : 2 * ((n : ℚ) / unitsPerOne) = magnitude rank + magnitude (rank + 1) ↔
      2 * n = units rank + units (rank + 1) := by
    rw [magnitude_eq, magnitude_eq, ← add_div, mul_div_assoc',
      div_left_inj' cast_unitsPerOne_pos.ne', ← Nat.cast_add, ← Nat.cast_ofNat, ← Nat.cast_mul,
      Nat.cast_inj]
  have hbelow : (n : ℚ) / unitsPerOne < a.val ↔ n < a.val * unitsPerOne := by
    rw [cast_val, div_lt_div_iff_of_pos_right cast_unitsPerOne_pos, Nat.cast_lt]
  have habove : (a.val : ℚ) < n / unitsPerOne ↔ a.val * unitsPerOne < n := by
    rw [cast_val, div_lt_div_iff_of_pos_right cast_unitsPerOne_pos, Nat.cast_lt]
  simp only [TieTurnsAway, TurnsAway, hmid, hbelow, habove]

theorem rank_toBinary64_succ_lt (a : Amount) : a.toBinary64.rank + 1 < infinityRank := by
  have hlargest : largest.toBinary64.rank + 1 < infinityRank := by decide +kernel
  have hle := rank_toBinary64_le_rank a.val_le_largest
  omega

/-- The nearest numbers are the magnitudes with the amount between their midpoints. -/
theorem forall_abs_sub_le_iff_isAround (a : Amount) :
    (∀ x : Binary64, x.isFinite = true →
      |(a.val : ℚ) - a.toBinary64.value| ≤ |(a.val : ℚ) - x.value|) ↔
    IsAround (a.val * unitsPerOne) a.toBinary64.rank := by
  simp only [cast_val a, abs_sub_value_le_iff, signedUnits_toBinary64]
  constructor
  · intro h
    exact isAround_of_forall a.rank_toBinary64_succ_lt h
  · intro h x _
    exact h.abs_sub_le x

/-- The number that an amount becomes is a nearest one exactly if neither the tie of its upper half
nor that of the sum of its rounded halves turns away from the amount. -/
theorem toBinary64_nearest_iff (a : Amount) :
    (∀ x : Binary64, x.isFinite = true →
      |(a.val : ℚ) - a.toBinary64.value| ≤ |(a.val : ℚ) - x.value|) ↔
    ¬ a.TieTurnsAway a.upperPart ∧ ¬ a.TieTurnsAway a.halvesSum := by
  have hupper : (a.upperPart : ℚ) = (a.upperPart * unitsPerOne : Nat) / unitsPerOne := by
    rw [Nat.cast_mul, mul_div_cancel_right₀ _ cast_unitsPerOne_pos.ne']
  have hval : a.val / 2 ^ 128 * 2 ^ 128 + a.val % 2 ^ 128 = a.val := Nat.div_add_mod' _ _
  have haround := @isAround_halvesUnits_iff (a.val / 2 ^ 128) _ a.val_mod_le
  rw [Nat.pow_eq, hval] at haround
  rw [forall_abs_sub_le_iff_isAround, rank_toBinary64, hupper, halvesSum_eq, tieTurnsAway_iff,
    tieTurnsAway_iff]
  exact haround

/-- The tie of an upper half: it is rounded down to an even number, away from the lower half. -/
theorem tiedTwice_misses_nearest :
    tiedTwice.TieTurnsAway tiedTwice.upperPart ∧
    ¬ ∀ x : Binary64, x.isFinite = true →
      |(tiedTwice.val : ℚ) - tiedTwice.toBinary64.value| ≤ |(tiedTwice.val : ℚ) - x.value| := by
  have hupper : (tiedTwice.upperPart : ℚ) =
      (tiedTwice.upperPart * unitsPerOne : Nat) / unitsPerOne := by
    rw [Nat.cast_mul, mul_div_cancel_right₀ _ cast_unitsPerOne_pos.ne']
  have htie : tiedTwice.TieTurnsAway tiedTwice.upperPart := by
    rw [hupper, tieTurnsAway_iff]
    exact ⟨1204 * binadeSize, by decide +kernel⟩
  exact ⟨htie, fun h => ((toBinary64_nearest_iff tiedTwice).mp h).1 htie⟩

/-- An amount whose lower half is rounded down to the midpoint of two numbers. -/
def justAboveTie : Amount := ⟨Nat.pow 2 128 + Nat.pow 2 75 + 1, by decide⟩

/-- The number `2 ^ 128 + 2 ^ 76`. -/
def aboveTieNumber : Binary64 := ⟨false, 1151 * binadeSize + 1, by decide⟩

theorem toBinary64_misses_nearest :
    aboveTieNumber.isFinite = true ∧
    |(justAboveTie.val : ℚ) - aboveTieNumber.value| <
      |(justAboveTie.val : ℚ) - justAboveTie.toBinary64.value| := by
  refine ⟨by decide, ?_⟩
  rw [cast_val, abs_sub_value, abs_sub_value, div_lt_div_iff_of_pos_right cast_unitsPerOne_pos,
    Int.cast_lt]
  decide +kernel

end FeeWindow.Amount
