import FeeWindow.Proofs.Binary64.Arithmetic

/-!
Amounts as binary64 numbers. The conversion rounds three times, and still a larger amount never
becomes a smaller number: where the upper halves of two amounts round to the same number, the
lower half is at most half a step of it, and exactly half a step only where that number is even.
-/

namespace FeeWindow.Binary64

section Whole

variable {n : Nat}

/-- The rank that a natural number is rounded to. -/
def wholeRank (n : Nat) : Nat := nearestRank (n * unitsPerOne) 1

theorem wholeRank_le_wholeRank {m : Nat} (h : n ≤ m) : wholeRank n ≤ wholeRank m := by
  apply nearestRank_le_nearestRank Nat.one_pos Nat.one_pos
  rw [Nat.mul_one, Nat.mul_one]
  exact Nat.mul_le_mul_right unitsPerOne h

theorem wholeRank_eq {rank : Nat} (h : units rank = n * unitsPerOne) : wholeRank n = rank := by
  have hself := nearestRank_units rank Nat.one_pos
  rw [Nat.mul_one, h] at hself
  exact hself

/-- Natural numbers of at most 53 bits are exact. -/
theorem units_wholeRank (h : n ≤ 2 * binadeSize) : units (wholeRank n) = n * unitsPerOne := by
  obtain ⟨e, he⟩ := exists_unitsPerOne_eq
  obtain ⟨rank, hrank⟩ := exists_units_eq (e := e) h
  rw [← he] at hrank
  rw [wholeRank_eq hrank, hrank]

/-- From 53 bits on, neighbours are at least two apart. -/
theorem exists_wholeRank_eq (h : 2 * binadeSize ≤ n) :
    ∃ e m, wholeRank n = e * binadeSize + m ∧ binadeSize ≤ m ∧ m < 2 * binadeSize ∧
      (2 ^ e = 2 * unitsPerOne ∨ 4 * unitsPerOne ≤ 2 ^ e) := by
  have hpos : 0 < binadeSize := Nat.two_pow_pos 52
  obtain ⟨least, hleast⟩ := exists_unitsPerOne_eq
  have hfirst : wholeRank (2 * binadeSize) = (least + 1) * binadeSize + binadeSize := by
    apply wholeRank_eq
    rw [units_significand (by omega) (.inr (Nat.le_refl _)), hleast]
    ring
  have hlow : (least + 2) * binadeSize ≤ wholeRank n := by
    calc (least + 2) * binadeSize = (least + 1) * binadeSize + binadeSize := by ring
      _ = wholeRank (2 * binadeSize) := hfirst.symm
      _ ≤ wholeRank n := wholeRank_le_wholeRank h
  have hquot : least + 2 ≤ wholeRank n / binadeSize := (Nat.le_div_iff_mul_le hpos).mpr hlow
  have hmod := Nat.mod_lt (wholeRank n) hpos
  obtain ⟨e, he⟩ : ∃ e, wholeRank n / binadeSize = e + 1 :=
    ⟨wholeRank n / binadeSize - 1, by omega⟩
  refine ⟨e, binadeSize + wholeRank n % binadeSize, ?_, by omega, by omega, ?_⟩
  · have hrank := Nat.div_add_mod (wholeRank n) binadeSize
    rw [he] at hrank
    rw [← Nat.add_assoc, ← Nat.succ_mul, Nat.mul_comm]
    exact hrank.symm
  · rw [hleast]
    rcases Nat.lt_or_eq_of_le (show least + 1 ≤ e by omega) with hlarge | rfl
    · right
      calc 4 * 2 ^ least = 2 ^ (least + 2) := by ring
        _ ≤ 2 ^ e := Nat.pow_le_pow_right (by decide) (by omega)
    · left
      ring

end Whole

section Halves

variable {high low high' low' : Nat}

/-- The units of an amount before its last rounding, by its upper and its lower half. -/
def halvesUnits (high low : Nat) : Nat :=
  units (wholeRank high) * 2 ^ 128 + units (wholeRank low)

theorem units_wholeRank_le_half (h : low ≤ 2 ^ 128) :
    units (wholeRank low) ≤ 2 ^ 128 * unitsPerOne := by
  obtain ⟨e, he⟩ := exists_unitsPerOne_eq
  obtain ⟨rank, hrank⟩ := exists_units_eq (m := 1) (e := 128 + e) (by decide)
  have hunits : units rank = 2 ^ 128 * unitsPerOne := by
    rw [hrank, he, Nat.one_mul, Nat.pow_add]
  rw [← hunits, units_le_units, ← wholeRank_eq hunits]
  exact wholeRank_le_wholeRank h

/-- Two neighbouring whole numbers that are rounded to the same magnitude in the binade where
neighbours are two apart are rounded to an even one. -/
theorem wholeRank_even {e m : Nat} (hrank : wholeRank high = e * binadeSize + m)
    (hsucc : wholeRank (high + 1) = wholeRank high) (hlow : binadeSize ≤ m)
    (hm : m < 2 * binadeSize) (hstep : 2 ^ e = 2 * unitsPerOne) :
    wholeRank high % 2 = 0 := by
  have hunits : units (wholeRank high) = m * (2 * unitsPerOne) := by
    rw [hrank, units_significand (Nat.le_of_lt hm) (.inr hlow), hstep]
  have hnext : units (wholeRank high + 1) = (m + 1) * (2 * unitsPerOne) := by
    rw [hrank, units_significand_succ hm (.inr hlow), hstep]
  rcases Nat.lt_or_eq_of_le hlow with hinside | rfl
  · obtain ⟨below, hbelow⟩ : ∃ below, below + 1 = m := ⟨m - 1, by omega⟩
    have hprevious : units (e * binadeSize + below) = below * (2 * unitsPerOne) := by
      rw [units_significand (by omega) (.inr (by omega)), hstep]
    have hupper : WithinUpper ((high + 1) * unitsPerOne) 1 (wholeRank (high + 1)) :=
      withinUpper_nearestRank Nat.one_pos
    have hlower : WithinLower (high * unitsPerOne) 1 (wholeRank high) :=
      withinLower_nearestRank Nat.one_pos
    have hlower := hlower (e * binadeSize + below) (by omega)
    unfold WithinUpper at hupper
    rw [hsucc, hunits, hnext] at hupper
    rw [hprevious, hunits] at hlower
    -- Counted in steps of the binade, `high` lies between the midpoints around `m`.
    have hpos : 0 < 2 * unitsPerOne := Nat.mul_pos Nat.two_pos unitsPerOne_pos
    have hhigh : 2 * ((high + 1) * unitsPerOne) = 2 * unitsPerOne * (high + 1) := by ring
    have hmid : 1 * (m * (2 * unitsPerOne) + (m + 1) * (2 * unitsPerOne)) =
        2 * unitsPerOne * (2 * m + 1) := by ring
    have hhigh' : 2 * (high * unitsPerOne) = 2 * unitsPerOne * high := by ring
    have hmid' : 1 * (below * (2 * unitsPerOne) + m * (2 * unitsPerOne)) =
        2 * unitsPerOne * (below + m) := by ring
    rw [hhigh, hmid, Nat.mul_lt_mul_left hpos, Nat.mul_right_inj hpos.ne'] at hupper
    rw [hhigh', hmid', Nat.mul_lt_mul_left hpos, Nat.mul_right_inj hpos.ne'] at hlower
    omega
  · rw [hrank, ← Nat.succ_mul, Nat.mul_mod, show binadeSize % 2 = 0 from rfl, Nat.mul_zero,
      Nat.zero_mod]

/-- Where the upper half stays the same number for the next whole number too, the lower half is
rounded away. -/
theorem nearestRank_halvesUnits_le {rank : Nat} (hhigh : 2 * binadeSize ≤ high)
    (hsucc : wholeRank (high + 1) = wholeRank high) (hlow : low ≤ 2 ^ 128)
    (hrank : units rank = units (wholeRank high) * 2 ^ 128) :
    nearestRank (halvesUnits high low) 1 ≤ rank := by
  obtain ⟨e, m, hwhole, hfirst, hlast, hstep⟩ := exists_wholeRank_eq hhigh
  have hunits : units (wholeRank high) = m * 2 ^ e := by
    rw [hwhole, units_significand (Nat.le_of_lt hlast) (.inr hfirst)]
  -- The same significand, 128 binades further up.
  have hplace : rank = (e + 128) * binadeSize + m := by
    apply strictMono_units.injective
    rw [hrank, hunits, units_significand (Nat.le_of_lt hlast) (.inr hfirst)]
    ring
  have hnext : units (rank + 1) = units rank + 2 ^ e * 2 ^ 128 := by
    rw [hrank, hunits, hplace, units_significand_succ hlast (.inr hfirst)]
    ring
  have hhalf := units_wholeRank_le_half hlow
  have hpos := unitsPerOne_pos
  apply nearestRank_le_of_withinUpper Nat.one_pos
  unfold WithinUpper halvesUnits
  rw [hnext, ← hrank]
  rcases hstep with hstep | hstep
  · have hparity : rank % 2 = 0 := by
      have heven := wholeRank_even hwhole hsucc hfirst hlast hstep
      have hmove : rank = wholeRank high + 128 * binadeSize := by
        rw [hplace, hwhole]
        ring
      have hsize : 128 * binadeSize % 2 = 0 := rfl
      omega
    rw [hstep]
    omega
  · left
    have hwide : 4 * unitsPerOne * 2 ^ 128 ≤ 2 ^ e * 2 ^ 128 := Nat.mul_le_mul_right _ hstep
    omega

/-- Before the last rounding, amounts are in order where their upper halves are exact. -/
theorem halvesUnits_le_of_exact (hexact : high < 2 * binadeSize) (hlow : low ≤ 2 ^ 128)
    (h : high < high') : halvesUnits high low ≤ halvesUnits high' low' := by
  have hhalf := units_wholeRank_le_half hlow
  have hnext : (high + 1) * unitsPerOne ≤ units (wholeRank high') := by
    rw [← units_wholeRank hexact]
    exact units_le_units.mpr (wholeRank_le_wholeRank h)
  unfold halvesUnits
  rw [units_wholeRank (Nat.le_of_lt hexact)]
  calc high * unitsPerOne * 2 ^ 128 + units (wholeRank low)
      ≤ high * unitsPerOne * 2 ^ 128 + 2 ^ 128 * unitsPerOne := Nat.add_le_add_left hhalf _
    _ = (high + 1) * unitsPerOne * 2 ^ 128 := by ring
    _ ≤ units (wholeRank high') * 2 ^ 128 := Nat.mul_le_mul_right _ hnext
    _ ≤ units (wholeRank high') * 2 ^ 128 + units (wholeRank low') := Nat.le_add_right _ _

/-- So they are where their upper halves are rounded to different numbers. -/
theorem halvesUnits_le_of_grows (hlarge : 2 * binadeSize ≤ high) (hlow : low ≤ 2 ^ 128)
    (h : wholeRank high < wholeRank high') : halvesUnits high low ≤ halvesUnits high' low' := by
  obtain ⟨e, m, hwhole, hfirst, hlast, hstep⟩ := exists_wholeRank_eq hlarge
  have hunits : units (wholeRank high) = m * 2 ^ e := by
    rw [hwhole, units_significand (Nat.le_of_lt hlast) (.inr hfirst)]
  have hhalf := units_wholeRank_le_half hlow
  have hnext : m * 2 ^ e + unitsPerOne ≤ units (wholeRank high') := by
    calc m * 2 ^ e + unitsPerOne ≤ (m + 1) * 2 ^ e := by
          rw [Nat.succ_mul]
          omega
      _ = units (wholeRank high + 1) := by
          rw [hwhole, units_significand_succ hlast (.inr hfirst)]
      _ ≤ units (wholeRank high') := units_le_units.mpr h
  unfold halvesUnits
  rw [hunits]
  calc m * 2 ^ e * 2 ^ 128 + units (wholeRank low)
      ≤ m * 2 ^ e * 2 ^ 128 + 2 ^ 128 * unitsPerOne := Nat.add_le_add_left hhalf _
    _ = (m * 2 ^ e + unitsPerOne) * 2 ^ 128 := by ring
    _ ≤ units (wholeRank high') * 2 ^ 128 := Nat.mul_le_mul_right _ hnext
    _ ≤ units (wholeRank high') * 2 ^ 128 + units (wholeRank low') := Nat.le_add_right _ _

/-- The last rounding of an amount keeps the order of amounts. -/
theorem nearestRank_halvesUnits_le_nearestRank (hlow : low ≤ 2 ^ 128)
    (h : high < high' ∨ high = high' ∧ low ≤ low') :
    nearestRank (halvesUnits high low) 1 ≤ nearestRank (halvesUnits high' low') 1 := by
  have hsums (hle : halvesUnits high low ≤ halvesUnits high' low') :
      nearestRank (halvesUnits high low) 1 ≤ nearestRank (halvesUnits high' low') 1 := by
    apply nearestRank_le_nearestRank Nat.one_pos Nat.one_pos
    rw [Nat.mul_one, Nat.mul_one]
    exact hle
  rcases h with hlt | ⟨rfl, hle⟩
  · rcases Nat.lt_or_ge high (2 * binadeSize) with hexact | hlarge
    · exact hsums (halvesUnits_le_of_exact hexact hlow hlt)
    rcases Nat.lt_or_eq_of_le (wholeRank_le_wholeRank (Nat.le_of_lt hlt)) with hgrows | hsame
    · exact hsums (halvesUnits_le_of_grows hlarge hlow hgrows)
    -- The sums can be out of order here, but both are rounded to what the upper half is.
    have hsucc : wholeRank (high + 1) = wholeRank high := by
      apply Nat.le_antisymm
      · rw [hsame]
        exact wholeRank_le_wholeRank hlt
      · exact wholeRank_le_wholeRank (Nat.le_succ high)
    obtain ⟨rank, hrank⟩ := exists_units_eq_mul (wholeRank high) 128
    calc nearestRank (halvesUnits high low) 1 ≤ rank :=
          nearestRank_halvesUnits_le hlarge hsucc hlow hrank
      _ = nearestRank (units rank * 1) 1 := (nearestRank_units rank Nat.one_pos).symm
      _ ≤ nearestRank (halvesUnits high' low') 1 := by
          apply nearestRank_le_nearestRank Nat.one_pos Nat.one_pos
          rw [Nat.mul_one, Nat.mul_one, Nat.mul_one, hrank, hsame]
          exact Nat.le_add_right _ _
  · apply hsums
    unfold halvesUnits
    exact Nat.add_le_add_left (units_le_units.mpr (wholeRank_le_wholeRank hle)) _

/-- The units of the largest amount are far below those of infinity. -/
theorem halvesUnits_le (hhigh : high ≤ 2 ^ 128) (hlow : low ≤ 2 ^ 128) :
    halvesUnits high low ≤ 2 ^ 128 * unitsPerOne * 2 ^ 128 + 2 ^ 128 * unitsPerOne :=
  Nat.add_le_add (Nat.mul_le_mul_right _ (units_wholeRank_le_half hhigh))
    (units_wholeRank_le_half hlow)

end Halves

section Amounts

theorem isMagnitude_ofNat {n : Nat} (h : n ≤ 2 ^ 128) : (ofNat n).IsMagnitude := by
  refine ⟨rfl, ?_⟩
  have hrank := wholeRank_le_wholeRank h
  have hbound : wholeRank (2 ^ 128) < infinityRank := by decide +kernel
  exact Nat.lt_of_le_of_lt (Nat.min_le_left _ _) (Nat.lt_of_le_of_lt hrank hbound)

theorem rank_ofNat {n : Nat} (h : n ≤ 2 ^ 128) : (ofNat n).rank = wholeRank n := by
  have hfinite := (isMagnitude_ofNat h).finite
  have hrank : (ofNat n).rank = min (wholeRank n) infinityRank := rfl
  omega

end Amounts

end FeeWindow.Binary64

namespace FeeWindow.Amount

open Binary64

/-- The product with the weight of the upper half is exact, so only the sum is rounded. -/
theorem toBinary64_eq (a : Amount) : a.toBinary64 =
    ofUnits false (halvesUnits (a.val / 2 ^ 128) (a.val % 2 ^ 128)) 1 := by
  have hdiv : a.val / 2 ^ 128 < 2 ^ 128 := Nat.div_lt_of_lt_mul a.val_lt
  have hmod : a.val % 2 ^ 128 < 2 ^ 128 := Nat.mod_lt _ (Nat.two_pow_pos 128)
  have hhigh := isMagnitude_ofNat (Nat.le_of_lt hdiv)
  have hlow := isMagnitude_ofNat (Nat.le_of_lt hmod)
  have hweight := isMagnitude_ofNat (Nat.le_refl (2 ^ 128))
  have hweightUnits : units (wholeRank (2 ^ 128)) = 2 ^ 128 * unitsPerOne := by decide +kernel
  obtain ⟨rank, hrank⟩ := exists_units_eq_mul (wholeRank (a.val / 2 ^ 128)) 128
  have hfinite : rank < infinityRank := by
    apply strictMono_units.lt_iff_lt.mp
    have hbound := units_wholeRank_le_half (Nat.le_of_lt hdiv)
    calc units rank = units (wholeRank (a.val / 2 ^ 128)) * 2 ^ 128 := hrank
      _ ≤ 2 ^ 128 * unitsPerOne * 2 ^ 128 := Nat.mul_le_mul_right _ hbound
      _ < units infinityRank := by decide +kernel
  have hproduct : ofNat (a.val / 2 ^ 128) * ofNat (2 ^ 128) =
      ofUnits false (units rank * unitsPerOne) unitsPerOne := by
    rw [hhigh.mul_eq hweight, rank_ofNat (Nat.le_of_lt hdiv), rank_ofNat (Nat.le_refl _),
      hweightUnits, hrank, Nat.mul_assoc]
  have hproductRank : (ofNat (a.val / 2 ^ 128) * ofNat (2 ^ 128)).rank = rank := by
    rw [hproduct, rank_ofUnits_units unitsPerOne_pos (Nat.le_of_lt hfinite)]
  have hproductMagnitude : (ofNat (a.val / 2 ^ 128) * ofNat (2 ^ 128)).IsMagnitude := by
    refine ⟨?_, ?_⟩
    · rw [hproduct]
      rfl
    · rw [hproductRank]
      exact hfinite
  simp only [toBinary64, Nat.pow_eq]
  rw [hproductMagnitude.add_eq hlow, hproductRank, rank_ofNat (Nat.le_of_lt hmod), halvesUnits,
    hrank]

theorem isMagnitude_toBinary64 (a : Amount) : a.toBinary64.IsMagnitude := by
  have hdiv : a.val / 2 ^ 128 < 2 ^ 128 := Nat.div_lt_of_lt_mul a.val_lt
  have hmod : a.val % 2 ^ 128 < 2 ^ 128 := Nat.mod_lt _ (Nat.two_pow_pos 128)
  have hsum := halvesUnits_le (Nat.le_of_lt hdiv) (Nat.le_of_lt hmod)
  have hrank := nearestRank_le_nearestRank Nat.one_pos Nat.one_pos (Nat.mul_le_mul_right 1 hsum)
  have hbound : nearestRank (2 ^ 128 * unitsPerOne * 2 ^ 128 + 2 ^ 128 * unitsPerOne) 1 <
      infinityRank := by
    decide +kernel
  rw [toBinary64_eq]
  exact ⟨rfl, Nat.lt_of_le_of_lt (Nat.min_le_left _ _) (Nat.lt_of_le_of_lt hrank hbound)⟩

/-- Amounts of at most 53 bits are exact. -/
theorem units_toBinary64 {a : Amount} (h : a.val ≤ 2 * binadeSize) :
    units a.toBinary64.rank = a.val * unitsPerOne := by
  have hwidth : 2 * binadeSize < 2 ^ 128 := by decide
  have hdiv : a.val / 2 ^ 128 = 0 := Nat.div_eq_of_lt (by omega)
  have hmod : a.val % 2 ^ 128 = a.val := Nat.mod_eq_of_lt (by omega)
  have hhalves : halvesUnits 0 a.val = units (wholeRank a.val) * 1 := by
    rw [halvesUnits, units_wholeRank (Nat.zero_le _), Nat.zero_mul, Nat.zero_mul, Nat.zero_add,
      Nat.mul_one]
  have hrank : (ofNat a.val).rank = wholeRank a.val := rank_ofNat (by omega)
  have hfinite : wholeRank a.val ≤ infinityRank := by
    rw [← hrank]
    exact Nat.le_of_lt (isMagnitude_ofNat (by omega)).finite
  rw [toBinary64_eq, hdiv, hmod, hhalves, rank_ofUnits_units Nat.one_pos hfinite,
    units_wholeRank h]

/-- A larger amount never becomes a smaller number. -/
theorem toBinary64_le_toBinary64 {a b : Amount} (h : a.val ≤ b.val) :
    a.toBinary64 ≤ b.toBinary64 := by
  have hmod : a.val % 2 ^ 128 ≤ 2 ^ 128 := Nat.le_of_lt (Nat.mod_lt _ (Nat.two_pow_pos 128))
  have hhalves : a.val / 2 ^ 128 < b.val / 2 ^ 128 ∨
      a.val / 2 ^ 128 = b.val / 2 ^ 128 ∧ a.val % 2 ^ 128 ≤ b.val % 2 ^ 128 := by
    omega
  rw [toBinary64_eq, toBinary64_eq, isNonneg_ofUnits.le_iff isNonneg_ofUnits]
  have hrank := nearestRank_halvesUnits_le_nearestRank hmod hhalves
  simp only [ofUnits]
  omega

/-- Only zero becomes zero. -/
theorem rank_toBinary64_pos {a : Amount} (h : 0 < a.val) : 0 < a.toBinary64.rank := by
  have hone : 0 < one.toBinary64.rank := by decide +kernel
  have hle : one.toBinary64 ≤ a.toBinary64 := toBinary64_le_toBinary64 h
  rw [one.isMagnitude_toBinary64.isNonneg.le_iff a.isMagnitude_toBinary64.isNonneg] at hle
  exact Nat.lt_of_lt_of_le hone hle

end FeeWindow.Amount
