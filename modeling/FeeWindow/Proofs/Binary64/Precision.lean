import FeeWindow.Proofs.Binary64.Rounding

/-!
How far rounding can go. A whole number of units loses at most one part in `2 ^ 53`, and two
different magnitudes are at least one such part apart. Between a magnitude and the next one the
midpoint decides, and goes up where the next one has an even rank.
-/

namespace FeeWindow.Binary64

variable {n d rank : Nat}

/-- Two different magnitudes are at least one part in `2 ^ 53` of the smaller one apart. -/
theorem units_gap {other : Nat} (h : rank < other) :
    (2 * binadeSize + 1) * units rank ≤ 2 * binadeSize * units other := by
  obtain ⟨e, m, hm, hself, hnext⟩ := exists_significands_eq rank
  calc (2 * binadeSize + 1) * units rank
      = 2 * binadeSize * (m * 2 ^ e) + m * 2 ^ e := by rw [hself, Nat.succ_mul]
    _ ≤ 2 * binadeSize * (m * 2 ^ e) + 2 * binadeSize * 2 ^ e :=
        Nat.add_le_add_left (Nat.mul_le_mul_right _ (Nat.le_of_lt hm)) _
    _ = 2 * binadeSize * units (rank + 1) := by
        rw [hnext]
        ring
    _ ≤ 2 * binadeSize * units other := Nat.mul_le_mul_left _ (units_le_units.mpr h)

/-- Rounding takes away at most half a step of the binade. -/
theorem two_mul_le_nearestRank (hd : 0 < d) :
    2 * n ≤ d * (2 * units (nearestRank n d) + 2 ^ binade n d) := by
  have hstep : 0 < d * 2 ^ binade n d := Nat.mul_pos hd (Nat.two_pow_pos _)
  have hmid : d * (2 * units (nearestRank n d) + 2 ^ binade n d) =
      d * 2 ^ binade n d * (2 * significand n d + 1) := by
    rw [units_nearestRank hd]
    ring
  rw [hmid, significand, Nat.shiftLeft_eq]
  rcases roundEven_upper (n := n) hstep with h | ⟨h, _⟩
  · exact Nat.le_of_lt h
  · exact Nat.le_of_eq h

/-- A whole number of units loses at most one part in `2 ^ 53`: where steps are single units it is
exact, and elsewhere it has `2 ^ 52` steps at least. -/
theorem mul_le_mul_units_nearestRank (n : Nat) :
    2 * binadeSize * n ≤ 2 * binadeSize * units (nearestRank n 1) + n := by
  have hloss := two_mul_le_nearestRank (n := n) Nat.one_pos
  rw [Nat.one_mul] at hloss
  rcases (binade_bounds (n := n) Nat.one_pos).2 with hexp | hlow
  · rw [hexp, Nat.pow_zero] at hloss
    have hexact : n ≤ units (nearestRank n 1) := by omega
    exact Nat.le_add_right_of_le (Nat.mul_le_mul_left _ hexact)
  · rw [Nat.one_mul] at hlow
    calc 2 * binadeSize * n = binadeSize * (2 * n) := by ring
      _ ≤ binadeSize * (2 * units (nearestRank n 1) + 2 ^ binade n 1) :=
          Nat.mul_le_mul_left _ hloss
      _ = 2 * binadeSize * units (nearestRank n 1) + 2 ^ binade n 1 * binadeSize := by ring
      _ ≤ 2 * binadeSize * units (nearestRank n 1) + n := Nat.add_le_add_left hlow _

/-- A ratio is rounded to a magnitude of even rank or beyond it exactly from the midpoint below
that magnitude on. -/
theorem succ_le_nearestRank_iff (hd : 0 < d) (heven : (rank + 1) % 2 = 0) :
    rank + 1 ≤ nearestRank n d ↔ d * (units rank + units (rank + 1)) ≤ 2 * n := by
  constructor
  · intro h
    obtain ⟨below, hbelow⟩ : ∃ below, below + 1 = nearestRank n d :=
      ⟨nearestRank n d - 1, by omega⟩
    have hfirst : units rank ≤ units below := units_le_units.mpr (by omega)
    have hsecond : units (rank + 1) ≤ units (nearestRank n d) := units_le_units.mpr h
    calc d * (units rank + units (rank + 1)) ≤ d * (units below + units (nearestRank n d)) :=
          Nat.mul_le_mul_left d (by omega)
      _ ≤ 2 * n := by rcases withinLower_nearestRank hd below hbelow with h | ⟨h, _⟩ <;> omega
  · intro h
    refine rank_le_of_within hd hd ?_ (withinUpper_nearestRank hd) (Nat.le_refl _)
    intro below hbelow
    obtain rfl : below = rank := by omega
    exact (Nat.lt_or_eq_of_le h).imp id fun heq => ⟨heq, heven⟩

/-- A magnitude that is no larger than a ratio stays so when the ratio is rounded. -/
theorem le_nearestRank_of_units_le (hd : 0 < d) (h : units rank * d ≤ n) :
    rank ≤ nearestRank n d := by
  have hself := nearestRank_units rank hd
  rw [← hself]
  exact nearestRank_le_nearestRank hd hd (Nat.mul_le_mul_right d h)

/-- Rounding depends on the ratio alone. -/
theorem nearestRank_mul_right {c : Nat} (hd : 0 < d) (hc : 0 < c) :
    nearestRank (n * c) (d * c) = nearestRank n d := by
  have hratio : n * c * d = n * (d * c) := by ring
  apply Nat.le_antisymm
  · exact nearestRank_le_nearestRank (Nat.mul_pos hd hc) hd (Nat.le_of_eq hratio)
  · exact nearestRank_le_nearestRank hd (Nat.mul_pos hd hc) (Nat.le_of_eq hratio.symm)

end FeeWindow.Binary64
