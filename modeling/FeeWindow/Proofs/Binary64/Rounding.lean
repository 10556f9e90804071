import FeeWindow.Proofs.Binary64.Order
import Mathlib.Tactic.Ring

/-!
Rounding to the nearest magnitude. The rank that a ratio of units is rounded to is the one whose
magnitude has the ratio between its two midpoints, a midpoint itself going to the even rank. So
rounding keeps the order of ratios, and a ratio that is a magnitude is rounded to itself.
-/

namespace FeeWindow

section RoundEven

variable {n d : Nat}

theorem roundEven_upper (hd : 0 < d) :
    2 * n < d * (2 * roundEven n d + 1) ∨
      2 * n = d * (2 * roundEven n d + 1) ∧ roundEven n d % 2 = 0 := by
  have hn := Nat.div_add_mod n d
  have hmod := Nat.mod_lt n hd
  have hleft : d * (2 * (n / d) + 1) = 2 * (d * (n / d)) + d := by ring
  have hright : d * (2 * (n / d + 1) + 1) = 2 * (d * (n / d)) + 3 * d := by ring
  simp only [roundEven]
  split
  · rw [hleft]
    omega
  · rw [hright]
    omega

theorem roundEven_lower (hd : 0 < d) {k : Nat} (hk : k + 1 = roundEven n d) :
    d * (2 * k + 1) < 2 * n ∨ d * (2 * k + 1) = 2 * n ∧ roundEven n d % 2 = 0 := by
  have hn := Nat.div_add_mod n d
  have hmod := Nat.mod_lt n hd
  simp only [roundEven] at hk ⊢
  split at hk
  · next h =>
      have hbelow : 2 * (d * (n / d)) = d * (2 * k + 1) + d := by
        rw [← hk]
        ring
      rw [if_pos h]
      omega
  · next h =>
      obtain rfl : k = n / d := by omega
      have hmid : d * (2 * (n / d) + 1) = 2 * (d * (n / d)) + d := by ring
      rw [if_neg h, hmid]
      omega

theorem roundEven_le (hd : 0 < d) {k : Nat} (h : n ≤ d * k) : roundEven n d ≤ k := by
  by_contra hlt
  obtain ⟨m, hm⟩ : ∃ m, m + 1 = roundEven n d := ⟨roundEven n d - 1, by omega⟩
  have hlower : d * (2 * m + 1) ≤ 2 * n := by
    rcases roundEven_lower hd hm with h | ⟨h, _⟩ <;> omega
  have hk : d * k ≤ d * m := Nat.mul_le_mul_left d (by omega)
  have hmid : d * (2 * m + 1) = 2 * (d * m) + d := by ring
  omega

theorem le_roundEven (hd : 0 < d) {k : Nat} (h : d * k ≤ n) : k ≤ roundEven n d := by
  by_contra hlt
  have hupper : 2 * n ≤ d * (2 * roundEven n d + 1) := by
    rcases roundEven_upper (n := n) hd with h | ⟨h, _⟩ <;> omega
  have hk : d * (roundEven n d + 1) ≤ d * k := Nat.mul_le_mul_left d (by omega)
  have hmid : d * (2 * roundEven n d + 1) + d = 2 * (d * (roundEven n d + 1)) := by ring
  omega

end RoundEven

namespace Binary64

section Midpoints

variable {n d m e rank : Nat}

/-- Whether `n / d` units are at most the midpoint between a magnitude and the next one. -/
def WithinUpper (n d rank : Nat) : Prop :=
  2 * n < d * (units rank + units (rank + 1)) ∨
    2 * n = d * (units rank + units (rank + 1)) ∧ rank % 2 = 0

/-- Whether `n / d` units are at least the midpoint between a magnitude and the one before. -/
def WithinLower (n d rank : Nat) : Prop :=
  ∀ below, below + 1 = rank →
    d * (units below + units rank) < 2 * n ∨
      d * (units below + units rank) = 2 * n ∧ rank % 2 = 0

/-- A lower bound on one ratio and an upper bound on a larger one order the ranks. Only if both
ratios are the midpoint of two neighbours is their parity needed. -/
theorem rank_le_of_within {n' d' rank' : Nat} (hd : 0 < d) (hd' : 0 < d')
    (hlower : WithinLower n d rank) (hupper : WithinUpper n' d' rank') (h : n * d' ≤ n' * d) :
    rank ≤ rank' := by
  by_contra hlt
  obtain ⟨below, rfl⟩ : ∃ below, rank = below + 1 := ⟨rank - 1, by omega⟩
  have hfirst : units rank' ≤ units below := units_le_units.mpr (by omega)
  have hsecond : units (rank' + 1) ≤ units (below + 1) := units_le_units.mpr (by omega)
  -- Both midpoints lie between the two ratios, so all four are the same.
  have hlow : d * (units below + units (below + 1)) ≤ 2 * n := by
    rcases hlower below rfl with h | ⟨h, _⟩ <;> omega
  have hupp : 2 * n' ≤ d' * (units rank' + units (rank' + 1)) := by
    rcases hupper with h | ⟨h, _⟩ <;> omega
  have hlow' := Nat.mul_le_mul_left d' hlow
  have hupp' := Nat.mul_le_mul_left d hupp
  have hcross : d' * (2 * n) ≤ d * (2 * n') := by
    calc d' * (2 * n) = 2 * (n * d') := by ring
      _ ≤ 2 * (n' * d) := Nat.mul_le_mul_left 2 h
      _ = d * (2 * n') := by ring
  have hmid : d * (d' * (units rank' + units (rank' + 1))) ≤
      d' * (d * (units below + units (below + 1))) := by
    rw [Nat.mul_left_comm]
    exact Nat.mul_le_mul_left d' (Nat.mul_le_mul_left d (by omega))
  have hlowEq : d * (units below + units (below + 1)) = 2 * n :=
    Nat.eq_of_mul_eq_mul_left hd' (by omega)
  have huppEq : 2 * n' = d' * (units rank' + units (rank' + 1)) :=
    Nat.eq_of_mul_eq_mul_left hd (by omega)
  have hmidEq : units rank' + units (rank' + 1) = units below + units (below + 1) := by
    apply Nat.eq_of_mul_eq_mul_left hd'
    apply Nat.eq_of_mul_eq_mul_left hd
    rw [Nat.mul_left_comm d d' (units below + _)]
    omega
  have hsame : rank' = below := strictMono_units.injective (by omega)
  rcases hlower below rfl with hstrict | ⟨_, heven⟩
  · omega
  · rcases hupper with hstrict | ⟨_, heven'⟩ <;> omega

/-- A significand and an exponent, where normal significands start and where they end. -/
theorem units_significand (hm : m ≤ 2 * binadeSize) (h : e = 0 ∨ binadeSize ≤ m) :
    units (e * binadeSize + m) = m * 2 ^ e := by
  have hpos : 0 < binadeSize := Nat.two_pow_pos 52
  unfold units
  by_cases hsub : e * binadeSize + m < binadeSize
  · have he : e = 0 := by
      rcases h with he | hm
      · exact he
      · omega
    rw [if_pos hsub, he]
    omega
  rw [if_neg hsub, Nat.shiftLeft_eq]
  have hlow : binadeSize ≤ m := by
    rcases h with he | hlow
    · rw [he] at hsub
      omega
    · exact hlow
  obtain ⟨rest, rfl⟩ := Nat.exists_eq_add_of_le hlow
  rcases Nat.lt_or_eq_of_le (show rest ≤ binadeSize by omega) with hinside | rfl
  · have hrank : e * binadeSize + (binadeSize + rest) = rest + binadeSize * (e + 1) := by ring
    rw [hrank, Nat.add_mul_mod_self_left, Nat.add_mul_div_left _ _ hpos,
      Nat.mod_eq_of_lt hinside, Nat.div_eq_of_lt hinside]
    congr 2
    omega
  · have hrank : e * binadeSize + (binadeSize + binadeSize) = binadeSize * (e + 2) := by ring
    rw [hrank, Nat.mul_mod_right, Nat.mul_div_cancel_left _ hpos, Nat.add_zero]
    have hexp : e + 2 - 1 = e + 1 := by omega
    rw [hexp]
    ring

theorem units_significand_succ (hm : m < 2 * binadeSize) (h : e = 0 ∨ binadeSize ≤ m) :
    units (e * binadeSize + m + 1) = (m + 1) * 2 ^ e := by
  rw [Nat.add_assoc]
  exact units_significand hm (h.imp id Nat.le_succ_of_le)

theorem exists_unitsPerOne_eq : ∃ e, unitsPerOne = 2 ^ e := by
  unfold unitsPerOne
  generalize 1074 = e
  exact ⟨e, rfl⟩

theorem unitsPerOne_pos : 0 < unitsPerOne := by
  obtain ⟨e, he⟩ := exists_unitsPerOne_eq
  rw [he]
  exact Nat.two_pow_pos e

/-- Every number of units with at most 53 significant bits is a magnitude. -/
theorem exists_units_eq (hm : m ≤ 2 * binadeSize) : ∃ rank, units rank = m * 2 ^ e := by
  induction e generalizing m with
  | zero =>
      have hunits := units_significand hm (.inl rfl)
      exact ⟨_, hunits⟩
  | succ e ih =>
      rcases Nat.lt_or_ge m binadeSize with hsmall | hnormal
      · obtain ⟨rank, hrank⟩ := ih (m := 2 * m) (by omega)
        refine ⟨rank, ?_⟩
        rw [hrank]
        ring
      · exact ⟨_, units_significand hm (.inr hnormal)⟩

/-- Every rank is that of a significand and an exponent, normal unless the exponent is the least. -/
theorem exists_rank_eq (rank : Nat) :
    ∃ e m, rank = e * binadeSize + m ∧ m < 2 * binadeSize ∧ (e = 0 ∨ binadeSize ≤ m) := by
  have hpos : 0 < binadeSize := Nat.two_pow_pos 52
  have hdiv := Nat.div_add_mod rank binadeSize
  have hmod := Nat.mod_lt rank hpos
  rcases Nat.eq_zero_or_pos (rank / binadeSize) with hzero | hnormal
  · rw [hzero, Nat.mul_zero] at hdiv
    exact ⟨0, rank, by omega, by omega, .inl rfl⟩
  · obtain ⟨e, he⟩ : ∃ e, rank / binadeSize = e + 1 := ⟨rank / binadeSize - 1, by omega⟩
    rw [he, Nat.mul_comm, Nat.succ_mul] at hdiv
    exact ⟨e, binadeSize + rank % binadeSize, by omega, by omega, .inr (by omega)⟩

/-- A magnitude and the next one have the same exponent, with significands one apart. -/
theorem exists_significands_eq (rank : Nat) :
    ∃ e m, m < 2 * binadeSize ∧ units rank = m * 2 ^ e ∧ units (rank + 1) = (m + 1) * 2 ^ e := by
  obtain ⟨e, m, rfl, hm, hnormal⟩ := exists_rank_eq rank
  exact ⟨e, m, hm, units_significand (Nat.le_of_lt hm) hnormal,
    units_significand_succ hm hnormal⟩

/-- A magnitude times a power of two is a magnitude. -/
theorem exists_units_eq_mul (rank k : Nat) : ∃ scaled, units scaled = units rank * 2 ^ k := by
  obtain ⟨e, m, hm, hrank, _⟩ := exists_significands_eq rank
  obtain ⟨scaled, hscaled⟩ := exists_units_eq (e := e + k) (Nat.le_of_lt hm)
  refine ⟨scaled, ?_⟩
  rw [hscaled, hrank, Nat.pow_add, Nat.mul_assoc]

/-- The binade of a ratio has it between its first and its last significand. -/
theorem binade_bounds (hd : 0 < d) :
    n ≤ d * 2 ^ binade n d * (2 * binadeSize) ∧
      (binade n d = 0 ∨ d * 2 ^ binade n d * binadeSize ≤ n) := by
  have hsize : binadeSize = 2 ^ 52 := rfl
  have htwice : 2 * binadeSize = 2 ^ 53 := rfl
  constructor
  · have hlog : n / d < 2 ^ (binade n d + 53) := by
      apply Nat.lt_of_lt_of_le Nat.lt_log2_self
      apply Nat.pow_le_pow_right (by decide)
      unfold binade
      omega
    have hn := Nat.lt_mul_of_div_lt hlog hd
    rw [htwice, Nat.mul_assoc, ← Nat.pow_add, Nat.mul_comm d]
    exact Nat.le_of_lt hn
  · by_cases hzero : binade n d = 0
    · exact .inl hzero
    · right
      have hexp : binade n d + 52 = Nat.log2 (n / d) := by
        unfold binade at hzero ⊢
        omega
      have hquot : n / d ≠ 0 := by
        intro h
        rw [h, Nat.log2_zero] at hexp
        omega
      rw [hsize, Nat.mul_assoc, ← Nat.pow_add, hexp]
      calc d * 2 ^ Nat.log2 (n / d) ≤ d * (n / d) :=
            Nat.mul_le_mul_left d (Nat.log2_self_le hquot)
        _ ≤ n := Nat.mul_div_le n d

/-- The significand that a ratio is rounded to in its binade. -/
def significand (n d : Nat) : Nat := roundEven n (d <<< binade n d)

theorem nearestRank_eq (n d : Nat) :
    nearestRank n d = binade n d * binadeSize + significand n d :=
  rfl

theorem significand_bounds (hd : 0 < d) :
    significand n d ≤ 2 * binadeSize ∧ (binade n d = 0 ∨ binadeSize ≤ significand n d) := by
  have hstep : 0 < d * 2 ^ binade n d := Nat.mul_pos hd (Nat.two_pow_pos _)
  obtain ⟨hupper, hlower⟩ := binade_bounds (n := n) hd
  unfold significand
  rw [Nat.shiftLeft_eq]
  exact ⟨roundEven_le hstep hupper, hlower.imp id (le_roundEven hstep)⟩

theorem units_nearestRank (hd : 0 < d) :
    units (nearestRank n d) = significand n d * 2 ^ binade n d := by
  obtain ⟨hupper, hlower⟩ := significand_bounds (n := n) hd
  exact units_significand hupper hlower

theorem nearestRank_mod_two (n d : Nat) : nearestRank n d % 2 = significand n d % 2 := by
  have heven : binade n d * binadeSize % 2 = 0 := by
    rw [Nat.mul_mod, show binadeSize % 2 = 0 from rfl, Nat.mul_zero, Nat.zero_mod]
  rw [nearestRank_eq]
  omega

/-- Above the last significand of a binade the next magnitude is further away, and the ratio does
not reach beyond that significand. -/
theorem withinUpper_nearestRank (hd : 0 < d) : WithinUpper n d (nearestRank n d) := by
  have hstep : 0 < d * 2 ^ binade n d := Nat.mul_pos hd (Nat.two_pow_pos _)
  obtain ⟨hm, hlower⟩ := significand_bounds (n := n) hd
  have hunits := units_nearestRank (n := n) hd
  have hparity := nearestRank_mod_two n d
  unfold WithinUpper
  rcases Nat.lt_or_eq_of_le hm with hinside | hlast
  · have hnext : units (nearestRank n d + 1) =
        (significand n d + 1) * 2 ^ binade n d := by
      rw [nearestRank_eq]
      exact units_significand_succ hinside hlower
    have hmid : d * (units (nearestRank n d) + units (nearestRank n d + 1)) =
        d * 2 ^ binade n d * (2 * significand n d + 1) := by
      rw [hunits, hnext]
      ring
    rw [hmid, hparity, significand, Nat.shiftLeft_eq]
    exact roundEven_upper hstep
  · left
    have hnext := units_lt_units_succ (nearestRank n d)
    calc 2 * n ≤ 2 * (d * 2 ^ binade n d * (2 * binadeSize)) :=
          Nat.mul_le_mul_left 2 (binade_bounds hd).1
      _ = d * (units (nearestRank n d) + units (nearestRank n d)) := by
          rw [hunits, hlast]
          ring
      _ < d * (units (nearestRank n d) + units (nearestRank n d + 1)) :=
          Nat.mul_lt_mul_of_pos_left (by omega) hd

/-- Not at the first significand of a binade, the magnitude before has the significand before. -/
theorem exists_units_below_eq (hd : 0 < d) {below : Nat} (hbelow : below + 1 = nearestRank n d)
    (h : binade n d = 0 ∨ significand n d ≠ binadeSize) :
    ∃ k, k + 1 = significand n d ∧ units below = k * 2 ^ binade n d := by
  obtain ⟨hm, hlower⟩ := significand_bounds (n := n) hd
  have hpos : 0 < binadeSize := Nat.two_pow_pos 52
  have hrank := nearestRank_eq n d
  obtain ⟨k, hk⟩ : ∃ k, k + 1 = significand n d := by
    refine ⟨significand n d - 1, ?_⟩
    rcases hlower with hexp | hnormal
    · rw [hexp, Nat.zero_mul] at hrank
      omega
    · omega
  have hplace : below = binade n d * binadeSize + k := by omega
  have hinside : binade n d = 0 ∨ binadeSize ≤ k := by
    rcases h with hexp | hother
    · exact .inl hexp
    · exact hlower.imp id (by omega)
  refine ⟨k, hk, ?_⟩
  rw [hplace]
  exact units_significand (by omega) hinside

/-- Below the first significand of a binade the next magnitude is nearer, and the ratio does not
reach down to it. -/
theorem withinLower_nearestRank (hd : 0 < d) : WithinLower n d (nearestRank n d) := by
  have hstep : 0 < d * 2 ^ binade n d := Nat.mul_pos hd (Nat.two_pow_pos _)
  have hunits := units_nearestRank (n := n) hd
  have hparity := nearestRank_mod_two n d
  intro below hbelow
  by_cases hfirst : binade n d ≠ 0 ∧ significand n d = binadeSize
  · left
    obtain ⟨hexp, hsignificand⟩ := hfirst
    have hless : units below < units (nearestRank n d) := strictMono_units (by omega)
    calc d * (units below + units (nearestRank n d))
        < d * (units (nearestRank n d) + units (nearestRank n d)) :=
          Nat.mul_lt_mul_of_pos_left (by omega) hd
      _ = 2 * (d * 2 ^ binade n d * binadeSize) := by
          rw [hunits, hsignificand]
          ring
      _ ≤ 2 * n := Nat.mul_le_mul_left 2 ((binade_bounds hd).2.resolve_left hexp)
  · obtain ⟨k, hk, hprevious⟩ := exists_units_below_eq hd hbelow (by omega)
    have hmid : d * (units below + units (nearestRank n d)) =
        d * 2 ^ binade n d * (2 * k + 1) := by
      rw [hunits, hprevious, ← hk]
      ring
    rw [hmid, hparity]
    unfold significand at hk ⊢
    rw [Nat.shiftLeft_eq] at hk ⊢
    exact roundEven_lower hstep hk

end Midpoints

section Order

variable {n d rank : Nat}

theorem nearestRank_le_of_withinUpper (hd : 0 < d) (h : WithinUpper n d rank) :
    nearestRank n d ≤ rank :=
  rank_le_of_within hd hd (withinLower_nearestRank hd) h (Nat.le_refl _)

/-- Rounding keeps the order of ratios. -/
theorem nearestRank_le_nearestRank {n' d' : Nat} (hd : 0 < d) (hd' : 0 < d')
    (h : n * d' ≤ n' * d) : nearestRank n d ≤ nearestRank n' d' :=
  rank_le_of_within hd hd' (withinLower_nearestRank hd) (withinUpper_nearestRank hd') h

/-- A magnitude is rounded to itself. -/
theorem nearestRank_units (rank : Nat) (hd : 0 < d) : nearestRank (units rank * d) d = rank := by
  apply Nat.le_antisymm
  · apply nearestRank_le_of_withinUpper hd
    left
    have hnext := units_lt_units_succ rank
    calc 2 * (units rank * d) = d * (units rank + units rank) := by ring
      _ < d * (units rank + units (rank + 1)) := Nat.mul_lt_mul_of_pos_left (by omega) hd
  · refine rank_le_of_within hd hd ?_ (withinUpper_nearestRank hd) (Nat.le_refl _)
    rintro below rfl
    left
    have hnext := units_lt_units_succ below
    calc d * (units below + units (below + 1)) < d * (units (below + 1) + units (below + 1)) :=
          Nat.mul_lt_mul_of_pos_left (by omega) hd
      _ = 2 * (units (below + 1) * d) := by ring

end Order

end Binary64

end FeeWindow
