import FeeWindow.Proofs.Amount.Arithmetic
import FeeWindow.Proofs.Binary64.Conversion
import FeeWindow.Proofs.Binary64.Value

/-!
The conversion of amounts skips no number. An amount of at most 53 significant bits has halves of at
most 53 significant bits, so all three roundings leave it alone; and as the conversion keeps the
order of amounts, every other amount stays between the numbers around it.
-/

namespace FeeWindow.Binary64

variable {n rank : Nat}

/-- Whether a natural number has at most 53 significant bits. -/
def IsShort (n : Nat) : Prop := ∃ m e, m < 2 * binadeSize ∧ n = m * 2 ^ e

/-- A magnitude of whole ones has at most 53 significant bits. -/
theorem isShort_of_units_eq (h : units rank = n * unitsPerOne) : IsShort n := by
  obtain ⟨one, hone⟩ := exists_unitsPerOne_eq
  obtain ⟨e, m, hm, hunits, _⟩ := exists_significands_eq rank
  rw [hunits, hone] at h
  rcases Nat.le_total one e with hle | hle
  · obtain ⟨k, rfl⟩ := Nat.exists_eq_add_of_le hle
    refine ⟨m, k, hm, ?_⟩
    apply Nat.eq_of_mul_eq_mul_right (Nat.two_pow_pos one)
    rw [← h, Nat.pow_add]
    ring
  · obtain ⟨k, rfl⟩ := Nat.exists_eq_add_of_le hle
    have hmn : m = n * 2 ^ k := by
      apply Nat.eq_of_mul_eq_mul_right (Nat.two_pow_pos e)
      rw [h, Nat.pow_add]
      ring
    have hn : n ≤ m := by
      rw [hmn]
      exact Nat.le_mul_of_pos_right n (Nat.two_pow_pos k)
    exact ⟨n, 0, by omega, (Nat.mul_one n).symm⟩

theorem IsShort.units_wholeRank (h : IsShort n) : units (wholeRank n) = n * unitsPerOne := by
  obtain ⟨m, e, hm, rfl⟩ := h
  obtain ⟨one, hone⟩ := exists_unitsPerOne_eq
  obtain ⟨rank, hrank⟩ := exists_units_eq (e := e + one) (Nat.le_of_lt hm)
  rw [Nat.pow_add, ← Nat.mul_assoc, ← hone] at hrank
  rw [wholeRank_eq hrank, hrank]

theorem IsShort.div_two_pow (h : IsShort n) (k : Nat) : IsShort (n / 2 ^ k) := by
  obtain ⟨m, e, hm, rfl⟩ := h
  rcases Nat.le_total k e with hle | hle
  · obtain ⟨rest, rfl⟩ := Nat.exists_eq_add_of_le hle
    refine ⟨m, rest, hm, ?_⟩
    rw [Nat.pow_add, Nat.mul_left_comm, Nat.mul_div_cancel_left _ (Nat.two_pow_pos k)]
  · obtain ⟨rest, rfl⟩ := Nat.exists_eq_add_of_le hle
    refine ⟨m / 2 ^ rest, 0, Nat.lt_of_le_of_lt (Nat.div_le_self m _) hm, ?_⟩
    rw [Nat.pow_add, Nat.mul_comm m, Nat.mul_div_mul_left _ _ (Nat.two_pow_pos e), Nat.pow_zero,
      Nat.mul_one]

theorem IsShort.mod_two_pow (h : IsShort n) (k : Nat) : IsShort (n % 2 ^ k) := by
  obtain ⟨m, e, hm, rfl⟩ := h
  rcases Nat.le_total k e with hle | hle
  · obtain ⟨rest, rfl⟩ := Nat.exists_eq_add_of_le hle
    refine ⟨0, 0, Nat.lt_of_le_of_lt (Nat.zero_le m) hm, ?_⟩
    rw [Nat.pow_add, Nat.mul_left_comm, Nat.mul_mod_right, Nat.zero_mul]
  · obtain ⟨rest, rfl⟩ := Nat.exists_eq_add_of_le hle
    refine ⟨m % 2 ^ rest, e, Nat.lt_of_le_of_lt (Nat.mod_le m _) hm, ?_⟩
    rw [Nat.pow_add, Nat.mul_comm m, Nat.mul_mod_mul_left, Nat.mul_comm]

/-- From 53 bits on all magnitudes are whole ones. -/
theorem exists_eq_mul_unitsPerOne (h : 2 * binadeSize * unitsPerOne ≤ units rank) :
    ∃ n, units rank = n * unitsPerOne := by
  obtain ⟨one, hone⟩ := exists_unitsPerOne_eq
  obtain ⟨e, m, hm, hunits, _⟩ := exists_significands_eq rank
  have hexp : one ≤ e := by
    by_contra hlt
    have hpow : 2 ^ e ≤ 2 ^ one := Nat.pow_le_pow_right (by decide) (by omega)
    have hless : units rank < 2 * binadeSize * unitsPerOne := by
      calc units rank = m * 2 ^ e := hunits
        _ ≤ m * 2 ^ one := Nat.mul_le_mul_left m hpow
        _ < 2 * binadeSize * 2 ^ one := Nat.mul_lt_mul_of_pos_right hm (Nat.two_pow_pos one)
        _ = 2 * binadeSize * unitsPerOne := by rw [hone]
    omega
  obtain ⟨k, rfl⟩ := Nat.exists_eq_add_of_le hexp
  refine ⟨m * 2 ^ k, ?_⟩
  rw [hunits, hone, Nat.pow_add]
  ring

end FeeWindow.Binary64

namespace FeeWindow.Amount

open Binary64

variable {a b : Amount} {rank : Nat}

/-- The units of an amount before its last rounding. -/
def roundedHalves (a : Amount) : Nat :=
  halvesUnits (a.val / Nat.pow 2 128) (a.val % Nat.pow 2 128)

theorem toBinary64_eq_ofUnits (a : Amount) : a.toBinary64 = ofUnits false a.roundedHalves 1 :=
  toBinary64_eq a

theorem rank_toBinary64 (a : Amount) : a.toBinary64.rank = nearestRank a.roundedHalves 1 := by
  have hmagnitude := a.isMagnitude_toBinary64
  rw [toBinary64_eq_ofUnits] at hmagnitude ⊢
  exact rank_ofUnits_of_isMagnitude hmagnitude

/-- An amount of at most 53 significant bits becomes the number that it is. -/
theorem rank_toBinary64_of_units_eq (h : units rank = a.val * unitsPerOne) :
    a.toBinary64.rank = rank := by
  have hshort := isShort_of_units_eq h
  have hsum : a.roundedHalves = a.val * unitsPerOne := by
    have hdiv := Nat.div_add_mod a.val (2 ^ 128)
    calc a.roundedHalves
        = a.val / 2 ^ 128 * unitsPerOne * 2 ^ 128 + a.val % 2 ^ 128 * unitsPerOne := by
          unfold roundedHalves halvesUnits
          rw [Nat.pow_eq, (hshort.div_two_pow 128).units_wholeRank,
            (hshort.mod_two_pow 128).units_wholeRank]
      _ = (2 ^ 128 * (a.val / 2 ^ 128) + a.val % 2 ^ 128) * unitsPerOne := by ring
      _ = a.val * unitsPerOne := by rw [hdiv]
  rw [rank_toBinary64, hsum, ← h, ← Nat.mul_one (units rank), nearestRank_units rank Nat.one_pos]

theorem rank_toBinary64_le_rank (h : a.val ≤ b.val) :
    a.toBinary64.rank ≤ b.toBinary64.rank :=
  (a.isMagnitude_toBinary64.isNonneg.le_iff b.isMagnitude_toBinary64.isNonneg).mp
    (toBinary64_le_toBinary64 h)

/-- A magnitude that is no larger than an amount is no larger than its number. -/
theorem le_rank_toBinary64 (h : units rank ≤ a.val * unitsPerOne) :
    rank ≤ a.toBinary64.rank := by
  rcases Nat.le_total (units rank) (2 * binadeSize * unitsPerOne) with hsmall | hlarge
  · rcases Nat.le_total a.val (2 * binadeSize) with hexact | hmore
    · rw [← units_le_units, units_toBinary64 hexact]
      exact h
    · have hbound : 2 * binadeSize < Nat.pow 2 256 := by decide
      let edge : Amount := ⟨2 * binadeSize, hbound⟩
      have hedge : units edge.toBinary64.rank = 2 * binadeSize * unitsPerOne :=
        units_toBinary64 (Nat.le_refl _)
      have hrank : rank ≤ edge.toBinary64.rank := by
        rw [← units_le_units, hedge]
        exact hsmall
      exact Nat.le_trans hrank (rank_toBinary64_le_rank hmore)
  · obtain ⟨n, hn⟩ := exists_eq_mul_unitsPerOne hlarge
    have hle : n ≤ a.val := by
      rw [hn] at h
      exact Nat.le_of_mul_le_mul_right h unitsPerOne_pos
    let other : Amount := ⟨n, Nat.lt_of_le_of_lt hle a.val_lt⟩
    have hother : other.toBinary64.rank = rank := rank_toBinary64_of_units_eq hn
    rw [← hother]
    exact rank_toBinary64_le_rank hle

/-- A magnitude that is no smaller than an amount is no smaller than its number. -/
theorem rank_toBinary64_le (h : a.val * unitsPerOne ≤ units rank) :
    a.toBinary64.rank ≤ rank := by
  rcases Nat.le_total a.val (2 * binadeSize) with hexact | hmore
  · rw [← units_le_units, units_toBinary64 hexact]
    exact h
  · obtain ⟨n, hn⟩ := exists_eq_mul_unitsPerOne
      (Nat.le_trans (Nat.mul_le_mul_right unitsPerOne hmore) h)
    have hle : a.val ≤ n := by
      rw [hn] at h
      exact Nat.le_of_mul_le_mul_right h unitsPerOne_pos
    rcases Nat.lt_or_ge n (Nat.pow 2 256) with hrange | hbeyond
    · let other : Amount := ⟨n, hrange⟩
      have hother : other.toBinary64.rank = rank := rank_toBinary64_of_units_eq hn
      rw [← hother]
      exact rank_toBinary64_le_rank hle
    · have hlargest : units largest.toBinary64.rank = Nat.pow 2 256 * unitsPerOne := by
        decide +kernel
      have hrank : largest.toBinary64.rank ≤ rank := by
        rw [← units_le_units, hlargest, hn]
        exact Nat.mul_le_mul_right unitsPerOne hbeyond
      exact Nat.le_trans (rank_toBinary64_le_rank a.val_le_largest) hrank

section Values

variable (a) in
theorem signedUnits_toBinary64 : a.toBinary64.signedUnits = units a.toBinary64.rank :=
  a.isMagnitude_toBinary64.signedUnits_eq

theorem cast_val (a : Amount) : (a.val : ℚ) = (a.val * unitsPerOne : Nat) / unitsPerOne := by
  rw [Nat.cast_mul, mul_div_cancel_right₀ _ cast_unitsPerOne_pos.ne']

theorem cast_val_lt_value_iff {x : Binary64} :
    (a.val : ℚ) < x.value ↔ (a.val * unitsPerOne : Nat) < x.signedUnits := by
  rw [cast_val, value_eq, div_lt_div_iff_of_pos_right cast_unitsPerOne_pos, ← Int.cast_natCast,
    Int.cast_lt]

theorem value_lt_cast_val_iff {x : Binary64} :
    x.value < (a.val : ℚ) ↔ x.signedUnits < (a.val * unitsPerOne : Nat) := by
  rw [cast_val, value_eq, div_lt_div_iff_of_pos_right cast_unitsPerOne_pos, ← Int.cast_natCast,
    Int.cast_lt]

theorem value_eq_cast_val_iff {x : Binary64} :
    x.value = (a.val : ℚ) ↔ x.signedUnits = (a.val * unitsPerOne : Nat) := by
  rw [cast_val, value_eq, div_left_inj' cast_unitsPerOne_pos.ne', ← Int.cast_natCast, Int.cast_inj]

/-- A number above an amount is not below the number that the amount becomes. -/
theorem value_toBinary64_le {x : Binary64} (h : (a.val : ℚ) < x.value) :
    a.toBinary64.value ≤ x.value := by
  rw [cast_val_lt_value_iff] at h
  rw [value_le_value_iff, signedUnits_toBinary64]
  rcases signedUnits_nonpos_or_eq x with hsign | hsign
  · omega
  · rw [hsign] at h ⊢
    have hrank := rank_toBinary64_le (Nat.le_of_lt (Int.ofNat_lt.mp h))
    exact Int.ofNat_le.mpr (units_le_units.mpr hrank)

/-- A number below an amount is not above the number that the amount becomes. -/
theorem le_value_toBinary64 {x : Binary64} (h : x.value < (a.val : ℚ)) :
    x.value ≤ a.toBinary64.value := by
  rw [value_lt_cast_val_iff] at h
  rw [value_le_value_iff, signedUnits_toBinary64]
  rcases signedUnits_nonpos_or_eq x with hsign | hsign
  · omega
  · rw [hsign] at h ⊢
    have hrank := le_rank_toBinary64 (Nat.le_of_lt (Int.ofNat_lt.mp h))
    exact Int.ofNat_le.mpr (units_le_units.mpr hrank)

/-- An amount that is a number becomes that number. -/
theorem value_toBinary64_of_eq {x : Binary64} (h : x.value = (a.val : ℚ)) :
    a.toBinary64.value = a.val := by
  rw [value_eq_cast_val_iff] at h ⊢
  obtain ⟨rank, hrank⟩ : ∃ rank, units rank = a.val * unitsPerOne := by
    rcases signedUnits_nonpos_or_eq x with hsign | hsign
    · refine ⟨0, ?_⟩
      rw [units_zero]
      omega
    · exact ⟨x.rank, by omega⟩
  rw [signedUnits_toBinary64, rank_toBinary64_of_units_eq hrank, hrank]

theorem value_toBinary64_of_le (h : a.val ≤ 2 * binadeSize) : a.toBinary64.value = a.val := by
  rw [value_eq_cast_val_iff, signedUnits_toBinary64, units_toBinary64 h]

theorem value_toBinary64_eq_zero_iff : a.toBinary64.value = 0 ↔ a = zero := by
  rw [value_eq, div_eq_zero_iff, or_iff_left cast_unitsPerOne_pos.ne', Int.cast_eq_zero,
    signedUnits_toBinary64]
  constructor
  · intro hunits
    by_contra hne
    have hval : 0 < a.val := by
      apply Nat.pos_of_ne_zero
      intro hzero
      exact hne (Amount.ext hzero)
    have hpos := units_pos (rank_toBinary64_pos hval)
    omega
  · rintro rfl
    rw [units_toBinary64 (Nat.zero_le _), val_zero, Nat.zero_mul, Nat.cast_zero]

end Values

section Conversion

/-- A half of an amount is rounded to the nearest number. -/
theorem isNearestEven_ofNat {n : Nat} (h : n ≤ 2 ^ 128) : IsNearestEven n (ofNat n) := by
  have hnearest := isNearestEven_ofUnits (isMagnitude_ofNat h)
  rwa [Nat.cast_mul, mul_div_cancel_right₀ _ cast_unitsPerOne_pos.ne'] at hnearest

theorem value_ofNat {n : Nat} (h : n ≤ 2 ^ 128) :
    (ofNat n).value = units (wholeRank n) / unitsPerOne := by
  rw [value_eq, (isMagnitude_ofNat h).signedUnits_eq, rank_ofNat h, Int.cast_natCast]

theorem val_div_le (a : Amount) : a.val / Nat.pow 2 128 ≤ 2 ^ 128 :=
  Nat.le_of_lt (Nat.div_lt_of_lt_mul a.val_lt)

theorem val_mod_le (a : Amount) : a.val % Nat.pow 2 128 ≤ 2 ^ 128 :=
  Nat.le_of_lt (Nat.mod_lt _ (Nat.two_pow_pos 128))

/-- The exact sum of the rounded halves, the upper one by its weight. -/
def halvesSum (a : Amount) : ℚ :=
  (ofNat (a.val / Nat.pow 2 128)).value * Nat.pow 2 128 + (ofNat (a.val % Nat.pow 2 128)).value

theorem halvesSum_eq (a : Amount) : a.halvesSum = a.roundedHalves / unitsPerOne := by
  unfold halvesSum roundedHalves halvesUnits
  rw [value_ofNat a.val_div_le, value_ofNat a.val_mod_le, Nat.pow_eq, Nat.cast_add, Nat.cast_mul]
  ring

/-- The sum of the rounded halves is rounded to the nearest number. -/
theorem isNearestEven_toBinary64 (a : Amount) : IsNearestEven a.halvesSum a.toBinary64 := by
  have hmagnitude := a.isMagnitude_toBinary64
  rw [toBinary64_eq_ofUnits] at hmagnitude ⊢
  rw [halvesSum_eq]
  exact isNearestEven_ofUnits hmagnitude

/-- An amount becomes a number by three roundings to the nearest even number: of its two halves and
of their weighted sum. A larger amount never becomes a smaller number, the number is finite and not
negative, and only zero becomes zero. No number has a value strictly between an amount and the
number that it becomes, so that an amount that is a number becomes itself, which all amounts below
`2 ^ 53` do. -/
theorem toBinary64_faithful (a : Amount) :
    IsNearestEven (a.val / Nat.pow 2 128 : Nat) (ofNat (a.val / Nat.pow 2 128)) ∧
    IsNearestEven (a.val % Nat.pow 2 128 : Nat) (ofNat (a.val % Nat.pow 2 128)) ∧
    IsNearestEven a.halvesSum a.toBinary64 ∧
    (∀ b, a ≤ b → a.toBinary64 ≤ b.toBinary64 ∧ a.toBinary64.value ≤ b.toBinary64.value) ∧
    a.toBinary64.isFinite = true ∧
    0 ≤ a.toBinary64.value ∧
    (a.toBinary64.value = 0 ↔ a = zero) ∧
    (∀ x : Binary64, x.isFinite = true →
      ¬ (a.val < x.value ∧ x.value < a.toBinary64.value) ∧
      ¬ (a.toBinary64.value < x.value ∧ x.value < a.val) ∧
      (x.value = a.val → a.toBinary64.value = a.val)) ∧
    (a.val < Nat.pow 2 53 → a.toBinary64.value = a.val) := by
  refine ⟨isNearestEven_ofNat a.val_div_le, isNearestEven_ofNat a.val_mod_le,
    a.isNearestEven_toBinary64, ?_, a.isMagnitude_toBinary64.isFinite, ?_,
    value_toBinary64_eq_zero_iff, ?_, ?_⟩
  · intro b hle
    refine ⟨toBinary64_le_toBinary64 hle, ?_⟩
    rw [value_le_value_iff, signedUnits_toBinary64, signedUnits_toBinary64]
    exact Int.ofNat_le.mpr (units_le_units.mpr (rank_toBinary64_le_rank hle))
  · rw [value_eq, signedUnits_toBinary64, Int.cast_natCast]
    exact div_nonneg (Nat.cast_nonneg _) cast_unitsPerOne_pos.le
  · intro x _
    refine ⟨?_, ?_, value_toBinary64_of_eq⟩
    · rintro ⟨habove, hbelow⟩
      exact absurd hbelow (not_lt.mpr (value_toBinary64_le habove))
    · rintro ⟨habove, hbelow⟩
      exact absurd habove (not_lt.mpr (le_value_toBinary64 hbelow))
  · intro h
    exact value_toBinary64_of_le (Nat.le_of_lt h)

/-- An amount whose upper half is at a tie and is rounded down, and whose lower half is rounded up
to `2 ^ 128`, which makes the sum a tie again. -/
def tiedTwice : Amount := ⟨(Nat.pow 2 53 + 2) * Nat.pow 2 128 - 1, by decide⟩

def afterTies : Amount := ⟨(Nat.pow 2 53 + 2) * Nat.pow 2 128, by decide⟩

/-- The number `2 ^ 181 + 2 ^ 129`. -/
def afterTiesNumber : Binary64 := ⟨false, 1204 * binadeSize + 1, by decide⟩

theorem tiedTwice_faithful :
    (tiedTwice ≤ afterTies ∧ tiedTwice.toBinary64 ≤ afterTies.toBinary64) ∧
    (afterTiesNumber.isFinite = true ∧
      ¬ (tiedTwice.val < afterTiesNumber.value ∧
        afterTiesNumber.value < tiedTwice.toBinary64.value)) ∧
    (afterTiesNumber.value = afterTies.val ∧ afterTies.toBinary64.value = afterTies.val) ∧
    (one.val < Nat.pow 2 53 ∧ one.toBinary64.value = one.val) := by
  have horder : tiedTwice ≤ afterTies := by decide
  have hfinite : afterTiesNumber.isFinite = true := by decide
  have hunits : afterTiesNumber.signedUnits = (afterTies.val * unitsPerOne : Nat) := by
    decide +kernel
  have hvalue : afterTiesNumber.value = afterTies.val := value_eq_cast_val_iff.mpr hunits
  have hone : one.val < Nat.pow 2 53 := by decide
  obtain ⟨_, _, _, hmonotone, _, _, _, hbetween, _⟩ := toBinary64_faithful tiedTwice
  obtain ⟨_, _, _, _, _, _, _, hexact, _⟩ := toBinary64_faithful afterTies
  obtain ⟨_, _, _, _, _, _, _, _, hsmall⟩ := toBinary64_faithful one
  exact ⟨⟨horder, (hmonotone afterTies horder).1⟩,
    ⟨hfinite, (hbetween afterTiesNumber hfinite).1⟩,
    ⟨hvalue, (hexact afterTiesNumber hfinite).2.2 hvalue⟩, hone, hsmall hone⟩

end Conversion

end FeeWindow.Amount
