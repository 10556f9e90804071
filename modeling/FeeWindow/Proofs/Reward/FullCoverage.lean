import FeeWindow.Proofs.Binary64.Precision
import FeeWindow.Proofs.Reward.LeastFee

/-!
Blocks whose receipts have all of the block's gas. Their percentage is a rounded product over a
number, rounded again, and can come out as the number before 100. So all percentiles but 100 are
answered; 100 is answered as well if the product is exact, as it is for every gas up to
`2 ^ 53 / 25`, or if the receipts have more gas than rounding hides.
-/

namespace FeeWindow

open Binary64

section Quotient

variable {one before divisor product : Nat}

/-- The midpoint between the number before a hundred and a hundred, as a bound on a product over a
divisor. -/
theorem midpoint_le_iff (hone : 0 < one) (hbefore : 2 ^ 46 * before + one = 2 ^ 46 * (100 * one)) :
    divisor * (before + 100 * one) ≤ 2 * (product * one) ↔
      2 ^ 47 * (100 * divisor) ≤ 2 ^ 47 * product + divisor := by
  have hleft : 2 ^ 47 * (divisor * (before + 100 * one)) + 2 * one * divisor =
      2 * one * (2 ^ 47 * (100 * divisor)) := by
    calc 2 ^ 47 * (divisor * (before + 100 * one)) + 2 * one * divisor
        = 2 * divisor * (2 ^ 46 * before + one) + 2 * divisor * (2 ^ 46 * (100 * one)) := by ring
      _ = 2 * one * (2 ^ 47 * (100 * divisor)) := by
          rw [hbefore]
          ring
  have hright : 2 ^ 47 * (2 * (product * one)) + 2 * one * divisor =
      2 * one * (2 ^ 47 * product + divisor) := by ring
  have hscaled : 2 ^ 47 * (100 * divisor) ≤ 2 ^ 47 * product + divisor ↔
      2 * one * (2 ^ 47 * (100 * divisor)) ≤ 2 * one * (2 ^ 47 * product + divisor) :=
    (Nat.mul_le_mul_left_iff (Nat.mul_pos Nat.two_pos hone)).symm
  rw [hscaled, ← hleft, ← hright]
  omega

/-- A product that loses at most one part in `2 ^ 53` of a hundred times the divisor is no less
than the divisor times the number before a hundred. -/
theorem before_mul_le (hbefore : 2 ^ 46 * before + one = 2 ^ 46 * (100 * one))
    (hloss : 2 * binadeSize * (100 * divisor) ≤ 2 * binadeSize * product + 100 * divisor) :
    before * divisor ≤ product * one := by
  have hsize : binadeSize = 2 ^ 52 := rfl
  rw [hsize] at hloss
  have hproduct : (100 * 2 ^ 46 - 1) * divisor ≤ 2 ^ 46 * product := by omega
  have hshare : 2 ^ 46 * before = (100 * 2 ^ 46 - 1) * one := by omega
  apply Nat.le_of_mul_le_mul_left _ (Nat.two_pow_pos 46)
  calc 2 ^ 46 * (before * divisor) = one * ((100 * 2 ^ 46 - 1) * divisor) := by
        rw [← Nat.mul_assoc, hshare]
        ring
    _ ≤ one * (2 ^ 46 * product) := Nat.mul_le_mul_left _ hproduct
    _ = 2 ^ 46 * (product * one) := by ring

end Quotient

section Percentage

variable {gas blockGas : Gas} {p : Binary64}

/-- The rank of a hundred is even, and the number before it is `2 ^ (-46)` less. -/
theorem exists_rank_hundred_eq : ∃ rank, hundred.rank = rank + 1 ∧ (rank + 1) % 2 = 0 ∧
    units (rank + 1) = 100 * unitsPerOne ∧
    2 ^ 46 * units rank + unitsPerOne = 2 ^ 46 * (100 * unitsPerOne) := by
  refine ⟨hundred.rank - 1, ?_⟩
  decide +kernel

/-- A hundred times an amount is rounded once. -/
theorem rank_hundred_mul (gas : Gas) :
    (hundred * gas.toBinary64).rank = nearestRank (100 * units gas.toBinary64.rank) 1 := by
  obtain ⟨rank, hrank, _, hunits, _⟩ := exists_rank_hundred_eq
  have hmagnitude := isMagnitude_hundred_mul gas
  have hproduct : units hundred.rank * units gas.toBinary64.rank =
      100 * units gas.toBinary64.rank * unitsPerOne := by
    rw [hrank, hunits]
    ring
  have hscaled : nearestRank (100 * units gas.toBinary64.rank * unitsPerOne) (1 * unitsPerOne) =
      nearestRank (100 * units gas.toBinary64.rank) 1 :=
    nearestRank_mul_right Nat.one_pos unitsPerOne_pos
  rw [Nat.one_mul] at hscaled
  rw [isMagnitude_hundred.mul_eq gas.isMagnitude_toBinary64, hproduct] at hmagnitude ⊢
  rw [rank_ofUnits_of_isMagnitude hmagnitude, hscaled]

theorem mul_le_mul_units_hundred_mul (gas : Gas) :
    2 * binadeSize * (100 * units gas.toBinary64.rank) ≤
      2 * binadeSize * units (hundred * gas.toBinary64).rank +
        100 * units gas.toBinary64.rank := by
  rw [rank_hundred_mul]
  exact mul_le_mul_units_nearestRank _

theorem gasPercentage_eq (hgas : 0 < blockGas.val) : gasPercentage gas blockGas =
    ofUnits false (units (hundred * gas.toBinary64).rank * unitsPerOne)
      (units blockGas.toBinary64.rank) :=
  (isMagnitude_hundred_mul gas).div_eq blockGas.isMagnitude_toBinary64
    (Amount.rank_toBinary64_pos hgas)

theorem isNonneg_gasPercentage (hgas : 0 < blockGas.val) :
    (gasPercentage gas blockGas).IsNonneg := by
  rw [gasPercentage_eq hgas]
  exact isNonneg_ofUnits

/-- Up to a hundred, a percentage compares as its quotient does, which can be infinite. -/
theorem le_rank_gasPercentage_iff (hgas : 0 < blockGas.val) {rank : Nat}
    (hrank : rank ≤ hundred.rank) :
    rank ≤ (gasPercentage gas blockGas).rank ↔
      rank ≤ nearestRank (units (hundred * gas.toBinary64).rank * unitsPerOne)
        (units blockGas.toBinary64.rank) := by
  have hfinite : rank ≤ infinityRank :=
    Nat.le_trans hrank (Nat.le_of_lt isMagnitude_hundred.finite)
  rw [gasPercentage_eq hgas]
  exact Nat.le_min.trans (and_iff_left hfinite)

/-- Whether a hundred times an amount of gas, rounded, is short of a hundred times a block's gas by
at most one part in `2 ^ 47`, which rounding the quotient makes up for. -/
def RoundsToHundred (gas blockGas : Gas) : Prop :=
  2 ^ 47 * (100 * units blockGas.toBinary64.rank) ≤
    2 ^ 47 * units (hundred * gas.toBinary64).rank + units blockGas.toBinary64.rank

theorem hundred_le_gasPercentage_iff (hgas : 0 < blockGas.val) :
    hundred ≤ gasPercentage gas blockGas ↔ RoundsToHundred gas blockGas := by
  have hunits := units_pos (Amount.rank_toBinary64_pos hgas)
  obtain ⟨rank, hrank, heven, hhundred, hbefore⟩ := exists_rank_hundred_eq
  rw [isMagnitude_hundred.isNonneg.le_iff (isNonneg_gasPercentage hgas),
    le_rank_gasPercentage_iff hgas (Nat.le_refl _), hrank, succ_le_nearestRank_iff hunits heven,
    hhundred]
  exact midpoint_le_iff unitsPerOne_pos hbefore

theorem units_hundred_mul_le (h : blockGas.val ≤ gas.val) :
    units (hundred * blockGas.toBinary64).rank ≤ units (hundred * gas.toBinary64).rank :=
  (isMagnitude_hundred_mul blockGas).units_le (isMagnitude_hundred_mul gas)
    (mul_le_mul_left isMagnitude_hundred blockGas.isMagnitude_toBinary64
      gas.isMagnitude_toBinary64 (Amount.toBinary64_le_toBinary64 h))

/-- The percentage of at least a block's gas is no less than any number before a hundred. -/
theorem le_rank_gasPercentage (hgas : 0 < blockGas.val) (hcovered : blockGas.val ≤ gas.val)
    {rank : Nat} (h : rank < hundred.rank) : rank ≤ (gasPercentage gas blockGas).rank := by
  obtain ⟨before, hrank, _, _, hbefore⟩ := exists_rank_hundred_eq
  rw [hrank] at h
  have hle : rank ≤ before := Nat.le_of_lt_succ h
  have hhundred : rank ≤ hundred.rank := by
    rw [hrank]
    exact Nat.le_succ_of_le hle
  rw [le_rank_gasPercentage_iff hgas hhundred]
  apply le_nearestRank_of_units_le (units_pos (Amount.rank_toBinary64_pos hgas))
  calc units rank * units blockGas.toBinary64.rank
      ≤ units before * units blockGas.toBinary64.rank :=
        Nat.mul_le_mul_right _ (units_le_units.mpr hle)
    _ ≤ units (hundred * blockGas.toBinary64).rank * unitsPerOne :=
        before_mul_le hbefore (mul_le_mul_units_hundred_mul blockGas)
    _ ≤ units (hundred * gas.toBinary64).rank * unitsPerOne :=
        Nat.mul_le_mul_right _ (units_hundred_mul_le hcovered)

/-- At least a block's gas covers every percentile but a hundred. -/
theorem le_gasPercentage_of_ne_hundred (hgas : 0 < blockGas.val)
    (hcovered : blockGas.val ≤ gas.val) (hp : p.IsPercentage) (hne : p ≠ hundred) :
    p ≤ gasPercentage gas blockGas := by
  obtain ⟨hfinite, _, hhigh⟩ := hp
  have hshare : (gasPercentage gas blockGas).IsNonneg := isNonneg_gasPercentage hgas
  rw [← signedUnits_hundred, signedUnits_le_iff] at hhigh
  apply (le_iff_signedUnits (isNaN_eq_false_of_isFinite hfinite) hshare.isNaN_eq_false).mpr
  rw [signedUnits_le_iff]
  unfold place at hhigh ⊢
  rw [isMagnitude_hundred.sign, if_neg Bool.false_ne_true] at hhigh
  rw [hshare.sign, if_neg Bool.false_ne_true]
  cases hsign : p.negative with
  | true =>
      rw [if_pos rfl]
      exact Int.le_trans (Int.neg_nonpos_of_nonneg (Int.natCast_nonneg _)) (Int.natCast_nonneg _)
  | false =>
      have hrank : p.rank ≠ hundred.rank := fun heq => hne (Binary64.ext hsign heq)
      rw [hsign, if_neg Bool.false_ne_true, Int.ofNat_le] at hhigh
      rw [if_neg Bool.false_ne_true, Int.ofNat_le]
      exact le_rank_gasPercentage hgas hcovered (Nat.lt_of_le_of_ne hhigh hrank)

/-- Where a hundred times the block's gas has at most 53 bits but for zeros, the product is exact. -/
theorem roundsToHundred_of_le (h : 25 * blockGas.val ≤ 2 * binadeSize) :
    RoundsToHundred blockGas blockGas := by
  obtain ⟨e, he⟩ := exists_unitsPerOne_eq
  obtain ⟨rank, hrank⟩ := exists_units_eq (e := 2 + e) h
  have hunits : units blockGas.toBinary64.rank = blockGas.val * unitsPerOne :=
    Amount.units_toBinary64 (by omega)
  have hproduct : 100 * units blockGas.toBinary64.rank = units rank * 1 := by
    rw [hunits, hrank, Nat.pow_add, ← he]
    ring
  have hexact : units (hundred * blockGas.toBinary64).rank =
      100 * units blockGas.toBinary64.rank := by
    rw [rank_hundred_mul, hproduct, nearestRank_units rank Nat.one_pos, Nat.mul_one]
  unfold RoundsToHundred
  rw [hexact]
  exact Nat.le_add_right _ _

/-- More gas than the block's, as numbers, makes up for what the product can lose. -/
theorem roundsToHundred_of_ne (hcovered : blockGas.val ≤ gas.val)
    (hne : blockGas.toBinary64 ≠ gas.toBinary64) : RoundsToHundred gas blockGas := by
  have hmagnitude := blockGas.isMagnitude_toBinary64
  have hother := gas.isMagnitude_toBinary64
  have hle := (hmagnitude.isNonneg.le_iff hother.isNonneg).mp
    (Amount.toBinary64_le_toBinary64 hcovered)
  have hrank : blockGas.toBinary64.rank ≠ gas.toBinary64.rank :=
    fun heq => hne (Binary64.ext (hmagnitude.sign.trans hother.sign.symm) heq)
  have hgap := units_gap (Nat.lt_of_le_of_ne hle hrank)
  have hloss := mul_le_mul_units_hundred_mul gas
  have hsize : binadeSize = 2 ^ 52 := rfl
  unfold RoundsToHundred
  generalize units blockGas.toBinary64.rank = divisor at hgap ⊢
  generalize units gas.toBinary64.rank = dividend at hgap hloss
  generalize units (hundred * gas.toBinary64).rank = product at hloss ⊢
  rw [hsize] at hgap hloss
  omega

end Percentage

namespace Block

variable {block : Block} {receiptGas : Hash → Option Gas} {percentiles : List Binary64}

/-- Whether a block has one reward for each percentile. -/
def AnswersAll (block : Block) (receiptGas : Hash → Option Gas) (percentiles : List Binary64) :
    Prop :=
  ∃ fees, (block.rewards percentiles receiptGas).result = .ok fees ∧
    fees.length = percentiles.length

theorem answersAll_iff (hne : block.transactions ≠ [])
    (hreceipts : ∀ transaction ∈ block.transactions, (receiptGas transaction.hash).isSome = true)
    (hascending : percentiles.Pairwise (· ≤ ·)) :
    block.AnswersAll receiptGas percentiles ↔
      ∀ p ∈ percentiles, Reaches receiptGas block.header.gasUsed block.transactions p := by
  unfold AnswersAll
  simp only [result_rewards hne hreceipts hascending, Except.ok.injEq, exists_eq_left',
    List.filterMap_length_eq_length, isSome_answer?_iff_reaches hne]

/-- Where the receipts have at least the block's gas, only a hundred can be left unanswered. -/
theorem answersAll_iff_of_covered (hne : block.transactions ≠ [])
    (hreceipts : ∀ transaction ∈ block.transactions, (receiptGas transaction.hash).isSome = true)
    (hascending : percentiles.Pairwise (· ≤ ·)) (hrange : ∀ p ∈ percentiles, p.IsPercentage)
    (hgas : 0 < block.header.gasUsed.val)
    (hcovered : block.header.gasUsed ≤ totalGas receiptGas block.transactions) :
    block.AnswersAll receiptGas percentiles ↔ hundred ∉ percentiles ∨
      RoundsToHundred (totalGas receiptGas block.transactions) block.header.gasUsed := by
  rw [answersAll_iff hne hreceipts hascending, ← hundred_le_gasPercentage_iff hgas]
  constructor
  · intro h
    by_cases hmem : hundred ∈ percentiles
    · exact .inr (h hundred hmem)
    · exact .inl hmem
  · intro h p hp
    by_cases hp100 : p = hundred
    · subst hp100
      exact h.resolve_left (not_not_intro hp)
    · exact le_gasPercentage_of_ne_hundred hgas hcovered (hrange p hp) hp100

/-- A block of one transaction, which used all the gas of the block. -/
def single (gas : UInt64) : Block :=
  ⟨⟨.ofUInt64 3, some (.ofUInt64 8), .ofUInt64 gas, .ofUInt64 gas, (Amount.ofUInt64 3).toBytes⟩,
    [spelled gas 10]⟩

/-- A gas that is too little for itself: a hundred times it is the midpoint of two numbers and
rounded down, and the quotient is the number before a hundred. -/
theorem single_loses_hundred :
    (single 360287970189641).transactions ≠ [] ∧
    (∀ transaction ∈ (single 360287970189641).transactions,
      (spelledGas transaction.hash).isSome = true) ∧
    [hundred].Pairwise (· ≤ ·) ∧ (∀ p ∈ [hundred], p.IsPercentage) ∧
    0 < (single 360287970189641).header.gasUsed.val ∧
    (single 360287970189641).header.gasUsed ≤
      totalGas spelledGas (single 360287970189641).transactions ∧
    ¬ (single 360287970189641).AnswersAll spelledGas [hundred] := by
  have hne : (single 360287970189641).transactions ≠ [] := List.cons_ne_nil _ _
  have hreceipts (transaction : Transaction)
      (_ : transaction ∈ (single 360287970189641).transactions) :
      (spelledGas transaction.hash).isSome = true := rfl
  have hascending : [hundred].Pairwise (· ≤ ·) := List.pairwise_singleton _ _
  have hmissed : ¬ Reaches spelledGas (single 360287970189641).header.gasUsed
      (single 360287970189641).transactions hundred := by
    decide +kernel
  refine ⟨hne, hreceipts, hascending, by decide +kernel, by decide +kernel, by decide +kernel, ?_⟩
  rw [answersAll_iff hne hreceipts hascending]
  intro h
  exact hmissed (h hundred (List.mem_singleton_self _))

/-- A block whose receipts have at least its gas, where that is not zero, answers every percentile
but a hundred. It answers a hundred as well, and so has one reward for each percentile, exactly if
the rounded product of a hundred and the gas is not short of it by more than one part in `2 ^ 47`.
That is so for every gas up to `2 ^ 53 / 25`, and where the gas of the receipts is another number
than the gas of the block after rounding. -/
theorem rewards_fully_covered (hne : block.transactions ≠ [])
    (hreceipts : ∀ transaction ∈ block.transactions, (receiptGas transaction.hash).isSome = true)
    (hascending : percentiles.Pairwise (· ≤ ·)) (hrange : ∀ p ∈ percentiles, p.IsPercentage)
    (hgas : 0 < block.header.gasUsed.val)
    (hcovered : block.header.gasUsed ≤ totalGas receiptGas block.transactions) :
    (∃ fees, (block.rewards percentiles receiptGas).result = .ok fees ∧
      fees.length ≤ percentiles.length ∧
      ∀ i p, percentiles[i]? = some p → p ≠ hundred → i < fees.length) ∧
    (block.AnswersAll receiptGas percentiles ↔
      hundred ∉ percentiles ∨
        RoundsToHundred (totalGas receiptGas block.transactions) block.header.gasUsed) ∧
    (25 * block.header.gasUsed.val ≤ 2 * binadeSize →
      block.AnswersAll receiptGas percentiles) ∧
    (block.header.gasUsed.toBinary64 ≠ (totalGas receiptGas block.transactions).toBinary64 →
      block.AnswersAll receiptGas percentiles) := by
  have hall := answersAll_iff_of_covered hne hreceipts hascending hrange hgas hcovered
  refine ⟨⟨_, result_rewards hne hreceipts hascending, List.length_filterMap_le _ _, ?_⟩, hall,
    ?_, ?_⟩
  · intro i p hp hp100
    have hpercentage := hrange p (List.mem_of_getElem? hp)
    rw [lt_length_answers_iff hascending hp, isSome_answer?_iff_reaches hne]
    exact le_gasPercentage_of_ne_hundred hgas hcovered hpercentage hp100
  · intro hsmall
    rw [hall, ← hundred_le_gasPercentage_iff hgas]
    right
    exact le_gasPercentage_of_le
      ((hundred_le_gasPercentage_iff hgas).mpr (roundsToHundred_of_le hsmall)) hcovered
  · intro hother
    rw [hall]
    exact .inr (roundsToHundred_of_ne hcovered hother)

/-- The largest gas that 25 times does not exceed `2 ^ 53` is enough for itself. -/
theorem single_answers_hundred :
    0 < (single 360287970189639).header.gasUsed.val ∧
    (single 360287970189639).header.gasUsed ≤
      totalGas spelledGas (single 360287970189639).transactions ∧
    25 * (single 360287970189639).header.gasUsed.val ≤ 2 * binadeSize ∧
    (single 360287970189639).AnswersAll spelledGas [.ofNat 50, hundred] := by
  have hgas : 0 < (single 360287970189639).header.gasUsed.val := by decide
  have hcovered : (single 360287970189639).header.gasUsed ≤
      totalGas spelledGas (single 360287970189639).transactions := by decide +kernel
  have hsmall : 25 * (single 360287970189639).header.gasUsed.val ≤ 2 * binadeSize := by decide
  obtain ⟨_, _, hexact, _⟩ := rewards_fully_covered
    (List.cons_ne_nil _ _ : (single 360287970189639).transactions ≠ [])
    (fun _ _ => (rfl : (spelledGas _).isSome = true))
    (by decide +kernel : [Binary64.ofNat 50, hundred].Pairwise (· ≤ ·))
    (by decide +kernel) hgas hcovered
  exact ⟨hgas, hcovered, hsmall, hexact hsmall⟩

end Block

end FeeWindow
