import FeeWindow.Amount.Bytes
import FeeWindow.Proofs.Reward.Coverage
import FeeWindow.Proofs.Reward.Receipts

/-!
The walk along a ranking against each percentile by itself. One position in the ascending
percentiles serves all of them, and still every percentile is answered with the fee of the first
transaction up to which the ranking covers it: what a later percentile needs to be covered, an
earlier one has.
-/

namespace FeeWindow

section Crossing

variable {receiptGas : Hash → Option Gas} {blockGas : Gas} {p q : Binary64}
  {before : List Transaction} {ranking : List RankedTransaction} {fee : GasPrice}

/-- The fee of the first transaction up to which a ranking covers a percentile, after the
transactions that stand before it. -/
def crossing? (receiptGas : Hash → Option Gas) (blockGas : Gas) :
    List Transaction → List RankedTransaction → Binary64 → Option GasPrice
  | _, [], _ => none
  | before, ranked :: rest, p =>
      if Reaches receiptGas blockGas (before ++ [ranked.transaction]) p then some ranked.fee
      else crossing? receiptGas blockGas (before ++ [ranked.transaction]) rest p

/-- The transactions of a ranking up to a place, that place included. -/
def upToPlace (ranking : List RankedTransaction) (k : Nat) : List Transaction :=
  (ranking.take (k + 1)).map RankedTransaction.transaction

/-- Moving the head of a ranking to what stands before it moves all places down by one. -/
theorem append_upToPlace_cons_succ (before : List Transaction) (ranked : RankedTransaction)
    (rest : List RankedTransaction) (k : Nat) :
    before ++ upToPlace (ranked :: rest) (k + 1) =
      before ++ [ranked.transaction] ++ upToPlace rest k :=
  List.append_cons _ _ _

theorem crossing?_eq_some_iff :
    crossing? receiptGas blockGas before ranking p = some fee ↔
      ∃ k ranked, ranking[k]? = some ranked ∧ ranked.fee = fee ∧
        Reaches receiptGas blockGas (before ++ upToPlace ranking k) p ∧
        ∀ j < k, ¬ Reaches receiptGas blockGas (before ++ upToPlace ranking j) p := by
  induction ranking generalizing before with
  | nil => simp [crossing?]
  | cons ranked rest ih =>
      unfold crossing?
      split
      · next hreached =>
          constructor
          · intro h
            obtain rfl := Option.some.inj h
            refine ⟨0, ranked, rfl, rfl, hreached, ?_⟩
            intro j hj
            exact absurd hj (Nat.not_lt_zero j)
          · rintro ⟨k, other, hother, rfl, _, hfirst⟩
            cases k with
            | zero =>
                obtain rfl := Option.some.inj hother
                rfl
            | succ k => exact absurd hreached (hfirst 0 (Nat.succ_pos k))
      · next hopen =>
          rw [ih]
          constructor
          · rintro ⟨k, other, hother, rfl, hreached, hfirst⟩
            refine ⟨k + 1, other, hother, rfl, ?_, ?_⟩
            · rw [append_upToPlace_cons_succ]
              exact hreached
            · intro j hj
              cases j with
              | zero => exact hopen
              | succ j =>
                  rw [append_upToPlace_cons_succ]
                  exact hfirst j (Nat.lt_of_succ_lt_succ hj)
          · rintro ⟨k, other, hother, rfl, hreached, hfirst⟩
            cases k with
            | zero => exact absurd hreached hopen
            | succ k =>
                rw [append_upToPlace_cons_succ] at hreached
                refine ⟨k, other, hother, rfl, hreached, ?_⟩
                intro j hj
                rw [← append_upToPlace_cons_succ]
                exact hfirst (j + 1) (Nat.succ_lt_succ hj)

/-- A percentile is answered if some place of the ranking covers it. -/
theorem isSome_crossing?_iff :
    (crossing? receiptGas blockGas before ranking p).isSome = true ↔
      ∃ k < ranking.length, Reaches receiptGas blockGas (before ++ upToPlace ranking k) p := by
  constructor
  · intro h
    obtain ⟨fee, hfee⟩ := Option.isSome_iff_exists.mp h
    obtain ⟨k, ranked, hplace, _, hreached, _⟩ := crossing?_eq_some_iff.mp hfee
    exact ⟨k, (List.getElem?_eq_some_iff.mp hplace).1, hreached⟩
  · intro h
    obtain ⟨hplace, hreached⟩ := Nat.find_spec h
    have hfirst (j : Nat) (hj : j < Nat.find h) :
        ¬ Reaches receiptGas blockGas (before ++ upToPlace ranking j) p :=
      fun hj' => Nat.find_min h hj ⟨Nat.lt_trans hj hplace, hj'⟩
    rw [Option.isSome_iff_exists]
    exact ⟨_, crossing?_eq_some_iff.mpr
      ⟨Nat.find h, _, List.getElem?_eq_getElem hplace, rfl, hreached, hfirst⟩⟩

/-- Where a percentile is answered, so is every smaller one. -/
theorem isSome_crossing?_of_le (h : p ≤ q)
    (hq : (crossing? receiptGas blockGas before ranking q).isSome = true) :
    (crossing? receiptGas blockGas before ranking p).isSome = true := by
  obtain ⟨k, hk, hreached⟩ := isSome_crossing?_iff.mp hq
  exact isSome_crossing?_iff.mpr ⟨k, hk, hreached.of_le h⟩

/-- Along ascending fees, a larger percentile has no lower answer. -/
theorem crossing?_mono {other : GasPrice}
    (hfees : ranking.Pairwise fun a b => a.fee.val ≤ b.fee.val) (h : p ≤ q)
    (hp : crossing? receiptGas blockGas before ranking p = some fee)
    (hq : crossing? receiptGas blockGas before ranking q = some other) :
    fee.val ≤ other.val := by
  obtain ⟨k, ranked, hranked, rfl, _, hfirst⟩ := crossing?_eq_some_iff.mp hp
  obtain ⟨l, later, hlater, rfl, hreached, _⟩ := crossing?_eq_some_iff.mp hq
  obtain ⟨hk, rfl⟩ := List.getElem?_eq_some_iff.mp hranked
  obtain ⟨hl, rfl⟩ := List.getElem?_eq_some_iff.mp hlater
  have hle : k ≤ l := by
    by_contra hlt
    exact hfirst l (Nat.lt_of_not_le hlt) (hreached.of_le h)
  rcases Nat.lt_or_eq_of_le hle with hlt | rfl
  · exact List.pairwise_iff_getElem.mp hfees k l hk hl hlt
  · exact Nat.le_refl _

end Crossing

section Walk

variable {header : BlockHeader} {receiptGas : Hash → Option Gas} {blockGas : Gas}
  {before : List Transaction} {ranking : List RankedTransaction} {percentiles : List Binary64}

/-- At one transaction, those percentiles are answered that stand before the first open one. In an
ascending list these are all that the gas covered so far reaches. -/
theorem filterMap_crossing?_cons {ranked : RankedTransaction} {rest : List RankedTransaction}
    {reached : Binary64 → Bool}
    (hiff : ∀ p, reached p = true ↔
      Reaches receiptGas blockGas (before ++ [ranked.transaction]) p)
    (hascending : percentiles.Pairwise (· ≤ ·)) :
    percentiles.filterMap (crossing? receiptGas blockGas before (ranked :: rest)) =
      List.replicate (percentiles.takeWhile reached).length ranked.fee ++
        (percentiles.drop (percentiles.takeWhile reached).length).filterMap
          (crossing? receiptGas blockGas (before ++ [ranked.transaction]) rest) := by
  induction percentiles with
  | nil => rfl
  | cons p percentiles ih =>
      obtain ⟨hfirst, hrest⟩ := List.pairwise_cons.mp hascending
      by_cases hreached : reached p = true
      · have hcrossing :
            crossing? receiptGas blockGas before (ranked :: rest) p = some ranked.fee :=
          if_pos ((hiff p).mp hreached)
        rw [List.takeWhile_cons_of_pos hreached, List.filterMap_cons_some hcrossing, ih hrest]
        rfl
      · rw [List.takeWhile_cons_of_neg hreached]
        apply List.filterMap_congr
        intro q hq
        apply if_neg
        intro hqreached
        -- A later percentile that is covered would have the open one covered.
        apply hreached
        rw [hiff]
        rcases List.mem_cons.mp hq with rfl | hq
        · exact hqreached
        · exact hqreached.of_le (hfirst q hq)

/-- The walk answers each percentile with its own first crossing. -/
theorem result_rewardWalk
    (hreceipts : ∀ ranked ∈ ranking, (receiptGas ranked.transaction.hash).isSome = true)
    (hascending : percentiles.Pairwise (· ≤ ·)) :
    (rewardWalk header receiptGas ranking (totalGas receiptGas before) percentiles).result =
      .ok (percentiles.filterMap (crossing? receiptGas header.gasUsed before ranking)) := by
  induction ranking generalizing before percentiles with
  | nil => simp [rewardWalk, crossing?]
  | cons ranked rest ih =>
      obtain ⟨gas, hgas⟩ := Option.isSome_iff_exists.mp (hreceipts ranked List.mem_cons_self)
      have hrest (other : RankedTransaction) (hother : other ∈ rest) :
          (receiptGas other.transaction.hash).isSome = true :=
        hreceipts other (List.mem_cons_of_mem ranked hother)
      simp only [rewardWalk, hgas, ← totalGas_concat hgas]
      rw [ih hrest (hascending.sublist (List.drop_sublist _ _)),
        filterMap_crossing?_cons (fun _ => Iff.rfl) hascending]
      rfl

end Walk

namespace Block

variable {block : Block} {receiptGas : Hash → Option Gas} {percentiles : List Binary64}
  {p : Binary64} {fee : GasPrice}

/-- The answer of a block to a percentile by itself. -/
def answer? (block : Block) (receiptGas : Hash → Option Gas) (p : Binary64) : Option GasPrice :=
  crossing? receiptGas block.header.gasUsed [] block.ranking p

theorem answer?_eq_some_iff :
    block.answer? receiptGas p = some fee ↔
      ∃ k ranked, block.ranking[k]? = some ranked ∧ ranked.fee = fee ∧
        Reaches receiptGas block.header.gasUsed (upToPlace block.ranking k) p ∧
        ∀ j < k, ¬ Reaches receiptGas block.header.gasUsed (upToPlace block.ranking j) p :=
  crossing?_eq_some_iff

theorem isSome_answer?_iff :
    (block.answer? receiptGas p).isSome = true ↔
      ∃ k < block.ranking.length,
        Reaches receiptGas block.header.gasUsed (upToPlace block.ranking k) p :=
  isSome_crossing?_iff

theorem result_rewards (hne : block.transactions ≠ [])
    (hreceipts : ∀ transaction ∈ block.transactions, (receiptGas transaction.hash).isSome = true)
    (hascending : percentiles.Pairwise (· ≤ ·)) :
    (block.rewards percentiles receiptGas).result =
      .ok (percentiles.filterMap (block.answer? receiptGas)) := by
  have hranked (ranked : RankedTransaction) (h : ranked ∈ block.ranking) :
      (receiptGas ranked.transaction.hash).isSome = true :=
    hreceipts ranked.transaction (mem_ranking.mp h).1
  have hnone : totalGas receiptGas [] = Amount.zero := rfl
  rw [rewards, if_neg hne, ← hnone]
  exact result_rewardWalk hranked hascending

/-- The answer to a percentile stands where the percentile stands: only the last percentiles can
be without answer. -/
theorem getElem?_answers {i : Nat} (hascending : percentiles.Pairwise (· ≤ ·))
    (hp : percentiles[i]? = some p) :
    (percentiles.filterMap (block.answer? receiptGas))[i]? = block.answer? receiptGas p := by
  rw [Traversal.getElem?_filterMap_of_pairwise, hp]
  · rfl
  · exact hascending.imp isSome_crossing?_of_le

theorem lt_length_answers_iff {i : Nat} (hascending : percentiles.Pairwise (· ≤ ·))
    (hp : percentiles[i]? = some p) :
    i < (percentiles.filterMap (block.answer? receiptGas)).length ↔
      (block.answer? receiptGas p).isSome = true := by
  rw [← getElem?_answers hascending hp, isSome_getElem?]

/-- In a block whose receipts are all there, a percentile is answered with the fee of the first
transaction of the ranking up to which the gas covers it. The percentiles that are covered at some
place are the first ones of the list; there is one answer for each of them and nothing else. The
answers ascend, they are fees of the block's transactions, and each is the one that its percentile
has alone. -/
theorem rewards_first_crossing {ranking : List RankedTransaction}
    (hne : block.transactions ≠ [])
    (hreceipts : ∀ transaction ∈ block.transactions, (receiptGas transaction.hash).isSome = true)
    (hascending : percentiles.Pairwise (· ≤ ·)) (hranking : block.IsRanking ranking) :
    ∃ fees, (block.rewards percentiles receiptGas).result = .ok fees ∧
      fees.length ≤ percentiles.length ∧
      (∀ i p, percentiles[i]? = some p →
        (i < fees.length ↔ ∃ k < ranking.length,
          Reaches receiptGas block.header.gasUsed (upToPlace ranking k) p) ∧
        (∀ fee, fees[i]? = some fee ↔ ∃ k ranked, ranking[k]? = some ranked ∧ ranked.fee = fee ∧
          Reaches receiptGas block.header.gasUsed (upToPlace ranking k) p ∧
          ∀ j < k, ¬ Reaches receiptGas block.header.gasUsed (upToPlace ranking j) p) ∧
        (block.rewards [p] receiptGas).result = .ok fees[i]?.toList) ∧
      fees.Pairwise (· ≤ ·) ∧
      ∀ fee ∈ fees, ∃ transaction ∈ block.transactions, block.fee transaction = fee := by
  obtain rfl := isRanking_iff.mp hranking
  refine ⟨_, result_rewards hne hreceipts hascending, List.length_filterMap_le _ _, ?_, ?_, ?_⟩
  · intro i p hp
    refine ⟨?_, ?_, ?_⟩
    · rw [lt_length_answers_iff hascending hp, isSome_answer?_iff]
    · intro fee
      rw [getElem?_answers hascending hp, answer?_eq_some_iff]
    · rw [getElem?_answers hascending hp,
        result_rewards hne hreceipts (List.pairwise_singleton _ p)]
      cases hanswer : block.answer? receiptGas p with
      | none => rw [List.filterMap_cons_none hanswer]; rfl
      | some fee => rw [List.filterMap_cons_some hanswer]; rfl
  · refine List.pairwise_filterMap.mpr (hascending.imp ?_)
    intro p q hpq fee hfee other hother
    exact crossing?_mono block.pairwise_fee_ranking hpq hfee hother
  · intro fee hfee
    obtain ⟨p, _, hanswer⟩ := List.mem_filterMap.mp hfee
    obtain ⟨k, ranked, hranked, rfl, _, _⟩ := answer?_eq_some_iff.mp hanswer
    obtain ⟨htransaction, hfee⟩ := mem_ranking.mp (List.mem_of_getElem? hranked)
    exact ⟨ranked.transaction, htransaction, hfee.symm⟩

/-- A transaction with a flat price, whose hash spells a number. -/
def spelled (number price : UInt64) : Transaction :=
  ⟨(Amount.ofUInt64 number).toBytes, .flat (.ofUInt64 price)⟩

/-- Receipts by which each transaction used as much gas as its hash spells. -/
def spelledGas (hash : Hash) : Option Gas := some (Amount.ofBytes hash)

/-- Three transactions under a base fee of 8. The last one leaves the lowest fee, the other two
leave the same. -/
def tied : Block :=
  ⟨⟨.ofUInt64 3, some (.ofUInt64 8), .ofUInt64 50, .ofUInt64 60, (Amount.ofUInt64 3).toBytes⟩,
    [spelled 15 10, spelled 5 10, spelled 10 9]⟩

theorem isRanking_tied : tied.IsRanking
    [⟨.ofUInt64 1, spelled 10 9⟩, ⟨.ofUInt64 2, spelled 15 10⟩, ⟨.ofUInt64 2, spelled 5 10⟩] := by
  refine ⟨[(⟨.ofUInt64 1, spelled 10 9⟩, 2), (⟨.ofUInt64 2, spelled 15 10⟩, 0),
    (⟨.ofUInt64 2, spelled 5 10⟩, 1)], rfl, ?_, ?_⟩
  · exact (List.Perm.swap _ _ _).trans ((List.Perm.swap _ _ _).cons _)
  · unfold RanksBefore
    decide

/-- The gas of the last transaction is 20 percent of the block's, together with the first one it is
50 percent, and all have 60. -/
theorem rewards_tied :
    (tied.rewards [.ofNat 0, .ofNat 20, .ofNat 50, .ofNat 100] spelledGas).result =
      .ok [.ofUInt64 1, .ofUInt64 1, .ofUInt64 2] := by
  have hascending : [Binary64.ofNat 0, .ofNat 20, .ofNat 50, .ofNat 100].Pairwise (· ≤ ·) := by
    decide +kernel
  obtain ⟨fees, hresult, _, hplaces, _, _⟩ :=
    rewards_first_crossing (by decide) (fun _ _ => (rfl : (spelledGas _).isSome = true))
      hascending isRanking_tied
  have hfirst : fees[0]? = some (.ofUInt64 1) :=
    ((hplaces 0 _ rfl).2.1 _).mpr ⟨0, _, rfl, rfl, by decide +kernel, by decide +kernel⟩
  have hsecond : fees[1]? = some (.ofUInt64 1) :=
    ((hplaces 1 _ rfl).2.1 _).mpr ⟨0, _, rfl, rfl, by decide +kernel, by decide +kernel⟩
  have hthird : fees[2]? = some (.ofUInt64 2) :=
    ((hplaces 2 _ rfl).2.1 _).mpr ⟨1, _, rfl, rfl, by decide +kernel, by decide +kernel⟩
  have hopen : ¬ 3 < fees.length := by
    rw [(hplaces 3 _ rfl).1]
    decide +kernel
  have hfees : fees = [.ofUInt64 1, .ofUInt64 1, .ofUInt64 2] := by
    apply List.ext_getElem?
    intro i
    match i with
    | 0 => exact hfirst
    | 1 => exact hsecond
    | 2 => exact hthird
    | i + 3 => exact List.getElem?_eq_none (by omega)
  rw [hresult, hfees]

end Block

end FeeWindow
