import FeeWindow.Reward
import Mathlib.Tactic.Common

/-!
The ranking of a block's transactions, described by places in the block. A transaction ranks
before another if its fee is lower, or if the fees are equal and it stands earlier in the block;
the ranking lists every transaction of the block once, in this order.
-/

namespace FeeWindow

/-- The priority fee of a transaction in a block. -/
def Block.fee (block : Block) (transaction : Transaction) : GasPrice :=
  transaction.offer.priorityFee block.header.baseFee

/-- The order of the ranking, on transactions with their fees and places in the block. -/
def RanksBefore (a b : RankedTransaction × Nat) : Prop :=
  a.1.fee < b.1.fee ∨ a.1.fee = b.1.fee ∧ a.2 < b.2

theorem RanksBefore.asymm {a b : RankedTransaction × Nat} (h : RanksBefore a b) :
    ¬ RanksBefore b a := by
  intro hba
  rcases h with hab | ⟨hfee, hplace⟩
  · have hab : a.1.fee.val < b.1.fee.val := hab
    rcases hba with hba | ⟨hfee, _⟩
    · have hba : b.1.fee.val < a.1.fee.val := hba
      omega
    · rw [hfee] at hab
      omega
  · rcases hba with hba | ⟨_, hback⟩
    · have hba : b.1.fee.val < a.1.fee.val := hba
      rw [hfee] at hba
      omega
    · omega

namespace Block

/-- The transactions of a block with their fees, in block order. -/
def priced (block : Block) : List RankedTransaction :=
  block.transactions.map fun transaction => ⟨block.fee transaction, transaction⟩

/-- The ranking with the place that each transaction has in the block. -/
def placedRanking (block : Block) : List (RankedTransaction × Nat) :=
  block.priced.zipIdx.mergeSort (List.zipIdxLE fun a b => a.fee ≤ b.fee)

/-- Leaving out the places gives the ranking, because its sort keeps equal fees in order. -/
theorem map_fst_placedRanking (block : Block) :
    block.placedRanking.map Prod.fst = block.ranking :=
  List.mergeSort_zipIdx

theorem mem_placedRanking {block : Block} {ranked : RankedTransaction} {i : Nat} :
    (ranked, i) ∈ block.placedRanking ↔
      block.transactions[i]? = some ranked.transaction ∧
        ranked.fee = block.fee ranked.transaction := by
  unfold placedRanking priced
  rw [List.mem_mergeSort, List.mem_zipIdx_iff_getElem?, List.getElem?_map,
    Option.map_eq_some_iff]
  constructor
  · rintro ⟨transaction, htransaction, rfl⟩
    exact ⟨htransaction, rfl⟩
  · rintro ⟨htransaction, hfee⟩
    exact ⟨ranked.transaction, htransaction, by rw [← hfee]⟩

theorem mem_ranking {block : Block} {ranked : RankedTransaction} :
    ranked ∈ block.ranking ↔
      ranked.transaction ∈ block.transactions ∧ ranked.fee = block.fee ranked.transaction := by
  rw [← map_fst_placedRanking, List.mem_map, List.mem_iff_getElem?]
  constructor
  · rintro ⟨⟨other, i⟩, hmem, rfl⟩
    obtain ⟨hplace, hfee⟩ := mem_placedRanking.mp hmem
    exact ⟨⟨i, hplace⟩, hfee⟩
  · rintro ⟨⟨i, hplace⟩, hfee⟩
    exact ⟨(ranked, i), mem_placedRanking.mpr ⟨hplace, hfee⟩, rfl⟩

theorem pairwise_placedRanking (block : Block) : block.placedRanking.Pairwise RanksBefore := by
  have hsorted : block.placedRanking.Pairwise fun a b =>
      List.zipIdxLE (fun a b : RankedTransaction => a.fee ≤ b.fee) a b = true := by
    apply List.pairwise_mergeSort
    · apply List.zipIdxLE_trans
      intro a b c hab hbc
      simp only [decide_eq_true_iff] at hab hbc ⊢
      exact Nat.le_trans hab hbc
    · apply List.zipIdxLE_total
      intro a b
      simp only [Bool.or_eq_true, decide_eq_true_iff]
      exact Nat.le_total a.fee.val b.fee.val
  -- No two transactions have the same place, so the order is strict.
  have hplaces : block.placedRanking.Pairwise fun a b => a.2 ≠ b.2 := by
    have hperm : (block.placedRanking.map Prod.snd).Perm (block.priced.zipIdx.map Prod.snd) :=
      (List.mergeSort_perm _ _).map Prod.snd
    have hnodup : (block.placedRanking.map Prod.snd).Nodup := by
      rw [hperm.nodup_iff, List.zipIdx_map_snd]
      exact List.nodup_range'
    exact List.pairwise_map.mp hnodup
  apply (hsorted.and hplaces).imp
  rintro a b ⟨hle, hne⟩
  unfold List.zipIdxLE at hle
  split at hle
  · next hab =>
      split at hle
      · next hba =>
          rw [decide_eq_true_iff] at hab hba hle
          exact .inr ⟨Amount.ext (Nat.le_antisymm hab hba), by omega⟩
      · next hba =>
          rw [decide_eq_true_iff] at hba
          exact .inl (Nat.lt_of_not_le hba)
  · cases hle

/-- Whether a list holds the transactions of a block with their fees in the order of the ranking:
by ascending fee, equal fees in block order. -/
def IsRanking (block : Block) (ranking : List RankedTransaction) : Prop :=
  ∃ placed : List (RankedTransaction × Nat), placed.map Prod.fst = ranking ∧
    placed.Perm block.priced.zipIdx ∧ placed.Pairwise RanksBefore

theorem isRanking_iff {block : Block} {ranking : List RankedTransaction} :
    block.IsRanking ranking ↔ ranking = block.ranking := by
  have hperm : block.placedRanking.Perm block.priced.zipIdx := List.mergeSort_perm _ _
  constructor
  · rintro ⟨placed, rfl, hplaced, hsorted⟩
    have hsame : placed = block.placedRanking :=
      (hplaced.trans hperm.symm).eq_of_pairwise (fun a b _ _ hab hba => absurd hba hab.asymm)
        hsorted block.pairwise_placedRanking
    rw [hsame, map_fst_placedRanking]
  · rintro rfl
    exact ⟨block.placedRanking, block.map_fst_placedRanking, hperm, block.pairwise_placedRanking⟩

theorem pairwise_fee_ranking (block : Block) :
    block.ranking.Pairwise fun a b => a.fee.val ≤ b.fee.val := by
  rw [← map_fst_placedRanking, List.pairwise_map]
  apply block.pairwise_placedRanking.imp
  rintro a b (hlt | ⟨heq, _⟩)
  · exact Nat.le_of_lt hlt
  · exact Nat.le_of_eq (congrArg Amount.val heq)

/-- The transactions of a block in the order of its ranking. -/
def byFee (block : Block) : List Transaction := block.ranking.map RankedTransaction.transaction

theorem byFee_perm (block : Block) : block.byFee.Perm block.transactions := by
  have hperm : block.ranking.Perm block.priced := List.mergeSort_perm _ _
  have hpriced : block.priced.map RankedTransaction.transaction = block.transactions := by
    simp [priced, Function.comp_def]
  rw [← hpriced]
  exact hperm.map _

theorem pairwise_byFee (block : Block) :
    block.byFee.Pairwise fun a b => (block.fee a).val ≤ (block.fee b).val := by
  unfold byFee
  rw [List.pairwise_map]
  apply block.pairwise_fee_ranking.imp_of_mem
  intro a b ha hb hle
  rw [← (mem_ranking.mp ha).2, ← (mem_ranking.mp hb).2]
  exact hle

end Block

end FeeWindow
