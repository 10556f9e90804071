import FeeWindow.Proofs.Reward.Walk

/-!
The receipts that the priority fees of a block ask for, in the order in which they ask. The
ranking is looked up from its start, one transaction after the other, until a receipt is absent;
whether percentiles are still open plays no part in that.
-/

namespace FeeWindow

section Walk

variable {header : BlockHeader} {receiptGas : Hash → Option Gas}

/-- Where no receipt is absent, a walk looks up its whole ranking. -/
theorem lookups_rewardWalk_of_receipts {ranking : List RankedTransaction} (covered : Gas)
    (percentiles : List Binary64)
    (h : ∀ ranked ∈ ranking, (receiptGas ranked.transaction.hash).isSome = true) :
    (rewardWalk header receiptGas ranking covered percentiles).lookups =
      ranking.map fun ranked => ranked.transaction.hash := by
  induction ranking generalizing covered percentiles with
  | nil => rfl
  | cons ranked rest ih =>
      obtain ⟨gas, hgas⟩ := Option.isSome_iff_exists.mp (h ranked List.mem_cons_self)
      have hrest := fun other hother => h other (List.mem_cons_of_mem ranked hother)
      simp only [rewardWalk, hgas, List.map_cons, ih _ _ hrest]

/-- The first absent receipt is the last one that a walk looks up. -/
theorem rewardWalk_of_absent {before after : List RankedTransaction} {ranked : RankedTransaction}
    (covered : Gas) (percentiles : List Binary64)
    (hbefore : ∀ earlier ∈ before, (receiptGas earlier.transaction.hash).isSome = true)
    (habsent : receiptGas ranked.transaction.hash = none) :
    rewardWalk header receiptGas (before ++ ranked :: after) covered percentiles =
      ⟨before.map (fun earlier => earlier.transaction.hash) ++ [ranked.transaction.hash],
        .error ⟨header.number, ranked.transaction.hash⟩⟩ := by
  induction before generalizing covered percentiles with
  | nil => simp only [List.nil_append, rewardWalk, habsent, List.map_nil]
  | cons first rest ih =>
      obtain ⟨gas, hgas⟩ := Option.isSome_iff_exists.mp (hbefore first List.mem_cons_self)
      have hrest := fun other hother => hbefore other (List.mem_cons_of_mem first hother)
      simp only [List.cons_append, rewardWalk, hgas, ih _ _ hrest, List.map_cons]
      rfl

end Walk

namespace Block

variable {block : Block} {receiptGas : Hash → Option Gas}

theorem ranking_eq_nil (h : block.transactions = []) : block.ranking = [] := by
  rw [List.eq_nil_iff_forall_not_mem]
  intro ranked hranked
  have hmem := (mem_ranking.mp hranked).1
  rw [h] at hmem
  exact List.not_mem_nil hmem

theorem lookups_rewards_of_receipts (percentiles : List Binary64)
    (h : ∀ transaction ∈ block.transactions, (receiptGas transaction.hash).isSome = true) :
    (block.rewards percentiles receiptGas).lookups =
      block.ranking.map fun ranked => ranked.transaction.hash := by
  unfold rewards
  split
  · next hempty => rw [ranking_eq_nil hempty, List.map_nil]
  · exact lookups_rewardWalk_of_receipts _ _ fun ranked hranked =>
      h ranked.transaction (mem_ranking.mp hranked).1

theorem rewards_of_absent {before after : List RankedTransaction} {ranked : RankedTransaction}
    (percentiles : List Binary64) (hranking : block.ranking = before ++ ranked :: after)
    (hbefore : ∀ earlier ∈ before, (receiptGas earlier.transaction.hash).isSome = true)
    (habsent : receiptGas ranked.transaction.hash = none) :
    block.rewards percentiles receiptGas =
      ⟨before.map (fun earlier => earlier.transaction.hash) ++ [ranked.transaction.hash],
        .error ⟨block.header.number, ranked.transaction.hash⟩⟩ := by
  have hne : block.transactions ≠ [] := by
    intro hempty
    rw [ranking_eq_nil hempty] at hranking
    exact List.append_ne_nil_of_right_ne_nil before (List.cons_ne_nil ranked after) hranking.symm
  rw [rewards, if_neg hne, hranking]
  exact rewardWalk_of_absent _ _ hbefore habsent

theorem exists_result_rewards_eq_ok (percentiles : List Binary64)
    (h : ∀ transaction ∈ block.transactions, (receiptGas transaction.hash).isSome = true) :
    ∃ fees, (block.rewards percentiles receiptGas).result = .ok fees := by
  cases hresult : (block.rewards percentiles receiptGas).result with
  | ok fees => exact ⟨fees, rfl⟩
  | error missing =>
      obtain ⟨transaction, hmem, habsent⟩ :=
        (exists_result_rewards_eq_error_iff percentiles).mp ⟨missing, hresult⟩
      have hsome := h transaction hmem
      rw [habsent] at hsome
      exact absurd hsome Bool.false_ne_true

/-- The lookups of a block, for percentiles of any order and number and for any receipts. A block
without transactions makes none and answers each percentile with zero. Otherwise the transactions
are looked up by ascending fee, equal fees in block order: each of them once if all have receipts,
and else up to the first one that has none, at which the whole block fails. -/
theorem rewards_lookups (block : Block) (percentiles : List Binary64)
    (receiptGas : Hash → Option Gas) :
    (block.transactions = [] → block.rewards percentiles receiptGas =
      ⟨[], .ok (List.replicate percentiles.length Amount.zero)⟩) ∧
    (∃ ranking, block.IsRanking ranking ∧
      ((∀ transaction ∈ block.transactions, (receiptGas transaction.hash).isSome = true) →
        (block.rewards percentiles receiptGas).lookups =
          ranking.map (fun ranked => ranked.transaction.hash) ∧
        ∃ fees, (block.rewards percentiles receiptGas).result = .ok fees) ∧
      ∀ before ranked after, ranking = before ++ ranked :: after →
        (∀ earlier ∈ before, (receiptGas earlier.transaction.hash).isSome = true) →
        receiptGas ranked.transaction.hash = none →
          (block.rewards percentiles receiptGas).lookups =
            before.map (fun earlier => earlier.transaction.hash) ++ [ranked.transaction.hash] ∧
          (block.rewards percentiles receiptGas).result =
            .error ⟨block.header.number, ranked.transaction.hash⟩) ∧
    ((∃ missing, (block.rewards percentiles receiptGas).result = .error missing) ↔
      ∃ transaction ∈ block.transactions, receiptGas transaction.hash = none) := by
  refine ⟨fun hempty => if_pos hempty, ⟨block.ranking, isRanking_iff.mpr rfl, ?_, ?_⟩,
    exists_result_rewards_eq_error_iff percentiles⟩
  · intro hreceipts
    exact ⟨lookups_rewards_of_receipts percentiles hreceipts,
      exists_result_rewards_eq_ok percentiles hreceipts⟩
  · intro before ranked after hranking hbefore habsent
    rw [rewards_of_absent percentiles hranking hbefore habsent]
    exact ⟨rfl, rfl⟩

/-- Receipts for one of the three transactions only, the one that ranks first. -/
def cheapestGas (hash : Hash) : Option Gas :=
  if hash = (spelled 10 9).hash then some (.ofUInt64 10) else none

/-- The first transaction of the ranking covers the percentile 0 already. The second one has no
receipt and is looked up all the same, the third one is not. -/
theorem rewards_tied_lookups :
    (tied.rewards [.ofNat 0] cheapestGas).lookups =
      [(spelled 10 9).hash, (spelled 15 10).hash] ∧
    (tied.rewards [.ofNat 0] cheapestGas).result =
      .error ⟨.ofUInt64 3, (spelled 15 10).hash⟩ := by
  obtain ⟨_, ⟨ranking, hranking, _, habsent⟩, _⟩ :=
    rewards_lookups tied [.ofNat 0] cheapestGas
  have hlist := (isRanking_iff.mp hranking).trans (isRanking_iff.mp isRanking_tied).symm
  exact habsent [_] _ [_] hlist (by decide) (by decide)

end Block

end FeeWindow
