import FeeWindow.Proofs.Reward.LeastFee

/-!
Priority fees of blocks that differ in what their transactions offer. The order of the ranking can
be another one then, and with it the gas covered at each place. But the transactions within a
bound in the block of the higher fees are within it in the other block too, so they cover no more,
and the least fee that covers a percentile is no lower.
-/

namespace FeeWindow

/-- A higher base fee leaves no offer a higher share. -/
theorem Offer.priorityFee_le_of_le (offer : Offer) {low high : GasPrice} (h : low ≤ high) :
    offer.priorityFee (some high) ≤ offer.priorityFee (some low) := by
  have h : low.val ≤ high.val := h
  cases offer with
  | flat price => exact Nat.sub_le_sub_left h price.val
  | capped wholeCap priorityCap =>
      have hrest : wholeCap.val - high.val ≤ wholeCap.val - low.val :=
        Nat.sub_le_sub_left h wholeCap.val
      change (priorityCap.least (wholeCap.subClamped high)).val ≤
        (priorityCap.least (wholeCap.subClamped low)).val
      rw [Amount.val_least, Amount.val_least, Amount.val_subClamped, Amount.val_subClamped]
      omega

/-- Of members matched with equal values, those kept on one side weigh no more than those kept on
the other if no member is kept without its partner. -/
theorem sum_filter_le_sum_filter {α β : Type} {l : List α} {l' : List β} {value : α → Nat}
    {value' : β → Nat} {keep : α → Bool} {keep' : β → Bool}
    (h : List.Forall₂ (fun a b => value a = value' b ∧ (keep' b = true → keep a = true)) l l') :
    ((l'.filter keep').map value').sum ≤ ((l.filter keep).map value).sum := by
  induction h with
  | nil => exact Nat.le_refl _
  | @cons a b l l' hab _ ih =>
      obtain ⟨hvalue, hkeep⟩ := hab
      by_cases hb : keep' b = true
      · rw [List.filter_cons_of_pos hb, List.filter_cons_of_pos (hkeep hb), List.map_cons,
          List.map_cons, List.sum_cons, List.sum_cons, hvalue]
        exact Nat.add_le_add_left ih _
      · rw [List.filter_cons_of_neg hb]
        by_cases ha : keep a = true
        · rw [List.filter_cons_of_pos ha, List.map_cons, List.sum_cons]
          exact Nat.le_add_left_of_le ih
        · rw [List.filter_cons_of_neg ha]
          exact ih

namespace Block

/-- Whether two blocks have transactions of the same hashes in the same order, none of them with a
higher fee in the first block than in the second. -/
def OffersNoMore (block other : Block) : Prop :=
  List.Forall₂ (fun transaction counterpart => transaction.hash = counterpart.hash ∧
    block.fee transaction ≤ other.fee counterpart) block.transactions other.transactions

variable {block other : Block} {receiptGas : Hash → Option Gas} {percentiles : List Binary64}
  {p : Binary64}

theorem gasBy_congr {transaction counterpart : Transaction}
    (h : transaction.hash = counterpart.hash) :
    gasBy receiptGas transaction = gasBy receiptGas counterpart := by
  unfold gasBy
  rw [h]

theorem OffersNoMore.totalGas_eq (h : block.OffersNoMore other) :
    totalGas receiptGas block.transactions = totalGas receiptGas other.transactions := by
  have hgas : List.Forall₂ Eq (block.transactions.map (gasBy receiptGas))
      (other.transactions.map (gasBy receiptGas)) := by
    rw [List.forall₂_map_left_iff, List.forall₂_map_right_iff]
    exact h.imp fun _ _ hmatched => gasBy_congr hmatched.1
  rw [List.forall₂_eq_eq_eq] at hgas
  unfold totalGas
  rw [hgas]

theorem OffersNoMore.val_totalGas_upTo_le (h : block.OffersNoMore other) (bound : GasPrice) :
    (totalGas receiptGas (other.upTo bound)).val ≤
      (totalGas receiptGas (block.upTo bound)).val := by
  have hsum : ((other.upTo bound).map (gasBy receiptGas)).sum ≤
      ((block.upTo bound).map (gasBy receiptGas)).sum := by
    apply sum_filter_le_sum_filter
    apply h.imp
    rintro transaction counterpart ⟨hhash, hfee⟩
    refine ⟨gasBy_congr hhash, ?_⟩
    intro hwithin
    rw [decide_eq_true_iff] at hwithin ⊢
    exact Nat.le_trans hfee hwithin
  unfold totalGas
  rw [Amount.val_clamp, Amount.val_clamp]
  omega

theorem OffersNoMore.exists_counterpart (h : block.OffersNoMore other)
    {counterpart : Transaction} (hmem : counterpart ∈ other.transactions) :
    ∃ transaction ∈ block.transactions, block.fee transaction ≤ other.fee counterpart := by
  obtain ⟨transaction, htransaction, _, hfee⟩ := Traversal.exists_mem_of_forall₂ h.flip hmem
  exact ⟨transaction, htransaction, hfee⟩

theorem OffersNoMore.transactions_eq_nil_iff (h : block.OffersNoMore other) :
    block.transactions = [] ↔ other.transactions = [] := by
  rw [← List.length_eq_zero_iff, ← List.length_eq_zero_iff, h.length_eq]

/-- Both blocks answer the same percentiles, and the first one with no higher fee. -/
theorem OffersNoMore.rel_answer? (h : block.OffersNoMore other)
    (hgas : block.header.gasUsed = other.header.gasUsed) (hne : block.transactions ≠ []) :
    Option.Rel (fun fee higher => fee ≤ higher) (block.answer? receiptGas p)
      (other.answer? receiptGas p) := by
  have hother : other.transactions ≠ [] := fun hempty => hne (h.transactions_eq_nil_iff.mpr hempty)
  have hanswered : (block.answer? receiptGas p).isSome = true ↔
      (other.answer? receiptGas p).isSome = true := by
    rw [isSome_answer?_iff_reaches hne, isSome_answer?_iff_reaches hother]
    unfold Reaches
    rw [hgas, h.totalGas_eq]
  cases hfee : block.answer? receiptGas p with
  | none =>
      cases hhigher : other.answer? receiptGas p with
      | none => exact .none
      | some higher => simp [hfee, hhigher] at hanswered
  | some fee =>
      cases hhigher : other.answer? receiptGas p with
      | none => simp [hfee, hhigher] at hanswered
      | some higher =>
          have hleast := isLeastReaching_of_answer? hhigher
          obtain ⟨counterpart, hcounterpart, hoffered⟩ := hleast.offered
          have hreaches := hleast.reaches
          rw [← hgas] at hreaches
          refine .some (le_of_answer?_of_reaches hfee ?_
            (hreaches.of_val_totalGas_le (h.val_totalGas_upTo_le higher)))
          rw [← hoffered]
          exact h.exists_counterpart hcounterpart

theorem OffersNoMore.exists_rewards (h : block.OffersNoMore other)
    (hgas : block.header.gasUsed = other.header.gasUsed)
    (hreceipts : ∀ transaction ∈ block.transactions, (receiptGas transaction.hash).isSome = true)
    (hascending : percentiles.Pairwise (· ≤ ·)) :
    ∃ fees higher, (block.rewards percentiles receiptGas).result = .ok fees ∧
      (other.rewards percentiles receiptGas).result = .ok higher ∧
      List.Forall₂ (· ≤ ·) fees higher := by
  by_cases hempty : block.transactions = []
  · have hother := h.transactions_eq_nil_iff.mp hempty
    rw [rewards, rewards, if_pos hempty, if_pos hother]
    refine ⟨_, _, rfl, rfl, ?_⟩
    exact List.forall₂_same.mpr fun _ _ => Nat.le_refl _
  · have hother : other.transactions ≠ [] :=
      fun hnone => hempty (h.transactions_eq_nil_iff.mpr hnone)
    have hothers (counterpart : Transaction) (hmem : counterpart ∈ other.transactions) :
        (receiptGas counterpart.hash).isSome = true := by
      obtain ⟨transaction, htransaction, hhash, _⟩ := Traversal.exists_mem_of_forall₂ h.flip hmem
      rw [← hhash]
      exact hreceipts transaction htransaction
    refine ⟨_, _, result_rewards hempty hreceipts hascending,
      result_rewards hother hothers hascending, ?_⟩
    apply List.rel_filterMap _ (List.forall₂_eq_eq_eq ▸ rfl)
    rintro p _ rfl
    exact h.rel_answer? hgas hempty

/-- A block under another base fee. -/
def withBaseFee (block : Block) (fee : GasPrice) : Block :=
  { block with header := { block.header with baseFee := some fee } }

theorem offersNoMore_withBaseFee (block : Block) {low high : GasPrice} (h : low ≤ high) :
    (block.withBaseFee high).OffersNoMore (block.withBaseFee low) :=
  List.forall₂_same.mpr fun transaction _ => ⟨rfl, transaction.offer.priorityFee_le_of_le h⟩

/-- Of two blocks with the same gas and transactions of the same hashes, all of them with receipts,
the one whose transactions have no higher fees has as many rewards at the same ascending
percentiles, and each of them is no higher. So a higher base fee raises no reward. -/
theorem rewards_monotone (receiptGas : Hash → Option Gas) (percentiles : List Binary64)
    (hascending : percentiles.Pairwise (· ≤ ·)) :
    (∀ block other : Block, block.header.gasUsed = other.header.gasUsed →
      block.OffersNoMore other →
      (∀ transaction ∈ block.transactions, (receiptGas transaction.hash).isSome = true) →
        ∃ fees higher, (block.rewards percentiles receiptGas).result = .ok fees ∧
          (other.rewards percentiles receiptGas).result = .ok higher ∧
          List.Forall₂ (· ≤ ·) fees higher) ∧
    ∀ (block : Block) (low high : GasPrice), low ≤ high →
      (∀ transaction ∈ block.transactions, (receiptGas transaction.hash).isSome = true) →
        ∃ fees higher, ((block.withBaseFee high).rewards percentiles receiptGas).result = .ok fees ∧
          ((block.withBaseFee low).rewards percentiles receiptGas).result = .ok higher ∧
          List.Forall₂ (· ≤ ·) fees higher := by
  constructor
  · intro block other hgas hfees hreceipts
    exact hfees.exists_rewards hgas hreceipts hascending
  · intro block low high h hreceipts
    exact (block.offersNoMore_withBaseFee h).exists_rewards rfl hreceipts hascending

/-- A flat offer, which is worth less under a higher base fee, and one whose cap on the producer's
share is met under both base fees. -/
def mixed : Block :=
  ⟨⟨.ofUInt64 3, none, .ofUInt64 30, .ofUInt64 60, (Amount.ofUInt64 3).toBytes⟩,
    [spelled 20 20, ⟨(Amount.ofUInt64 10).toBytes, .capped (.ofUInt64 100) (.ofUInt64 5)⟩]⟩

/-- Under the base fee 10 the flat offer ranks last and under 18 it ranks first. -/
theorem rewards_monotone_mixed :
    Amount.ofUInt64 10 ≤ .ofUInt64 18 ∧
    ∃ fees higher,
      ((mixed.withBaseFee (.ofUInt64 18)).rewards [.ofNat 50, .ofNat 100] spelledGas).result =
        .ok fees ∧
      ((mixed.withBaseFee (.ofUInt64 10)).rewards [.ofNat 50, .ofNat 100] spelledGas).result =
        .ok higher ∧
      List.Forall₂ (· ≤ ·) fees higher := by
  have hfees : Amount.ofUInt64 10 ≤ .ofUInt64 18 := by decide
  have hascending : [Binary64.ofNat 50, .ofNat 100].Pairwise (· ≤ ·) := by decide +kernel
  obtain ⟨_, hraised⟩ := rewards_monotone spelledGas _ hascending
  exact ⟨hfees, hraised mixed _ _ hfees fun _ _ => rfl⟩

end Block

end FeeWindow
