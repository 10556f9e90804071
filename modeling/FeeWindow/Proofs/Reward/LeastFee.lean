import FeeWindow.Proofs.Reward.Walk

/-!
The answers of a block without its order. All transactions up to a place of the ranking have at
most the fee of that place, and those with less stand before it. So the fee at which a percentile
is first covered is the least one such that the transactions offering no more cover it, and that
does not depend on where transactions stand in the block.
-/

namespace FeeWindow

section Sorted

variable {α : Type} {value : α → Nat} {l : List α} {k bound : Nat}

/-- In an ascending list, the members up to a place are no larger than the one in that place. -/
theorem take_succ_sublist_filter (hl : l.Pairwise fun a b => value a ≤ value b)
    (hk : k < l.length) (hbound : value l[k] ≤ bound) :
    (l.take (k + 1)).Sublist (l.filter fun a => value a ≤ bound) := by
  have hall : (l.take (k + 1)).filter (fun a => value a ≤ bound) = l.take (k + 1) := by
    rw [List.filter_eq_self]
    intro a ha
    obtain ⟨i, hi, rfl⟩ := List.mem_take_iff_getElem.mp ha
    have hle : value l[i] ≤ value l[k] := by
      rcases Nat.lt_or_eq_of_le (show i ≤ k by omega) with hlt | rfl
      · exact List.pairwise_iff_getElem.mp hl i k (by omega) hk hlt
      · exact Nat.le_refl _
    exact decide_eq_true (Nat.le_trans hle hbound)
  rw [← hall]
  exact (List.take_sublist _ _).filter _

/-- In an ascending list, the members smaller than the one in a place stand before it. -/
theorem filter_sublist_take (hl : l.Pairwise fun a b => value a ≤ value b)
    (hk : k < l.length) (hbound : bound < value l[k]) :
    (l.filter fun a => value a ≤ bound).Sublist (l.take k) := by
  have hnone : (l.drop k).filter (fun a => value a ≤ bound) = [] := by
    rw [List.filter_eq_nil_iff]
    intro a ha
    obtain ⟨i, hi, rfl⟩ := List.mem_drop_iff_getElem.mp ha
    have hle : value l[k] ≤ value l[k + i] := by
      rcases Nat.eq_zero_or_pos i with rfl | hpos
      · exact Nat.le_refl _
      · exact List.pairwise_iff_getElem.mp hl k (k + i) hk (by omega) (by omega)
    rw [decide_eq_true_eq]
    omega
  have hfront : l.filter (fun a => value a ≤ bound) =
      (l.take k).filter fun a => value a ≤ bound := by
    calc l.filter (fun a => value a ≤ bound)
        = (l.take k ++ l.drop k).filter fun a => value a ≤ bound := by
          rw [List.take_append_drop]
      _ = (l.take k).filter fun a => value a ≤ bound := by
          rw [List.filter_append, hnone, List.append_nil]
  rw [hfront]
  exact List.filter_sublist

end Sorted

namespace Block

variable {block other : Block} {receiptGas : Hash → Option Gas} {percentiles : List Binary64}
  {p : Binary64} {fee : GasPrice}

/-- The transactions of a block whose fee is at most a given one. -/
def upTo (block : Block) (fee : GasPrice) : List Transaction :=
  block.transactions.filter fun transaction => block.fee transaction ≤ fee

/-- The least fee offered in a block such that the transactions that offer no more cover a
percentile. -/
structure IsLeastReaching (block : Block) (receiptGas : Hash → Option Gas) (p : Binary64)
    (fee : GasPrice) : Prop where
  offered : ∃ transaction ∈ block.transactions, block.fee transaction = fee
  reaches : Reaches receiptGas block.header.gasUsed (block.upTo fee) p
  least : ∀ transaction ∈ block.transactions,
    Reaches receiptGas block.header.gasUsed (block.upTo (block.fee transaction)) p →
      fee ≤ block.fee transaction

theorem IsLeastReaching.unique {fee₁ fee₂ : GasPrice}
    (h₁ : block.IsLeastReaching receiptGas p fee₁) (h₂ : block.IsLeastReaching receiptGas p fee₂) :
    fee₁ = fee₂ := by
  obtain ⟨first, hfirst, rfl⟩ := h₁.offered
  obtain ⟨second, hsecond, rfl⟩ := h₂.offered
  exact Amount.ext (Nat.le_antisymm (h₁.least second hsecond h₂.reaches)
    (h₂.least first hfirst h₁.reaches))

theorem upToPlace_ranking (block : Block) (k : Nat) :
    upToPlace block.ranking k = block.byFee.take (k + 1) :=
  List.map_take

theorem reaches_upTo_iff :
    Reaches receiptGas block.header.gasUsed (block.upTo fee) p ↔
      Reaches receiptGas block.header.gasUsed
        (block.byFee.filter fun transaction => (block.fee transaction).val ≤ fee.val) p :=
  Reaches.congr_of_perm (block.byFee_perm.symm.filter _)

/-- An answer is the fee in the first place by ascending fee up to which the percentile is
covered. -/
theorem exists_place_of_answer? (h : block.answer? receiptGas p = some fee) :
    ∃ (k : Nat) (hk : k < block.byFee.length), block.fee block.byFee[k] = fee ∧
      Reaches receiptGas block.header.gasUsed (block.byFee.take (k + 1)) p ∧
      ∀ j < k, ¬ Reaches receiptGas block.header.gasUsed (block.byFee.take (j + 1)) p := by
  obtain ⟨k, entry, hentry, rfl, hreached, hfirst⟩ := answer?_eq_some_iff.mp h
  obtain ⟨_, hfee⟩ := mem_ranking.mp (List.mem_of_getElem? hentry)
  obtain ⟨hk, rfl⟩ := List.getElem?_eq_some_iff.mp hentry
  simp only [upToPlace_ranking] at hreached hfirst
  have hlength : k < block.byFee.length := by
    rw [byFee, List.length_map]
    exact hk
  refine ⟨k, hlength, ?_, hreached, hfirst⟩
  simp only [byFee, List.getElem_map, hfee]

/-- A bound that some transaction meets is no lower than the answer if the transactions within the
bound cover the percentile. Where none of them meets it, no gas at all may cover the percentile. -/
theorem le_of_answer?_of_reaches {bound : GasPrice} (h : block.answer? receiptGas p = some fee)
    (hoffered : ∃ transaction ∈ block.transactions, block.fee transaction ≤ bound)
    (hreaches : Reaches receiptGas block.header.gasUsed (block.upTo bound) p) : fee ≤ bound := by
  obtain ⟨k, hk, rfl, _, hfirst⟩ := exists_place_of_answer? h
  by_contra hlt
  have hbefore := filter_sublist_take block.pairwise_byFee hk (Nat.lt_of_not_le hlt)
  -- The transactions within the bound stand before the crossing, and there is one of them.
  cases k with
  | zero =>
      obtain ⟨transaction, htransaction, hwithin⟩ := hoffered
      have hmem : transaction ∈ block.byFee.filter fun other =>
          (block.fee other).val ≤ bound.val :=
        List.mem_filter.mpr ⟨block.byFee_perm.mem_iff.mpr htransaction, decide_eq_true hwithin⟩
      exact List.not_mem_nil (hbefore.mem hmem)
  | succ k =>
      exact hfirst k (Nat.lt_succ_self k) ((reaches_upTo_iff.mp hreaches).of_sublist hbefore)

theorem isLeastReaching_of_answer? (h : block.answer? receiptGas p = some fee) :
    block.IsLeastReaching receiptGas p fee := by
  obtain ⟨k, hk, rfl, hreached, _⟩ := exists_place_of_answer? h
  refine ⟨⟨_, block.byFee_perm.mem_iff.mp (List.getElem_mem hk), rfl⟩, ?_, ?_⟩
  · rw [reaches_upTo_iff]
    apply hreached.of_sublist
    exact take_succ_sublist_filter block.pairwise_byFee hk (Nat.le_refl _)
  · intro transaction htransaction hcovers
    exact le_of_answer?_of_reaches h ⟨transaction, htransaction, Nat.le_refl _⟩ hcovers

/-- A percentile is answered if the whole block covers it. -/
theorem isSome_answer?_iff_reaches (hne : block.transactions ≠ []) :
    (block.answer? receiptGas p).isSome = true ↔
      Reaches receiptGas block.header.gasUsed block.transactions p := by
  rw [isSome_answer?_iff, ← Reaches.congr_of_perm block.byFee_perm]
  constructor
  · rintro ⟨k, _, hreached⟩
    rw [upToPlace_ranking] at hreached
    exact hreached.of_sublist (List.take_sublist _ _)
  · intro hreached
    have hlength : block.ranking.length = block.transactions.length := by
      rw [← block.byFee_perm.length_eq, byFee, List.length_map]
    have hpos : 0 < block.transactions.length := List.length_pos_of_ne_nil hne
    refine ⟨block.ranking.length - 1, by omega, ?_⟩
    have hwhole : upToPlace block.ranking (block.ranking.length - 1) = block.byFee := by
      rw [upToPlace, List.take_of_length_le (by omega)]
      rfl
    rw [hwhole]
    exact hreached

theorem answer?_eq_some_iff_isLeastReaching :
    block.answer? receiptGas p = some fee ↔ block.IsLeastReaching receiptGas p fee := by
  constructor
  · exact isLeastReaching_of_answer?
  · intro h
    obtain ⟨transaction, htransaction, _⟩ := h.offered
    have hne : block.transactions ≠ [] := List.ne_nil_of_mem htransaction
    have hreached : Reaches receiptGas block.header.gasUsed block.transactions p :=
      h.reaches.of_sublist List.filter_sublist
    have hsome := (isSome_answer?_iff_reaches hne).mpr hreached
    obtain ⟨answer, hanswer⟩ := Option.isSome_iff_exists.mp hsome
    rw [hanswer, h.unique (isLeastReaching_of_answer? hanswer)]

theorem IsLeastReaching.of_perm (hheader : other.header = block.header)
    (hperm : other.transactions.Perm block.transactions)
    (h : block.IsLeastReaching receiptGas p fee) : other.IsLeastReaching receiptGas p fee := by
  have hfee (transaction : Transaction) : other.fee transaction = block.fee transaction := by
    unfold Block.fee
    rw [hheader]
  have hupTo (bound : GasPrice) : (other.upTo bound).Perm (block.upTo bound) := by
    unfold upTo
    simp only [hfee]
    exact hperm.filter _
  have hreaches (bound : GasPrice) :
      Reaches receiptGas other.header.gasUsed (other.upTo bound) p ↔
        Reaches receiptGas block.header.gasUsed (block.upTo bound) p := by
    rw [hheader, Reaches.congr_of_perm (hupTo bound)]
  obtain ⟨transaction, htransaction, rfl⟩ := h.offered
  refine ⟨⟨transaction, hperm.mem_iff.mpr htransaction, hfee transaction⟩,
    (hreaches _).mpr h.reaches, ?_⟩
  intro cheaper hcheaper hcovers
  rw [hfee] at hcovers ⊢
  exact h.least cheaper (hperm.mem_iff.mp hcheaper) ((hreaches _).mp hcovers)

theorem answer?_congr_of_perm (hheader : other.header = block.header)
    (hperm : other.transactions.Perm block.transactions) :
    other.answer? receiptGas p = block.answer? receiptGas p := by
  ext fee
  rw [answer?_eq_some_iff_isLeastReaching, answer?_eq_some_iff_isLeastReaching]
  exact ⟨.of_perm hheader.symm hperm.symm, .of_perm hheader hperm⟩

/-- In a block whose receipts are all there, a percentile has an answer if all transactions
together cover it, and the answer is the least fee such that the transactions offering no more
cover it. Blocks with the same transactions in another order have the same answers. -/
theorem rewards_least_fee (hne : block.transactions ≠ [])
    (hreceipts : ∀ transaction ∈ block.transactions, (receiptGas transaction.hash).isSome = true)
    (hascending : percentiles.Pairwise (· ≤ ·)) :
    (∃ fees, (block.rewards percentiles receiptGas).result = .ok fees ∧
      fees.length ≤ percentiles.length ∧
      ∀ i p, percentiles[i]? = some p →
        (i < fees.length ↔ Reaches receiptGas block.header.gasUsed block.transactions p) ∧
        ∀ fee, fees[i]? = some fee ↔ block.IsLeastReaching receiptGas p fee) ∧
    ∀ other : Block, other.header = block.header →
      other.transactions.Perm block.transactions →
        (other.rewards percentiles receiptGas).result =
          (block.rewards percentiles receiptGas).result := by
  constructor
  · refine ⟨_, result_rewards hne hreceipts hascending, List.length_filterMap_le _ _, ?_⟩
    intro i p hp
    constructor
    · rw [lt_length_answers_iff hascending hp, isSome_answer?_iff_reaches hne]
    · intro fee
      rw [getElem?_answers hascending hp, answer?_eq_some_iff_isLeastReaching]
  · intro other hheader hperm
    have hother : other.transactions ≠ [] := by
      intro hempty
      rw [hempty] at hperm
      exact hne hperm.symm.eq_nil
    have hothers (transaction : Transaction) (h : transaction ∈ other.transactions) :
        (receiptGas transaction.hash).isSome = true :=
      hreceipts transaction (hperm.mem_iff.mp h)
    have hanswer : other.answer? receiptGas = block.answer? receiptGas := by
      funext p
      exact answer?_congr_of_perm hheader hperm
    rw [result_rewards hother hothers hascending, result_rewards hne hreceipts hascending,
      hanswer]

/-- The same transactions in another order. -/
def tiedReordered : Block := ⟨tied.header, [spelled 5 10, spelled 10 9, spelled 15 10]⟩

/-- In one order the percentile 50 is covered up to the first transaction of the higher fee, in the
other order only up to the second one. The answer is the same. -/
theorem rewards_tied_reordered :
    (tied.rewards [.ofNat 50, .ofNat 100] spelledGas).result = .ok [.ofUInt64 2] ∧
    (tiedReordered.rewards [.ofNat 50, .ofNat 100] spelledGas).result = .ok [.ofUInt64 2] := by
  have hne : tied.transactions ≠ [] := by decide
  have hascending : [Binary64.ofNat 50, .ofNat 100].Pairwise (· ≤ ·) := by decide +kernel
  obtain ⟨⟨fees, hresult, _, hplaces⟩, horder⟩ :=
    rewards_least_fee hne (fun _ _ => (rfl : (spelledGas _).isSome = true)) hascending
  have hleast : tied.IsLeastReaching spelledGas (.ofNat 50) (.ofUInt64 2) :=
    ⟨by decide +kernel, by decide +kernel, by decide +kernel⟩
  have hfirst : fees[0]? = some (.ofUInt64 2) := ((hplaces 0 _ rfl).2 _).mpr hleast
  have hopen : ¬ 1 < fees.length := by
    rw [(hplaces 1 _ rfl).1]
    decide +kernel
  have hfees : fees = [.ofUInt64 2] := by
    apply List.ext_getElem?
    intro i
    match i with
    | 0 => exact hfirst
    | i + 1 => exact List.getElem?_eq_none (by omega)
  rw [hfees] at hresult
  have hperm : tiedReordered.transactions.Perm tied.transactions := by decide +kernel
  exact ⟨hresult, (horder tiedReordered rfl hperm).trans hresult⟩

end Block

end FeeWindow
