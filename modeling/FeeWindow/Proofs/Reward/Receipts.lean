import FeeWindow.Proofs.Reward.Ranking
import FeeWindow.Proofs.Traversal

/-!
Which receipts the priority fees of a block need. Every transaction of the block is looked up,
also after the last percentile has been answered, so the fees exist exactly if no receipt is
absent. Otherwise the transaction at fault is the one without receipt that ranks first.
-/

namespace FeeWindow

/-- The first transaction without receipt in the ranking of a block: any other one offers a
higher fee, or the same fee at a later place in the block. -/
def Block.FirstAbsent {α : Type} (block : Block) (lookup : Hash → Option α) (hash : Hash) : Prop :=
  ∃ (i : Nat) (transaction : Transaction),
    block.transactions[i]? = some transaction ∧
    transaction.hash = hash ∧
    lookup hash = none ∧
    ∀ (j : Nat) (other : Transaction), block.transactions[j]? = some other →
      lookup other.hash = none →
        block.fee transaction < block.fee other ∨
          block.fee transaction = block.fee other ∧ i ≤ j

/-- A walk fails exactly at the first transaction of the ranking without receipt, whatever gas
is covered and whichever percentiles are open. -/
theorem result_rewardWalk_eq_error {header : BlockHeader} {receiptGas : Hash → Option Gas}
    {ranking : List RankedTransaction} {covered : Gas} {percentiles : List Binary64}
    {missing : AbsentReceipt} :
    (rewardWalk header receiptGas ranking covered percentiles).result = .error missing ↔
      ∃ ranked, ranking.find? (fun ranked => (receiptGas ranked.transaction.hash).isNone) =
          some ranked ∧ missing = ⟨header.number, ranked.transaction.hash⟩ := by
  induction ranking generalizing covered percentiles with
  | nil =>
      constructor
      · intro h
        cases h
      · rintro ⟨ranked, h, _⟩
        cases h
  | cons ranked rest ih =>
      cases hgas : receiptGas ranked.transaction.hash with
      | none =>
          rw [List.find?_cons_of_pos (by rw [hgas]; rfl)]
          simp only [rewardWalk, hgas]
          constructor
          · intro h
            exact ⟨ranked, rfl, (Except.error.inj h).symm⟩
          · rintro ⟨other, hother, rfl⟩
            rw [Option.some.inj hother]
      | some gas =>
          rw [List.find?_cons_of_neg (by rw [hgas]; exact Bool.false_ne_true)]
          simp only [rewardWalk, hgas]
          rw [← ih]
          generalize (rewardWalk header receiptGas rest _ _).result = result
          cases result with
          | error e => exact Iff.rfl
          | ok fees => exact ⟨fun h => (by cases h), fun h => (by cases h)⟩

/-- A walk looks up the receipts of its own transactions only. -/
theorem rewardWalk_congr {header : BlockHeader} {receiptGas otherGas : Hash → Option Gas}
    {ranking : List RankedTransaction} (covered : Gas) (percentiles : List Binary64)
    (h : ∀ ranked ∈ ranking, receiptGas ranked.transaction.hash =
      otherGas ranked.transaction.hash) :
    rewardWalk header receiptGas ranking covered percentiles =
      rewardWalk header otherGas ranking covered percentiles := by
  induction ranking generalizing covered percentiles with
  | nil => rfl
  | cons ranked rest ih =>
      have hfirst := h ranked List.mem_cons_self
      have hrest := fun other hother => h other (List.mem_cons_of_mem ranked hother)
      simp only [rewardWalk, hfirst]
      cases otherGas ranked.transaction.hash with
      | none => rfl
      | some gas => simp only [ih _ _ hrest]

namespace Block

variable {block : Block}

theorem rewards_congr {receiptGas otherGas : Hash → Option Gas} (percentiles : List Binary64)
    (h : ∀ transaction ∈ block.transactions, receiptGas transaction.hash =
      otherGas transaction.hash) :
    block.rewards percentiles receiptGas = block.rewards percentiles otherGas := by
  unfold rewards
  split
  · rfl
  · exact rewardWalk_congr _ _ fun ranked hranked => h _ (mem_ranking.mp hranked).1

theorem firstAbsent_map {α β : Type} {lookup : Hash → Option α} {f : α → β} {hash : Hash} :
    block.FirstAbsent (fun hash => (lookup hash).map f) hash ↔
      block.FirstAbsent lookup hash := by
  simp only [FirstAbsent, Option.map_eq_none_iff]

/-- The first member of the ranking without receipt, told by fees and places. -/
theorem find?_ranking_iff {α : Type} {lookup : Hash → Option α} {hash : Hash} :
    (∃ ranked, block.ranking.find? (fun ranked => (lookup ranked.transaction.hash).isNone) =
        some ranked ∧ ranked.transaction.hash = hash) ↔ block.FirstAbsent lookup hash := by
  let absent : RankedTransaction × Nat → Bool :=
    fun placed => (lookup placed.1.transaction.hash).isNone
  have hplaced : block.ranking.find? (fun ranked => (lookup ranked.transaction.hash).isNone) =
      (block.placedRanking.find? absent).map Prod.fst := by
    rw [← map_fst_placedRanking, List.find?_map]
    rfl
  have hleast (placed : RankedTransaction × Nat) :
      block.placedRanking.find? absent = some placed ↔ _ :=
    Traversal.find?_eq_some_iff_least block.pairwise_placedRanking
      fun a b (h : RanksBefore a b) => h.asymm
  constructor
  · rintro ⟨ranked, hranked, rfl⟩
    rw [hplaced, Option.map_eq_some_iff] at hranked
    obtain ⟨⟨_, i⟩, hfind, rfl⟩ := hranked
    obtain ⟨hmem, habsent, hfirst⟩ := (hleast _).mp hfind
    obtain ⟨hplace, hfee⟩ := mem_placedRanking.mp hmem
    refine ⟨i, _, hplace, rfl, Option.isNone_iff_eq_none.mp habsent, ?_⟩
    intro j other hother hmissing
    have hothermem : ((⟨block.fee other, other⟩, j) : RankedTransaction × Nat) ∈
        block.placedRanking := mem_placedRanking.mpr ⟨hother, rfl⟩
    rcases hfirst _ hothermem (Option.isNone_iff_eq_none.mpr hmissing) with heq | hbefore
    · obtain ⟨rfl, rfl⟩ := Prod.mk.inj heq
      exact .inr ⟨rfl, Nat.le_refl _⟩
    · rcases hbefore with hlt | ⟨heq, hlt⟩
      · exact .inl (hfee ▸ hlt)
      · exact .inr ⟨hfee ▸ heq, Nat.le_of_lt hlt⟩
  · rintro ⟨i, transaction, hplace, rfl, hmissing, hfirst⟩
    refine ⟨⟨block.fee transaction, transaction⟩, ?_, rfl⟩
    rw [hplaced]
    have hfind : block.placedRanking.find? absent =
        some (⟨block.fee transaction, transaction⟩, i) := by
      refine (hleast _).mpr ⟨mem_placedRanking.mpr ⟨hplace, rfl⟩,
        Option.isNone_iff_eq_none.mpr hmissing, ?_⟩
      rintro ⟨⟨fee, other⟩, j⟩ hother habsent
      obtain ⟨hothermem, hfee⟩ := mem_placedRanking.mp hother
      have hfee : fee = block.fee other := hfee
      subst hfee
      have habsent : lookup other.hash = none := Option.isNone_iff_eq_none.mp habsent
      rcases hfirst j other hothermem habsent with hlt | ⟨heq, hle⟩
      · exact .inr (.inl hlt)
      · rcases Nat.lt_or_eq_of_le hle with hlt | rfl
        · exact .inr (.inr ⟨heq, hlt⟩)
        · have hsame : transaction = other := Option.some.inj (hplace.symm.trans hothermem)
          exact .inl (by rw [hsame])
    rw [hfind]
    rfl

/-- The priority fees of a block fail exactly at its first absent receipt. A block without
transactions needs none. -/
theorem result_rewards_eq_error {receiptGas : Hash → Option Gas} {percentiles : List Binary64}
    {missing : AbsentReceipt} :
    (block.rewards percentiles receiptGas).result = .error missing ↔
      missing.block = block.header.number ∧
        block.FirstAbsent receiptGas missing.transaction := by
  unfold rewards
  split
  · next hempty =>
      constructor
      · intro h
        cases h
      · rintro ⟨_, i, transaction, hplace, _⟩
        rw [hempty] at hplace
        cases hplace
  · rw [result_rewardWalk_eq_error, ← find?_ranking_iff]
    constructor
    · rintro ⟨ranked, hfind, rfl⟩
      exact ⟨rfl, ranked, hfind, rfl⟩
    · rintro ⟨hblock, ranked, hfind, hhash⟩
      exact ⟨ranked, hfind, by rw [hhash, ← hblock]⟩

/-- There is a first absent receipt if there is an absent one at all. -/
theorem exists_firstAbsent {α : Type} {lookup : Hash → Option α} :
    (∃ hash, block.FirstAbsent lookup hash) ↔
      ∃ transaction ∈ block.transactions, lookup transaction.hash = none := by
  constructor
  · rintro ⟨_, i, transaction, hplace, rfl, hmissing, _⟩
    exact ⟨transaction, List.mem_of_getElem? hplace, hmissing⟩
  · rintro ⟨transaction, hmem, hmissing⟩
    have hsome : (block.ranking.find?
        fun ranked => (lookup ranked.transaction.hash).isNone).isSome := by
      rw [List.find?_isSome]
      exact ⟨⟨block.fee transaction, transaction⟩, mem_ranking.mpr ⟨hmem, rfl⟩,
        Option.isNone_iff_eq_none.mpr hmissing⟩
    obtain ⟨ranked, hfind⟩ := Option.isSome_iff_exists.mp hsome
    exact ⟨ranked.transaction.hash, find?_ranking_iff.mp ⟨ranked, hfind, rfl⟩⟩

/-- Whatever the percentiles, the fees of a block exist exactly if no receipt is absent. -/
theorem exists_result_rewards_eq_error_iff {receiptGas : Hash → Option Gas}
    (percentiles : List Binary64) :
    (∃ missing, (block.rewards percentiles receiptGas).result = .error missing) ↔
      ∃ transaction ∈ block.transactions, receiptGas transaction.hash = none := by
  rw [← exists_firstAbsent]
  constructor
  · rintro ⟨missing, h⟩
    exact ⟨missing.transaction, (result_rewards_eq_error.mp h).2⟩
  · rintro ⟨hash, h⟩
    exact ⟨⟨block.header.number, hash⟩, result_rewards_eq_error.mpr ⟨rfl, h⟩⟩

end Block

end FeeWindow
