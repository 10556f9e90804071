import FeeWindow.Proofs.History.Computation

/-!
How the computation of a fee history ends. The count of blocks is judged before the percentiles,
the request before the chain, and the receipts come last: of all blocks that miss one the lowest
is named, with its transaction that ranks first. Without percentiles no receipt is looked up.
-/

namespace FeeWindow

/-- Whether every transaction of a block has a receipt. -/
def Block.Receipted (block : Block) (store : ChainStore) : Prop :=
  ∀ transaction ∈ block.transactions, (store.receipt? transaction.hash).isSome = true

instance (block : Block) (store : ChainStore) : Decidable (block.Receipted store) :=
  inferInstanceAs (Decidable (∀ transaction ∈ block.transactions, _))

/-- The absent receipt that is met first from `oldest` to `newest`: that of the lowest block
which misses one, for the transaction without receipt that ranks first there. -/
def ChainStore.FirstAbsent (store : ChainStore) (oldest newest : BlockNumber)
    (missing : AbsentReceipt) : Prop :=
  ∃ block, store.block? missing.block = some block ∧
    oldest ≤ missing.block ∧ missing.block ≤ newest ∧
    block.FirstAbsent store.receipt? missing.transaction ∧
    ∀ number lower, oldest ≤ number → number < missing.block →
      store.block? number = some lower → lower.Receipted store

section Receipts

variable {store : ChainStore} {block : Block} {percentiles : List Binary64}

theorem Block.not_receipted_iff :
    ¬ block.Receipted store ↔ ∃ hash, block.FirstAbsent store.receipt? hash := by
  rw [Block.exists_firstAbsent]
  simp only [Block.Receipted, not_forall, Option.not_isSome_iff_eq_none, exists_prop]

theorem Block.fails_result_rewards :
    Traversal.fails (block.rewards percentiles
        fun hash => (store.receipt? hash).map Receipt.gasUsed).result = true ↔
      ¬ block.Receipted store := by
  rw [Traversal.fails_iff, Block.exists_result_rewards_eq_error_iff]
  simp only [Option.map_eq_none_iff, Block.Receipted, not_forall, Option.not_isSome_iff_eq_none,
    exists_prop]

namespace Window

variable {window : Window}

/-- The priority fees of a window fail at the absent receipt that is met first. -/
theorem rewards_eq_error_iff (percentiles : List Binary64) {missing : AbsentReceipt} :
    window.rewards store.view percentiles = .error missing ↔
      store.FirstAbsent window.oldest window.newest missing := by
  have hleast (block : Block) := Traversal.find?_eq_some_iff_least
    (p := fun block => Traversal.fails (block.rewards percentiles
      fun hash => (store.receipt? hash).map Receipt.gasUsed).result)
    (a := block) (window.pairwise_blocks store) fun a b => Nat.lt_asymm
  simp only [Block.fails_result_rewards] at hleast
  unfold rewards
  rw [Traversal.mapM_eq_error_iff]
  constructor
  · rintro ⟨block, hfind, hfail⟩
    obtain ⟨hmem, _, hlowest⟩ := (hleast block).mp hfind
    obtain ⟨hlow, hhigh, hstored⟩ := mem_blocks.mp hmem
    obtain ⟨hnumber, hfirst⟩ := Block.result_rewards_eq_error.mp hfail
    rw [← hnumber] at hlow hhigh hstored
    refine ⟨block, hstored, hlow, hhigh, Block.firstAbsent_map.mp hfirst, ?_⟩
    intro number lower hoLow hlt hlower
    by_contra hmissing
    have hkey := store.number_of_block hlower
    have hlowerHigh : number ≤ window.newest := Nat.le_trans (Nat.le_of_lt hlt) hhigh
    have hlowerMem := mem_blocks_of_stored hoLow hlowerHigh hlower
    have hlt : number.val < missing.block.val := hlt
    rcases hlowest lower hlowerMem hmissing with rfl | habove
    · rw [hnumber, hkey] at hlt
      omega
    · have habove : block.header.number.val < lower.header.number.val := habove
      rw [hkey, ← hnumber] at habove
      omega
  · rintro ⟨block, hstored, hlow, hhigh, hfirst, hlower⟩
    have hnumber := store.number_of_block hstored
    refine ⟨block, (hleast block).mpr ⟨?_, ?_, ?_⟩,
      Block.result_rewards_eq_error.mpr ⟨hnumber.symm, Block.firstAbsent_map.mpr hfirst⟩⟩
    · exact mem_blocks_of_stored hlow hhigh hstored
    · exact Block.not_receipted_iff.mpr ⟨missing.transaction, hfirst⟩
    · intro other hother hmissing
      obtain ⟨hotherLow, _, hotherStored⟩ := mem_blocks.mp hother
      rcases Nat.lt_trichotomy other.header.number.val missing.block.val with hlt | heq | hgt
      · exact absurd (hlower _ other hotherLow hlt hotherStored) hmissing
      · rw [Amount.ext heq, hstored] at hotherStored
        exact .inl (Option.some.inj hotherStored).symm
      · rw [← hnumber] at hgt
        exact .inr hgt

theorem rewardsFor_eq_error_iff {asked : Option (List Binary64)} {missing : AbsentReceipt} :
    window.rewardsFor store.view asked = .error missing ↔
      asked.isSome = true ∧ store.FirstAbsent window.oldest window.newest missing := by
  cases asked with
  | none => exact ⟨fun h => (by cases h), fun h => (by cases h.1)⟩
  | some percentiles =>
      rw [← rewards_eq_error_iff (sortedPercentiles percentiles)]
      simp only [rewardsFor, Option.isSome_some, true_and]
      cases window.rewards store.view (sortedPercentiles percentiles) with
      | error e => simp only [Except.map, Except.error.injEq]
      | ok rows => exact ⟨fun h => (by cases h), fun h => (by cases h)⟩

theorem exists_rewardsFor_eq_ok_iff {asked : Option (List Binary64)} :
    (∃ rewards, window.rewardsFor store.view asked = .ok rewards) ↔
      (asked.isSome = true → ∀ block ∈ window.blocks store.view, block.Receipted store) := by
  constructor
  · rintro ⟨rewards, hrewards⟩ hasked block hmem
    by_contra hmissing
    obtain ⟨percentiles, rfl⟩ := Option.isSome_iff_exists.mp hasked
    obtain ⟨rows, hrows, _⟩ := rewardsFor_some_eq_ok.mp hrewards
    obtain ⟨i, hi⟩ := List.mem_iff_getElem?.mp hmem
    obtain ⟨row, _, hrow⟩ := Traversal.getElem?_of_mapM_eq_ok hrows hi
    obtain ⟨missing, hfail⟩ := Traversal.fails_iff.mp (Block.fails_result_rewards.mpr hmissing)
    have hboth : Except.ok row = Except.error missing := hrow.symm.trans hfail
    cases hboth
  · intro hall
    cases hrewards : window.rewardsFor store.view asked with
    | ok rewards => exact ⟨rewards, rfl⟩
    | error missing =>
        obtain ⟨hasked, block, hstored, hlow, hhigh, hfirst, _⟩ :=
          rewardsFor_eq_error_iff.mp hrewards
        have hmissing := Block.not_receipted_iff.mpr ⟨missing.transaction, hfirst⟩
        exact absurd (hall hasked block (mem_blocks_of_stored hlow hhigh hstored)) hmissing

theorem forall_mem_blocks_iff {P : Block → Prop} :
    (∀ block ∈ window.blocks store.view, P block) ↔ ∀ number block,
      window.oldest ≤ number → number ≤ window.newest → store.block? number = some block →
        P block := by
  constructor
  · intro h number block hlow hhigh hstored
    exact h block (mem_blocks_of_stored hlow hhigh hstored)
  · intro h block hmem
    obtain ⟨hlow, hhigh, hstored⟩ := mem_blocks.mp hmem
    exact h _ block hlow hhigh hstored

end Window

end Receipts

namespace History

theorem exists_compute_eq_ofWindow {store : ChainStore} (schedule : FeeSchedule)
    {request : Request} (hwell : request.WellFormed) (hhead : request.highestBlock ≤ store.head)
    (hall : request.percentiles.isSome = true →
      ∀ block ∈ request.window.blocks store.view, block.Receipted store) :
    ∃ rewards, compute store.view schedule request =
      .ok (ofWindow request.window store.view schedule rewards) := by
  obtain ⟨rewards, hrewards⟩ := Window.exists_rewardsFor_eq_ok_iff.mpr hall
  exact ⟨rewards, compute_eq_ok_iff.mpr ⟨hwell, hhead, rewards, hrewards, rfl⟩⟩

/-- Every computation ends in exactly one of five ways, and each has its exact condition on the
request, the head and the receipts. -/
theorem compute_outcome (store : ChainStore) (schedule : FeeSchedule) (request : Request) :
    (∀ count, compute store.view schedule request =
        .error (.invalidRequest (.blockCountOutOfRange count)) ↔
      ¬ request.CountInRange ∧ count = request.blockCount) ∧
    (∀ p, compute store.view schedule request = .error (.invalidRequest (.invalidPercentile p)) ↔
      request.CountInRange ∧ request.FirstInvalid p) ∧
    (Binary64.signedZero true).IsPercentage ∧
    (∀ requested head, compute store.view schedule request =
        .error (.invalidRequest (.afterChainHead requested head)) ↔
      request.WellFormed ∧ store.head < request.highestBlock ∧
        requested = request.highestBlock ∧ head = store.head) ∧
    (∀ missing, compute store.view schedule request = .error (.inconsistent missing) ↔
      request.WellFormed ∧ request.highestBlock ≤ store.head ∧
        request.percentiles.isSome = true ∧
        store.FirstAbsent request.window.oldest request.highestBlock missing) ∧
    ((∃ history, compute store.view schedule request = .ok history) ↔
      request.WellFormed ∧ request.highestBlock ≤ store.head ∧
        (request.percentiles.isSome = true → ∀ number block,
          request.window.oldest ≤ number → number ≤ request.highestBlock →
            store.block? number = some block → block.Receipted store)) ∧
    (request.percentiles = none → ∀ receipts,
      compute { store.view with receipt? := receipts } schedule request =
        compute store.view schedule request) := by
  refine ⟨?_, ?_, by decide, ?_, ?_, ?_, ?_⟩
  · intro count
    rw [compute_eq_invalidRequest_iff, Request.validate_eq_error_iff]
    simp
  · intro p
    rw [compute_eq_invalidRequest_iff, Request.validate_eq_error_iff]
    simp
  · intro requested head
    rw [compute_eq_invalidRequest_iff, Request.validate_eq_error_iff]
    simp only [reduceCtorEq, and_false, exists_false, or_false, false_or,
      RequestError.afterChainHead.injEq]
    exact Iff.rfl
  · intro missing
    rw [compute_eq_inconsistent_iff, Window.rewardsFor_eq_error_iff]
    rfl
  · have hblocks : (∀ block ∈ request.window.blocks store.view, block.Receipted store) ↔ _ :=
      Window.forall_mem_blocks_iff
    constructor
    · rintro ⟨history, h⟩
      obtain ⟨hwell, hhead, rewards, hrewards, _⟩ := compute_eq_ok_iff.mp h
      refine ⟨hwell, hhead, ?_⟩
      intro hasked
      exact hblocks.mp (Window.exists_rewardsFor_eq_ok_iff.mp ⟨rewards, hrewards⟩ hasked)
    · rintro ⟨hwell, hhead, hall⟩
      obtain ⟨rewards, hcompute⟩ := exists_compute_eq_ofWindow schedule hwell hhead
        fun hasked => hblocks.mpr (hall hasked)
      exact ⟨_, hcompute⟩
  · intro hnone receipts
    unfold compute
    rw [hnone]
    rfl

end History

end FeeWindow
