import FeeWindow.Amount.Bytes
import FeeWindow.Proofs.History.Outcome

/-!
The lists of a fee history are aligned. One pass over the headers gives base fees and shares of
gas, another one over the blocks gives the priority fees, and gaps in the chain are skipped in
both: the entries at one position of all lists belong to one stored block of the window. One base
fee follows them, that of the block after the window.
-/

namespace FeeWindow

/-- The numbers from `oldest` to `newest` that have a stored block, in ascending order. -/
structure ChainStore.StoredNumbers (store : ChainStore) (oldest newest : BlockNumber)
    (numbers : List BlockNumber) : Prop where
  ascending : numbers.Pairwise (· < ·)
  mem_iff : ∀ n, n ∈ numbers ↔ oldest ≤ n ∧ n ≤ newest ∧ (store.block? n).isSome = true

/-- The lists of a history have one entry for each number, which describes the block stored
there, and the base fees have one entry more. -/
structure History.Aligned (history : History) (store : ChainStore)
    (percentiles : Option (List Binary64)) (numbers : List BlockNumber) : Prop where
  length_gasUsedRatios : history.gasUsedRatios.length = numbers.length
  length_baseFees : history.baseFees.length = numbers.length + 1
  isSome_rewards : history.rewards.isSome = percentiles.isSome
  length_rewards : ∀ rewards, history.rewards = some rewards → rewards.length = numbers.length
  entry : ∀ (i : Nat) (n : BlockNumber), numbers[i]? = some n →
    ∃ block, store.block? n = some block ∧
      history.baseFees[i]? = some (block.header.baseFee.getD Amount.zero) ∧
      history.gasUsedRatios[i]? = some block.header.gasUsedRatio ∧
      ∀ asked rewards, percentiles = some asked → history.rewards = some rewards →
        ∃ row, rewards[i]? = some row ∧
          (block.rewards (sortedPercentiles asked)
            fun hash => (store.receipt? hash).map Receipt.gasUsed).result = .ok row

/-- The last base fee of a history is that of the block after `newest`: the stored one, else the
one projected from the last of the numbers, else zero. -/
structure History.EndsWithNextFee (history : History) (store : ChainStore)
    (schedule : FeeSchedule) (newest : BlockNumber) (numbers : List BlockNumber) : Prop where
  stored : ∀ (next : BlockNumber) (header : BlockHeader), next.val = newest.val + 1 →
    store.header? next = some header →
      history.baseFees.getLast? = some (header.baseFee.getD Amount.zero)
  projected : ∀ (next last : BlockNumber) (market : FeeMarket) (parent : BlockHeader),
    next.val = newest.val + 1 → store.header? next = none →
    schedule.marketAt next = some market → numbers.getLast? = some last →
    store.header? last = some parent →
      history.baseFees.getLast? = some (market.baseFee next (parent.baseFee.getD Amount.zero)
        parent.gasUsed (market.target parent.gasLimit))
  unprojected : ∀ next : BlockNumber, next.val = newest.val + 1 → store.header? next = none →
    schedule.marketAt next = none ∨ numbers = [] →
      history.baseFees.getLast? = some Amount.zero
  at_end : newest = Amount.largest → history.baseFees.getLast? = some Amount.zero

namespace Window

variable (window : Window) (store : ChainStore)

/-- The numbers under which the blocks of a window are stored. -/
def storedNumbers : List BlockNumber :=
  (window.blocks store.view).map fun block => block.header.number

theorem storedNumbers_spec :
    store.StoredNumbers window.oldest window.newest (window.storedNumbers store) where
  ascending := List.pairwise_map.mpr (window.pairwise_blocks store)
  mem_iff n := by
    unfold storedNumbers
    rw [List.mem_map, Option.isSome_iff_exists]
    constructor
    · rintro ⟨block, hblock, rfl⟩
      obtain ⟨hlow, hhigh, hstored⟩ := mem_blocks.mp hblock
      exact ⟨hlow, hhigh, block, hstored⟩
    · rintro ⟨hlow, hhigh, block, hstored⟩
      exact ⟨block, mem_blocks_of_stored hlow hhigh hstored, store.number_of_block hstored⟩

theorem length_storedNumbers :
    (window.storedNumbers store).length = (window.blocks store.view).length :=
  List.length_map _

variable {window store} in
theorem getElem?_storedNumbers {i : Nat} {n : BlockNumber}
    (h : (window.storedNumbers store)[i]? = some n) :
    ∃ block, (window.blocks store.view)[i]? = some block ∧ store.block? n = some block := by
  unfold storedNumbers at h
  rw [List.getElem?_map, Option.map_eq_some_iff] at h
  obtain ⟨block, hblock, rfl⟩ := h
  exact ⟨block, hblock, (mem_blocks.mp (List.mem_of_getElem? hblock)).2.2⟩

end Window

namespace History

variable {store : ChainStore} {schedule : FeeSchedule}

/-- The answer of a window is aligned with the stored numbers of the window. -/
theorem ofWindow_aligned (window : Window) (percentiles : Option (List Binary64))
    {rewards : Option (List (List GasPrice))}
    (h : window.rewardsFor store.view percentiles = .ok rewards) :
    (ofWindow window store.view schedule rewards).Aligned store percentiles
      (window.storedNumbers store) where
  length_gasUsedRatios := by
    rw [Window.length_storedNumbers]
    simp only [ofWindow, Window.headers_eq_map_blocks, List.length_map]
  length_baseFees := by
    rw [Window.length_storedNumbers, length_baseFees_ofWindow, Window.headers_eq_map_blocks,
      List.length_map]
  isSome_rewards := by
    cases percentiles with
    | none =>
        obtain rfl := Except.ok.inj h
        rfl
    | some asked =>
        obtain ⟨rows, _, rfl⟩ := Window.rewardsFor_some_eq_ok.mp h
        rfl
  length_rewards := by
    intro rows hrows
    have hrows : rewards = some rows := hrows
    cases percentiles with
    | none =>
        obtain rfl := Except.ok.inj h
        cases hrows
    | some asked =>
        obtain ⟨rows', hrun, rfl⟩ := Window.rewardsFor_some_eq_ok.mp h
        obtain rfl := Option.some.inj hrows
        rw [Window.length_storedNumbers]
        exact Traversal.length_of_mapM_eq_ok hrun
  entry := by
    intro i n hn
    obtain ⟨block, hblock, hstored⟩ := Window.getElem?_storedNumbers hn
    have hheader : (window.headers store.view)[i]? = some block.header := by
      rw [Window.headers_eq_map_blocks, List.getElem?_map, hblock]
      rfl
    refine ⟨block, hstored, getElem?_baseFees_ofWindow hheader, ?_, ?_⟩
    · simp only [ofWindow, List.getElem?_map, hheader]
      rfl
    · rintro asked rows rfl hrows
      have hrows : rewards = some rows := hrows
      obtain ⟨rows', hrun, rfl⟩ := Window.rewardsFor_some_eq_ok.mp h
      obtain rfl := Option.some.inj hrows
      exact Traversal.getElem?_of_mapM_eq_ok hrun hblock

/-- The answer of a window ends with the base fee of the next block. -/
theorem ofWindow_endsWithNextFee (window : Window)
    (rewards : Option (List (List GasPrice))) :
    (ofWindow window store.view schedule rewards).EndsWithNextFee store schedule window.newest
      (window.storedNumbers store) where
  stored := by
    intro next header hnext hheader
    rw [getLast?_baseFees_ofWindow, Window.nextBaseFee_of_stored hnext hheader]
    rfl
  projected := by
    intro next last market parent hnext habsent hmarket hlast hparent
    have hheaders : (window.headers store.view).getLast? = some parent := by
      unfold Window.storedNumbers at hlast
      rw [List.getLast?_map, Option.map_eq_some_iff] at hlast
      obtain ⟨block, hblock, rfl⟩ := hlast
      have hstored := (Window.mem_blocks.mp (List.mem_of_getLast? hblock)).2.2
      rw [ChainStore.header?_of_block? hstored] at hparent
      rw [Window.headers_eq_map_blocks, List.getLast?_map, hblock]
      exact hparent
    rw [getLast?_baseFees_ofWindow, Window.nextBaseFee_of_absent hnext habsent, hmarket, hheaders]
    rfl
  unprojected := by
    intro next hnext habsent hreason
    rw [getLast?_baseFees_ofWindow, Window.nextBaseFee_of_absent hnext habsent]
    rcases hreason with hmarket | hempty
    · rw [hmarket]
    · have hheaders : window.headers store.view = [] := by
        unfold Window.storedNumbers at hempty
        rw [Window.headers_eq_map_blocks, List.map_eq_nil_iff.mp hempty]
        rfl
      rw [hheaders]
      cases schedule.marketAt next <;> rfl
  at_end := by
    intro hend
    rw [getLast?_baseFees_ofWindow, Window.nextBaseFee_of_no_next hend]

/-- The hash that a small number spells. -/
def sampleHash (n : UInt64) : Hash := (Amount.ofUInt64 n).toBytes

/-- A chain with block 3, which has no base fee, a gap at block 4, and block 5. -/
def gapStore : ChainStore :=
  (ChainStore.empty (.ofUInt64 4)).applyAll [
    .block ⟨⟨.ofUInt64 3, none, .ofUInt64 10, .ofUInt64 40, sampleHash 3⟩,
      [⟨sampleHash 13, .flat (.ofUInt64 7)⟩]⟩,
    .block ⟨⟨.ofUInt64 5, some (.ofUInt64 8), .ofUInt64 30, .ofUInt64 40, sampleHash 5⟩,
      [⟨sampleHash 25, .flat (.ofUInt64 10)⟩,
        ⟨sampleHash 15, .capped (.ofUInt64 9) (.ofUInt64 4)⟩]⟩,
    .head (.ofUInt64 5),
    .receipt ⟨sampleHash 13, .ofUInt64 10⟩,
    .receipt ⟨sampleHash 15, .ofUInt64 20⟩,
    .receipt ⟨sampleHash 25, .ofUInt64 10⟩]

/-- The default market from block 4 on. -/
def gapSchedule : FeeSchedule := ⟨some (FeeMarket.startingAt (.ofUInt64 4))⟩

def gapRequest : Request := ⟨3, .ofUInt64 5, some [Binary64.hundred, Binary64.zero]⟩

/-- Whatever blocks are missing, an answer starts at the requested distance below the newest
block or at genesis, has one entry in each list for every stored block of the window, in
ascending order, and ends with the base fee of the next block. -/
theorem compute_aligned {request : Request} {history : History}
    (h : compute store.view schedule request = .ok history) :
    history.oldestBlock.val = request.highestBlock.val - (request.blockCount.toNat - 1) ∧
    ∃ numbers,
      store.StoredNumbers history.oldestBlock request.highestBlock numbers ∧
      numbers.length ≤ min request.blockCount.toNat (request.highestBlock.val + 1) ∧
      min request.blockCount.toNat (request.highestBlock.val + 1) ≤ 1024 ∧
      history.Aligned store request.percentiles numbers ∧
      history.EndsWithNextFee store schedule request.highestBlock numbers := by
  obtain ⟨⟨⟨hlow, hhigh⟩, _⟩, _, rewards, hrewards, rfl⟩ := compute_eq_ok_iff.mp h
  have hsize := Window.size_ending request.blockCount request.highestBlock
  have hle := request.window.length_blocks_le store
  have hlength := request.window.length_storedNumbers store
  unfold Request.window at hle hlength
  refine ⟨Window.val_oldest_ending _ _, request.window.storedNumbers store,
    request.window.storedNumbers_spec store, ?_, by omega,
    ofWindow_aligned _ _ hrewards, ofWindow_endsWithNextFee _ _⟩
  unfold Request.window
  omega

theorem compute_aligned_across_gap :
    ∃ history, compute gapStore.view gapSchedule gapRequest = .ok history ∧
      history.baseFees = [.ofUInt64 0, .ofUInt64 8, .ofUInt64 9] ∧
      history.oldestBlock.val = 5 - (3 - 1) ∧
      ∃ numbers, gapStore.StoredNumbers history.oldestBlock (.ofUInt64 5) numbers ∧
        numbers.length ≤ min 3 (5 + 1) ∧ min 3 (5 + 1) ≤ 1024 ∧
        history.Aligned gapStore (some [Binary64.hundred, Binary64.zero]) numbers ∧
        history.EndsWithNextFee gapStore gapSchedule (.ofUInt64 5) numbers := by
  obtain ⟨rewards, hcompute⟩ : ∃ rewards, compute gapStore.view gapSchedule gapRequest =
      .ok (ofWindow gapRequest.window gapStore.view gapSchedule rewards) :=
    exists_compute_eq_ofWindow gapSchedule (by decide +kernel) (by decide +kernel)
      (by decide +kernel)
  have hfees : (ofWindow gapRequest.window gapStore.view gapSchedule none).baseFees =
      [.ofUInt64 0, .ofUInt64 8, .ofUInt64 9] := by decide +kernel
  exact ⟨_, hcompute, hfees, compute_aligned hcompute⟩

end History

end FeeWindow
