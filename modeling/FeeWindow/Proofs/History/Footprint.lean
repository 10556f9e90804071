import FeeWindow.Proofs.History.Alignment

/-!
The part of a chain that an answer hangs on: the headers of the window and of the block after it,
and, where percentiles are given, the blocks of the window and the receipts of their transactions.
Two chains with the same such part answer alike, so nothing that is stored elsewhere, before or
after the request, shows in an answer.
-/

namespace FeeWindow

namespace ChainView

/-- The headers from `oldest` to `newest` are the same in two chains, and so is the next one. -/
structure SameHeaders (chain other : ChainView) (oldest newest : BlockNumber) : Prop where
  inside : ∀ n, oldest ≤ n → n ≤ newest → chain.header? n = other.header? n
  next : ∀ n : BlockNumber, n.val = newest.val + 1 → chain.header? n = other.header? n

/-- The blocks from `oldest` to `newest` are the same in two chains, and so are the receipts of
the transactions in these blocks. -/
structure SameBlocks (chain other : ChainView) (oldest newest : BlockNumber) : Prop where
  block : ∀ n, oldest ≤ n → n ≤ newest → chain.block? n = other.block? n
  receipt : ∀ n block, oldest ≤ n → n ≤ newest → chain.block? n = some block →
    ∀ transaction ∈ block.transactions,
      chain.receipt? transaction.hash = other.receipt? transaction.hash

end ChainView

namespace Window

variable {window : Window} {chain other : ChainView}

theorem headers_congr (h : chain.SameHeaders other window.oldest window.newest) :
    window.headers chain = window.headers other := by
  apply List.filterMap_congr
  intro n hn
  obtain ⟨hlow, hhigh⟩ := mem_numbers.mp hn
  exact h.inside n hlow hhigh

theorem nextBaseFee_congr_of_sameHeaders (schedule : FeeSchedule)
    (h : chain.SameHeaders other window.oldest window.newest) :
    window.nextBaseFee chain schedule = window.nextBaseFee other schedule := by
  unfold Window.nextBaseFee
  cases hnext : window.next? with
  | none => rfl
  | some next =>
      have hheader : chain.header? next = other.header? next :=
        h.next next (next?_eq_some.mp hnext)
      simp only [FeeWindow.nextBaseFee, hheader, headers_congr h]

theorem blocks_congr (h : chain.SameBlocks other window.oldest window.newest) :
    window.blocks chain = window.blocks other := by
  apply List.filterMap_congr
  intro n hn
  obtain ⟨hlow, hhigh⟩ := mem_numbers.mp hn
  exact h.block n hlow hhigh

theorem rewardsFor_congr_of_sameBlocks (asked : Option (List Binary64))
    (h : chain.SameBlocks other window.oldest window.newest) :
    window.rewardsFor chain asked = window.rewardsFor other asked := by
  apply rewardsFor_congr (blocks_congr h)
  intro block hblock
  obtain ⟨n, hn, hfound⟩ := List.mem_filterMap.mp hblock
  obtain ⟨hlow, hhigh⟩ := mem_numbers.mp hn
  exact h.receipt n block hlow hhigh hfound

end Window

/-- An update that keeps off the blocks from `oldest` to `newest`, the block after them and the
receipts of their transactions. The head may move, but not below `newest`. -/
def ChainUpdate.KeepsOff (store : ChainStore) (oldest newest : BlockNumber) :
    ChainUpdate → Prop
  | .head number => newest ≤ number
  | .block added => added.header.number < oldest ∨ newest.val + 1 < added.header.number.val
  | .receipt added => ∀ n block, oldest ≤ n → n ≤ newest → store.block? n = some block →
      ∀ transaction ∈ block.transactions, transaction.hash ≠ added.transactionHash

namespace ChainStore

variable {store current : ChainStore} {oldest newest : BlockNumber}

/-- A store has kept the part of another one that answers up to `newest` hang on. -/
structure Keeps (store current : ChainStore) (oldest newest : BlockNumber) : Prop where
  reaches : newest ≤ current.head
  block : ∀ n, oldest ≤ n → n.val ≤ newest.val + 1 → current.block? n = store.block? n
  receipt : ∀ n block, oldest ≤ n → n ≤ newest → store.block? n = some block →
    ∀ transaction ∈ block.transactions,
      current.receipt? transaction.hash = store.receipt? transaction.hash

theorem Keeps.refl (h : newest ≤ store.head) : store.Keeps store oldest newest :=
  ⟨h, fun _ _ _ => rfl, fun _ _ _ _ _ _ _ => rfl⟩

theorem Keeps.apply (h : store.Keeps current oldest newest) {update : ChainUpdate}
    (hoff : update.KeepsOff store oldest newest) :
    store.Keeps (current.apply update) oldest newest := by
  cases update with
  | head number => exact ⟨hoff, h.block, h.receipt⟩
  | block block =>
      refine ⟨h.reaches, ?_, h.receipt⟩
      intro n hlow hhigh
      have hother : block.header.number ≠ n := by
        rintro rfl
        have hlow : oldest.val ≤ block.header.number.val := hlow
        rcases hoff with hbelow | habove
        · have hbelow : block.header.number.val < oldest.val := hbelow
          omega
        · omega
      rw [ChainStore.apply, block?_insertBlock, if_neg hother]
      exact h.block n hlow hhigh
  | receipt receipt =>
      refine ⟨h.reaches, h.block, ?_⟩
      intro n block hlow hhigh hstored transaction hmem
      -- `KeepsOff` speaks of the blocks at the start, and these are still there.
      have hother : receipt.transactionHash ≠ transaction.hash :=
        (hoff n block hlow hhigh hstored transaction hmem).symm
      rw [ChainStore.apply, receipt?_insertReceipt, if_neg hother]
      exact h.receipt n block hlow hhigh hstored transaction hmem

theorem Keeps.applyAll (h : store.Keeps current oldest newest) (updates : List ChainUpdate)
    (hoff : ∀ update ∈ updates, update.KeepsOff store oldest newest) :
    store.Keeps (current.applyAll updates) oldest newest := by
  induction updates generalizing current with
  | nil => exact h
  | cons update rest ih =>
      have hfirst := h.apply (hoff update List.mem_cons_self)
      exact ih hfirst fun other hother => hoff other (List.mem_cons_of_mem update hother)

theorem Keeps.sameHeaders (h : store.Keeps current oldest newest) (hends : oldest ≤ newest) :
    current.view.SameHeaders store.view oldest newest := by
  have hends : oldest.val ≤ newest.val := hends
  have hheader (n : BlockNumber) (hlow : oldest ≤ n) (hhigh : n.val ≤ newest.val + 1) :
      current.header? n = store.header? n := by
    unfold header?
    rw [h.block n hlow hhigh]
  constructor
  · intro n hlow hhigh
    exact hheader n hlow (Nat.le_succ_of_le hhigh)
  · intro n hn
    exact hheader n (show oldest.val ≤ n.val by omega) (Nat.le_of_eq hn)

theorem Keeps.sameBlocks (h : store.Keeps current oldest newest) :
    current.view.SameBlocks store.view oldest newest := by
  constructor
  · intro n hlow hhigh
    exact h.block n hlow (Nat.le_succ_of_le hhigh)
  · intro n block hlow hhigh hfound
    have hstored : store.block? n = some block := by
      rw [← h.block n hlow (Nat.le_succ_of_le hhigh)]
      exact hfound
    exact h.receipt n block hlow hhigh hstored

end ChainStore

namespace History

variable {schedule : FeeSchedule} {request : Request}

theorem compute_eq_of_same {chain other : ChainView} (hhead : request.highestBlock ≤ chain.head)
    (hother : request.highestBlock ≤ other.head)
    (hheaders : chain.SameHeaders other request.window.oldest request.highestBlock)
    (hblocks : request.percentiles = none ∨
      chain.SameBlocks other request.window.oldest request.highestBlock) :
    compute chain schedule request = compute other schedule request := by
  apply compute_congr_of_reached hhead hother (Window.headers_congr hheaders)
    (Window.nextBaseFee_congr_of_sameHeaders schedule hheaders)
  rcases hblocks with hnone | hblocks
  · rw [hnone]
    rfl
  · exact Window.rewardsFor_congr_of_sameBlocks request.percentiles hblocks

/-- Growth of the sample chain: a block below the window of the sample request, one two places
above it, a receipt for neither of the blocks in it, and a later head. -/
def growth : List ChainUpdate := [
  .head (.ofUInt64 9),
  .block ⟨⟨.ofUInt64 2, none, .ofUInt64 1, .ofUInt64 2, sampleHash 2⟩, []⟩,
  .block ⟨⟨.ofUInt64 7, none, .ofUInt64 1, .ofUInt64 2, sampleHash 7⟩,
    [⟨sampleHash 17, .flat (.ofUInt64 3)⟩]⟩,
  .receipt ⟨sampleHash 17, .ofUInt64 1⟩]

/-- The sample chain with nothing but its headers up to block 6. -/
def headersOnly : ChainView where
  head := Amount.largest
  header? n := if n ≤ .ofUInt64 6 then gapStore.header? n else none
  block? _ := none
  receipt? _ := none

/-- Chains that reach the newest block and agree on the headers of the window and on the next one
answer alike if no percentiles are given, and always if they agree as well on the blocks of the
window and on the receipts there. So a chain answers the same after any updates elsewhere. -/
theorem compute_footprint (schedule : FeeSchedule) (request : Request) :
    (∀ chain other : ChainView,
      request.highestBlock ≤ chain.head → request.highestBlock ≤ other.head →
      chain.SameHeaders other request.window.oldest request.highestBlock →
      request.percentiles = none ∨
        chain.SameBlocks other request.window.oldest request.highestBlock →
      compute chain schedule request = compute other schedule request) ∧
    ∀ (store : ChainStore) (updates : List ChainUpdate),
      request.highestBlock ≤ store.head →
      (∀ update ∈ updates,
        update.KeepsOff store request.window.oldest request.highestBlock) →
      compute (store.applyAll updates).view schedule request =
        compute store.view schedule request := by
  constructor
  · intro chain other hhead hother hheaders hblocks
    exact compute_eq_of_same hhead hother hheaders hblocks
  · intro store updates hhead hoff
    have hkept := (ChainStore.Keeps.refl hhead).applyAll updates hoff
    exact compute_eq_of_same hkept.reaches hhead
      (hkept.sameHeaders request.window.oldest_le_newest) (.inr hkept.sameBlocks)

/-- The sample chain answers as before once it has grown, and without percentiles its headers
alone give the same answer. -/
theorem compute_footprint_of_growth :
    (∃ history, compute (gapStore.applyAll growth).view gapSchedule gapRequest = .ok history ∧
      history.baseFees = [.ofUInt64 0, .ofUInt64 8, .ofUInt64 9]) ∧
    compute headersOnly gapSchedule { gapRequest with percentiles := none } =
      compute gapStore.view gapSchedule { gapRequest with percentiles := none } := by
  constructor
  · have hoff : ∀ update ∈ growth,
        update.KeepsOff gapStore gapRequest.window.oldest gapRequest.highestBlock := by
      have hreceipt : ∀ block ∈ gapRequest.window.blocks gapStore.view,
          ∀ transaction ∈ block.transactions, transaction.hash ≠ sampleHash 17 := by
        decide +kernel
      have hbelow : (Amount.ofUInt64 2).val < gapRequest.window.oldest.val := by decide
      have habove : gapRequest.highestBlock.val + 1 < (Amount.ofUInt64 7).val := by decide
      have hreaches : gapRequest.highestBlock ≤ .ofUInt64 9 := by decide
      simp only [growth, List.forall_mem_cons]
      exact ⟨hreaches, .inl hbelow, .inr habove, Window.forall_mem_blocks_iff.mp hreceipt,
        List.forall_mem_nil _⟩
    have hsame := (compute_footprint gapSchedule gapRequest).2 gapStore growth (by decide) hoff
    obtain ⟨rewards, hcompute⟩ : ∃ rewards, compute gapStore.view gapSchedule gapRequest =
        .ok (ofWindow gapRequest.window gapStore.view gapSchedule rewards) :=
      exists_compute_eq_ofWindow gapSchedule (by decide +kernel) (by decide) (by decide +kernel)
    have hfees : (ofWindow gapRequest.window gapStore.view gapSchedule none).baseFees =
        [.ofUInt64 0, .ofUInt64 8, .ofUInt64 9] := by decide +kernel
    exact ⟨_, hsame.trans hcompute, hfees⟩
  · have hheaders : headersOnly.SameHeaders gapStore.view gapRequest.window.oldest
        gapRequest.highestBlock := by
      constructor
      · intro n _ hhigh
        have hhigh : n.val ≤ 5 := hhigh
        exact if_pos (show n.val ≤ 6 by omega)
      · intro n hn
        have hn : n.val = 5 + 1 := hn
        exact if_pos (show n.val ≤ 6 by omega)
    exact (compute_footprint gapSchedule { gapRequest with percentiles := none }).1 headersOnly
      gapStore.view (by decide +kernel) (by decide) hheaders (.inl rfl)

end History

end FeeWindow
