import FeeWindow.Proofs.History.Alignment

/-!
Projected and stored base fees agree. In a window without gaps whose blocks carry the fees that
the schedule derives from their parents, every base fee of the answer is one step of the schedule
after the one before it. The step to the block after the window is the same whether that block is
stored or its fee is projected, at every position of the schedule.
-/

namespace FeeWindow

/-- The base fee that a schedule gives a block after a parent with the given base fee: zero while
no market is in force. -/
def FeeSchedule.feeAfter (schedule : FeeSchedule) (number : BlockNumber) (parentFee : GasPrice)
    (parent : BlockHeader) : GasPrice :=
  match schedule.marketAt number with
  | none => Amount.zero
  | some market =>
      market.baseFee number parentFee parent.gasUsed (market.target parent.gasLimit)

namespace ChainStore

/-- Whether every block from `oldest` to `newest` is stored. -/
def Gapless (store : ChainStore) (oldest newest : BlockNumber) : Prop :=
  ∀ n, oldest ≤ n → n ≤ newest → (store.block? n).isSome = true

/-- Whether every stored block after one from `oldest` to `newest` carries the base fee that the
schedule gives it, an absent fee read as zero. -/
def FollowsSchedule (store : ChainStore) (schedule : FeeSchedule)
    (oldest newest : BlockNumber) : Prop :=
  ∀ (number next : BlockNumber) (parent header : BlockHeader),
    oldest ≤ number → number ≤ newest → next.val = number.val + 1 →
    store.header? number = some parent → store.header? next = some header →
      header.baseFee.getD Amount.zero =
        schedule.feeAfter next (parent.baseFee.getD Amount.zero) parent

end ChainStore

namespace Window

variable {window : Window} {store : ChainStore} {schedule : FeeSchedule}

/-- Gaps can be searched for along the window. -/
theorem gapless_iff : store.Gapless window.oldest window.newest ↔
    ∀ n ∈ window.numbers, (store.block? n).isSome = true := by
  constructor
  · intro h n hn
    obtain ⟨hlow, hhigh⟩ := mem_numbers.mp hn
    exact h n hlow hhigh
  · intro h n hlow hhigh
    exact h n (mem_numbers.mpr ⟨hlow, hhigh⟩)

/-- The fees that the schedule gives can be checked along the window. -/
theorem followsSchedule_iff : store.FollowsSchedule schedule window.oldest window.newest ↔
    ∀ n ∈ window.numbers, ∀ next ∈ n.succ?, ∀ parent ∈ store.header? n,
      ∀ header ∈ store.header? next, header.baseFee.getD Amount.zero =
        schedule.feeAfter next (parent.baseFee.getD Amount.zero) parent := by
  constructor
  · intro h n hn next hnext parent hparent header hheader
    obtain ⟨hlow, hhigh⟩ := mem_numbers.mp hn
    exact h n next parent header hlow hhigh (Amount.succ?_eq_some.mp hnext) hparent hheader
  · intro h n next parent header hlow hhigh hnext hparent hheader
    exact h n (mem_numbers.mpr ⟨hlow, hhigh⟩) next (Amount.succ?_eq_some.mpr hnext) parent
      hparent header hheader

theorem isSome_header?_of_gapless (h : store.Gapless window.oldest window.newest) :
    ∀ n ∈ window.numbers, (store.view.header? n).isSome = true := by
  intro n hn
  exact ChainStore.isSome_header?.trans (gapless_iff.mp h n hn)

theorem getElem?_headers_of_gapless (h : store.Gapless window.oldest window.newest) (i : Nat) :
    (window.headers store.view)[i]? = window.numbers[i]?.bind store.header? :=
  Traversal.getElem?_filterMap_of_isSome (isSome_header?_of_gapless h) i

theorem length_headers_of_gapless (h : store.Gapless window.oldest window.newest) :
    (window.headers store.view).length = window.size := by
  rw [← length_numbers]
  unfold headers
  rw [List.length_filterMap_eq_countP, List.countP_eq_length]
  exact isSome_header?_of_gapless h

/-- The base fee of the next block is one step after the newest block, stored or not. -/
theorem nextBaseFee_eq_feeAfter {next : BlockNumber} {last : BlockHeader}
    (hgapless : store.Gapless window.oldest window.newest)
    (hfollows : store.FollowsSchedule schedule window.oldest window.newest)
    (hnext : next.val = window.newest.val + 1)
    (hlast : store.header? window.newest = some last) :
    window.nextBaseFee store.view schedule =
      schedule.feeAfter next (last.baseFee.getD Amount.zero) last := by
  cases hstored : store.header? next with
  | some header =>
      rw [nextBaseFee_of_stored hnext hstored]
      exact hfollows window.newest next last header window.oldest_le_newest (Nat.le_refl _)
        hnext hlast hstored
  | none =>
      have hends : window.oldest.val ≤ window.newest.val := window.oldest_le_newest
      have hnewest : window.numbers[window.size - 1]? = some window.newest :=
        getElem?_numbers.mpr ⟨by unfold size; omega, Nat.le_refl _⟩
      have hheaders : (window.headers store.view).getLast? = some last := by
        rw [List.getLast?_eq_getElem?, length_headers_of_gapless hgapless,
          getElem?_headers_of_gapless hgapless, hnewest]
        exact hlast
      rw [nextBaseFee_of_absent hnext hstored, hheaders]
      unfold FeeSchedule.feeAfter
      cases schedule.marketAt next with
      | none => rfl
      | some market => rfl

end Window

namespace History

variable {store : ChainStore} {schedule : FeeSchedule}

theorem baseFees_ofWindow_step {window : Window} (rewards : Option (List (List GasPrice)))
    (hgapless : store.Gapless window.oldest window.newest)
    (hfollows : store.FollowsSchedule schedule window.oldest window.newest)
    {i : Nat} (number next : BlockNumber) (hnumber : number.val = window.oldest.val + i)
    (hhigh : number ≤ window.newest) (hnext : next.val = number.val + 1) :
    ∃ header fee, store.header? number = some header ∧
      (ofWindow window store.view schedule rewards).baseFees[i]? = some fee ∧
      (ofWindow window store.view schedule rewards).baseFees[i + 1]? =
        some (schedule.feeAfter next fee header) := by
  have hhigh' : number.val ≤ window.newest.val := hhigh
  have hat {j : Nat} {n : BlockNumber} (hn : n.val = window.oldest.val + j)
      (hle : n ≤ window.newest) : ∃ header, store.header? n = some header ∧
        (ofWindow window store.view schedule rewards).baseFees[j]? =
          some (header.baseFee.getD Amount.zero) := by
    have hnumbers : window.numbers[j]? = some n := Window.getElem?_numbers.mpr ⟨hn, hle⟩
    have hsome := Window.isSome_header?_of_gapless hgapless n (List.mem_of_getElem? hnumbers)
    obtain ⟨header, hheader⟩ := Option.isSome_iff_exists.mp hsome
    have hheaders : (window.headers store.view)[j]? = some header := by
      rw [Window.getElem?_headers_of_gapless hgapless, hnumbers]
      exact hheader
    exact ⟨header, hheader, getElem?_baseFees_ofWindow hheaders⟩
  obtain ⟨header, hheader, hfee⟩ := hat hnumber hhigh
  refine ⟨header, _, hheader, hfee, ?_⟩
  by_cases hinside : next.val ≤ window.newest.val
  · obtain ⟨nextHeader, hnextHeader, hnextFee⟩ :=
      hat (show next.val = window.oldest.val + (i + 1) by omega) hinside
    have hlow : window.oldest ≤ number := show window.oldest.val ≤ number.val by omega
    rw [hnextFee, hfollows number next header nextHeader hlow hhigh hnext hheader hnextHeader]
  · have hlast : number = window.newest := Amount.ext (by omega)
    subst hlast
    have hindex : i + 1 =
        (ofWindow window store.view schedule rewards).baseFees.length - 1 := by
      rw [length_baseFees_ofWindow, Window.length_headers_of_gapless hgapless]
      unfold Window.size
      omega
    rw [hindex, ← List.getLast?_eq_getElem?, getLast?_baseFees_ofWindow,
      Window.nextBaseFee_eq_feeAfter hgapless hfollows hnext hheader]

/-- Two stores that agree on the window and on the receipts, and that both follow the schedule
there, give the same answer, whatever they have stored after the window. -/
theorem compute_eq_of_agree {other : ChainStore} {request : Request}
    (hend : request.highestBlock < Amount.largest)
    (hgapless : store.Gapless request.window.oldest request.highestBlock)
    (hfollows : store.FollowsSchedule schedule request.window.oldest request.highestBlock)
    (hotherFollows : other.FollowsSchedule schedule request.window.oldest request.highestBlock)
    (hhead : other.head = store.head)
    (hblocks : ∀ n, n ≤ request.highestBlock → other.block? n = store.block? n)
    (hreceipts : ∀ hash, other.receipt? hash = store.receipt? hash) :
    compute other.view schedule request = compute store.view schedule request := by
  have hmem : ∀ n ∈ request.window.numbers, other.block? n = store.block? n :=
    fun n hn => hblocks n (Window.mem_numbers.mp hn).2
  have hheader : ∀ n, n ≤ request.highestBlock → other.header? n = store.header? n := by
    intro n hn
    unfold ChainStore.header?
    rw [hblocks n hn]
  apply compute_congr hhead
  · apply List.filterMap_congr
    intro n hn
    exact hheader n (Window.mem_numbers.mp hn).2
  · let next : BlockNumber := ⟨request.highestBlock.val + 1, Amount.succ_lt_of_lt_largest hend⟩
    have hotherGapless : other.Gapless request.window.oldest request.highestBlock := by
      intro n hlow hhigh
      rw [hblocks n hhigh]
      exact hgapless n hlow hhigh
    have hstored := hgapless request.highestBlock request.window.oldest_le_newest (Nat.le_refl _)
    obtain ⟨block, hblock⟩ := Option.isSome_iff_exists.mp hstored
    have hlast := ChainStore.header?_of_block? hblock
    have hotherLast : other.header? request.highestBlock = some block.header := by
      rw [hheader _ (Nat.le_refl _), hlast]
    have hnext : next.val = request.window.newest.val + 1 := rfl
    rw [Window.nextBaseFee_eq_feeAfter hotherGapless hotherFollows hnext hotherLast,
      Window.nextBaseFee_eq_feeAfter hgapless hfollows hnext hlast]
  · have hwindow : request.window.blocks other.view = request.window.blocks store.view :=
      List.filterMap_congr hmem
    exact Window.rewardsFor_congr hwindow (fun _ _ _ _ => hreceipts _) request.percentiles

/-- Blocks 1 and 2, where the default market starts at block 2 and sets the fee of block 2. -/
def steadyStore : ChainStore :=
  (ChainStore.empty (.ofUInt64 2)).applyAll [
    .block ⟨⟨.ofUInt64 1, none, .ofUInt64 30, .ofUInt64 40, sampleHash 1⟩, []⟩,
    .block ⟨⟨.ofUInt64 2, some (.ofUInt64 1000000000), .ofUInt64 40, .ofUInt64 40,
      sampleHash 2⟩, []⟩]

/-- A block 3 with the fee that the full block 2 leads to. -/
def steadyNext : Block :=
  ⟨⟨.ofUInt64 3, some (.ofUInt64 1125000000), .ofUInt64 0, .ofUInt64 40, sampleHash 3⟩, []⟩

def steadySchedule : FeeSchedule := ⟨some (FeeMarket.startingAt (.ofUInt64 2))⟩

def steadyRequest : Request := ⟨2, .ofUInt64 2, none⟩

/-- In a window without gaps that follows the schedule, the base fees of every answer are steps of
the schedule up to the one of the next block, and storing another next block that follows the
schedule, or none, does not change the answer. -/
theorem compute_projection (store : ChainStore) (schedule : FeeSchedule) (request : Request)
    (hend : request.highestBlock < Amount.largest)
    (hgapless : store.Gapless request.window.oldest request.highestBlock)
    (hfollows : store.FollowsSchedule schedule request.window.oldest request.highestBlock) :
    (∀ history, compute store.view schedule request = .ok history →
      history.baseFees.length =
        request.highestBlock.val - request.window.oldest.val + 1 + 1 ∧
      ∀ i, i + 1 < history.baseFees.length → ∃ number next header fee,
        number.val = request.window.oldest.val + i ∧ next.val = number.val + 1 ∧
        store.header? number = some header ∧ history.baseFees[i]? = some fee ∧
        history.baseFees[i + 1]? = some (schedule.feeAfter next fee header)) ∧
    ∀ other : ChainStore, other.head = store.head →
      (∀ n, n.val ≠ request.highestBlock.val + 1 → other.block? n = store.block? n) →
      (∀ hash, other.receipt? hash = store.receipt? hash) →
      other.FollowsSchedule schedule request.window.oldest request.highestBlock →
        compute other.view schedule request = compute store.view schedule request := by
  constructor
  · intro history h
    obtain ⟨_, _, rewards, _, rfl⟩ := compute_eq_ok_iff.mp h
    have hlength : (ofWindow request.window store.view schedule rewards).baseFees.length =
        request.highestBlock.val - request.window.oldest.val + 1 + 1 := by
      rw [length_baseFees_ofWindow, Window.length_headers_of_gapless hgapless]
      rfl
    refine ⟨hlength, ?_⟩
    intro i hi
    have hends : request.window.oldest.val ≤ request.highestBlock.val :=
      request.window.oldest_le_newest
    have hroom := Amount.succ_lt_of_lt_largest hend
    rw [hlength] at hi
    let number : BlockNumber := ⟨request.window.oldest.val + i, by omega⟩
    let next : BlockNumber := ⟨request.window.oldest.val + i + 1, by omega⟩
    have hhigh : number ≤ request.window.newest :=
      show request.window.oldest.val + i ≤ request.highestBlock.val by omega
    obtain ⟨header, fee, hheader, hfee, hstep⟩ :=
      baseFees_ofWindow_step rewards hgapless hfollows number next rfl hhigh rfl
    exact ⟨number, next, header, fee, rfl, rfl, hheader, hfee, hstep⟩
  · intro other hhead hblocks hreceipts hotherFollows
    apply compute_eq_of_agree hend hgapless hfollows hotherFollows hhead _ hreceipts
    intro n hn
    have hn : n.val ≤ request.highestBlock.val := hn
    exact hblocks n (by omega)

/-- The window reaches across the activation, and block 3 is projected as it is then stored. -/
theorem compute_projection_across_activation :
    (∃ history, compute steadyStore.view steadySchedule steadyRequest = .ok history ∧
      history.baseFees = [.ofUInt64 0, .ofUInt64 1000000000, .ofUInt64 1125000000] ∧
      ∀ i, i + 1 < 3 → ∃ number next header fee,
        number.val = 1 + i ∧ next.val = number.val + 1 ∧
        steadyStore.header? number = some header ∧ history.baseFees[i]? = some fee ∧
        history.baseFees[i + 1]? = some (steadySchedule.feeAfter next fee header)) ∧
    compute (steadyStore.insertBlock steadyNext).view steadySchedule steadyRequest =
      compute steadyStore.view steadySchedule steadyRequest := by
  obtain ⟨hsteps, hsame⟩ := compute_projection steadyStore steadySchedule steadyRequest
    (by decide +kernel) (Window.gapless_iff.mpr (by decide +kernel))
    (Window.followsSchedule_iff.mpr (by decide +kernel))
  constructor
  · obtain ⟨rewards, hcompute⟩ : ∃ rewards,
        compute steadyStore.view steadySchedule steadyRequest =
          .ok (ofWindow steadyRequest.window steadyStore.view steadySchedule rewards) :=
      exists_compute_eq_ofWindow steadySchedule (by decide +kernel) (by decide +kernel)
        (by decide +kernel)
    have hfees : (ofWindow steadyRequest.window steadyStore.view steadySchedule none).baseFees =
        [.ofUInt64 0, .ofUInt64 1000000000, .ofUInt64 1125000000] := by decide +kernel
    exact ⟨_, hcompute, hfees, (hsteps _ hcompute).2⟩
  · apply hsame (steadyStore.insertBlock steadyNext) rfl
    · intro n hn
      have hother : steadyNext.header.number ≠ n := fun h => hn (by rw [← h]; rfl)
      rw [ChainStore.block?_insertBlock, if_neg hother]
    · exact fun hash => ChainStore.receipt?_insertBlock steadyStore steadyNext hash
    · exact Window.followsSchedule_iff.mpr (by decide +kernel)

end History

end FeeWindow
