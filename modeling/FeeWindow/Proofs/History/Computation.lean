import FeeWindow.History
import FeeWindow.Proofs.Binary64.Order
import FeeWindow.Proofs.Reward.Receipts
import FeeWindow.Proofs.Window

/-!
What the computation of a fee history consists of: the check of the request, the comparison with
the head, the priority fees, and the answer that is read off the window. Each way in which the
computation can end is characterised by these parts.
-/

namespace FeeWindow

namespace Request

variable {request : Request}

/-- The window that a request covers. -/
def window (request : Request) : Window :=
  Window.ending request.blockCount request.highestBlock

/-- Whether the number of blocks is one that may be asked for. -/
def CountInRange (request : Request) : Prop :=
  1 ≤ request.blockCount.toNat ∧ request.blockCount.toNat ≤ 1024

/-- The first percentile, in the order given, that is no number from 0 to 100. -/
def FirstInvalid (request : Request) (p : Binary64) : Prop :=
  ∃ before after, request.percentiles = some (before ++ p :: after) ∧
    ¬ p.IsPercentage ∧ ∀ q ∈ before, q.IsPercentage

/-- A request with a number of blocks in range and with percentiles from 0 to 100. -/
def WellFormed (request : Request) : Prop :=
  request.CountInRange ∧
    ∀ percentiles, request.percentiles = some percentiles → ∀ p ∈ percentiles, p.IsPercentage

instance (request : Request) : Decidable request.CountInRange :=
  inferInstanceAs (Decidable (_ ∧ _))

instance (request : Request) : Decidable request.WellFormed :=
  decidable_of_iff
    (request.CountInRange ∧ ∀ p ∈ request.percentiles.getD [], p.IsPercentage) (by
      unfold WellFormed
      cases request.percentiles with
      | none => simp
      | some percentiles => simp)

theorem find?_invalid_eq_some {p : Binary64} :
    (request.percentiles.getD []).find? (!isPercentile ·) = some p ↔ request.FirstInvalid p := by
  have hvalid (q : Binary64) : (!isPercentile q) = true ↔ ¬ q.IsPercentage := by
    rw [← Binary64.isPercentile_iff, Bool.not_eq_true', Bool.not_eq_true]
  rw [List.find?_eq_some_iff_append]
  simp only [Bool.not_eq_true', Bool.not_eq_false', hvalid, Binary64.isPercentile_iff]
  unfold FirstInvalid
  cases request.percentiles with
  | none =>
      constructor
      · rintro ⟨_, before, after, h, _⟩
        cases before <;> cases h
      · rintro ⟨before, after, h, _⟩
        cases h
  | some percentiles =>
      constructor
      · rintro ⟨hp, before, after, h, hbefore⟩
        exact ⟨before, after, congrArg some h, hp, hbefore⟩
      · rintro ⟨before, after, h, hp, hbefore⟩
        exact ⟨hp, before, after, Option.some.inj h, hbefore⟩

theorem find?_invalid_eq_none :
    (request.percentiles.getD []).find? (!isPercentile ·) = none ↔
      ∀ percentiles, request.percentiles = some percentiles →
        ∀ p ∈ percentiles, p.IsPercentage := by
  rw [List.find?_eq_none]
  cases request.percentiles with
  | none => simp
  | some percentiles => simp [Binary64.isPercentile_iff]

theorem outOfRange_iff :
    (request.blockCount.toNat < 1 ∨ maxBlockCount < request.blockCount.toNat) ↔
      ¬ request.CountInRange := by
  unfold CountInRange maxBlockCount
  omega

theorem validate_eq_ok_iff : request.validate = .ok () ↔ request.WellFormed := by
  unfold validate WellFormed
  rw [← find?_invalid_eq_none]
  split
  · next hcount =>
      rw [outOfRange_iff] at hcount
      exact ⟨fun h => (by cases h), fun h => absurd h.1 hcount⟩
  · next hcount =>
      rw [outOfRange_iff, not_not] at hcount
      cases (request.percentiles.getD []).find? (!isPercentile ·) with
      | none => exact ⟨fun _ => ⟨hcount, rfl⟩, fun _ => rfl⟩
      | some p => exact ⟨fun h => (by cases h), fun h => (by cases h.2)⟩

/-- The count is at fault before the percentiles are looked at. -/
theorem validate_eq_error_iff {error : RequestError} :
    request.validate = .error error ↔
      ¬ request.CountInRange ∧ error = .blockCountOutOfRange request.blockCount ∨
      request.CountInRange ∧ ∃ p, request.FirstInvalid p ∧ error = .invalidPercentile p := by
  unfold validate
  simp only [← find?_invalid_eq_some]
  split
  · next hcount =>
      rw [outOfRange_iff] at hcount
      simp only [hcount, not_false_eq_true, true_and, false_and, or_false, Except.error.injEq]
      exact eq_comm
  · next hcount =>
      rw [outOfRange_iff, not_not] at hcount
      simp only [hcount, not_true_eq_false, false_and, true_and, false_or]
      cases (request.percentiles.getD []).find? (!isPercentile ·) with
      | none => exact ⟨fun h => (by cases h), fun ⟨_, h, _⟩ => (by cases h)⟩
      | some p =>
          constructor
          · intro h
            exact ⟨p, rfl, (Except.error.inj h).symm⟩
          · rintro ⟨q, hq, rfl⟩
            rw [Option.some.inj hq]

end Request

/-- The priority fees of a window where percentiles are given, and none otherwise. -/
def Window.rewardsFor (window : Window) (chain : ChainView) :
    Option (List Binary64) → Except AbsentReceipt (Option (List (List GasPrice)))
  | none => .ok none
  | some percentiles => (window.rewards chain (sortedPercentiles percentiles)).map some

namespace Window

theorem rewardsFor_some_eq_ok {window : Window} {chain : ChainView} {percentiles : List Binary64}
    {rewards : Option (List (List GasPrice))} :
    window.rewardsFor chain (some percentiles) = .ok rewards ↔
      ∃ rows, window.rewards chain (sortedPercentiles percentiles) = .ok rows ∧
        rewards = some rows := by
  simp only [rewardsFor]
  cases window.rewards chain (sortedPercentiles percentiles) with
  | error missing => exact ⟨fun h => (by cases h), fun ⟨_, h, _⟩ => (by cases h)⟩
  | ok rows =>
      constructor
      · intro h
        exact ⟨rows, rfl, (Except.ok.inj h).symm⟩
      · rintro ⟨_, h, rfl⟩
        rw [Except.ok.inj h]
        rfl

/-- The priority fees hang on the blocks of the window and on the receipts of their
transactions. -/
theorem rewardsFor_congr {window : Window} {chain other : ChainView}
    (hblocks : window.blocks chain = window.blocks other)
    (hreceipts : ∀ block ∈ window.blocks chain, ∀ transaction ∈ block.transactions,
      chain.receipt? transaction.hash = other.receipt? transaction.hash)
    (asked : Option (List Binary64)) :
    window.rewardsFor chain asked = window.rewardsFor other asked := by
  cases asked with
  | none => rfl
  | some percentiles =>
      have hrewards : window.rewards chain (sortedPercentiles percentiles) =
          window.rewards other (sortedPercentiles percentiles) := by
        unfold rewards
        rw [← hblocks]
        apply Traversal.mapM_congr
        intro block hblock
        apply congrArg RewardRun.result
        apply Block.rewards_congr
        intro transaction htransaction
        rw [hreceipts block hblock transaction htransaction]
      simp only [rewardsFor, hrewards]

variable {window : Window} {chain : ChainView} {schedule : FeeSchedule} {next : BlockNumber}

/-- After the largest number there is no block to have a fee. -/
theorem nextBaseFee_of_no_next (h : window.newest = Amount.largest) :
    window.nextBaseFee chain schedule = Amount.zero := by
  have hnone : window.next? = none := next?_eq_none.mpr h
  unfold Window.nextBaseFee
  rw [hnone]

theorem nextBaseFee_of_stored (hnext : next.val = window.newest.val + 1) {header : BlockHeader}
    (h : chain.header? next = some header) :
    window.nextBaseFee chain schedule = header.baseFeeOrZero := by
  unfold Window.nextBaseFee FeeWindow.nextBaseFee
  rw [next?_eq_some.mpr hnext]
  simp only [h]

theorem nextBaseFee_of_absent (hnext : next.val = window.newest.val + 1)
    (h : chain.header? next = none) :
    window.nextBaseFee chain schedule =
      match schedule.marketAt next, (window.headers chain).getLast? with
      | some market, some parent => market.baseFeeAfter next parent
      | _, _ => Amount.zero := by
  unfold Window.nextBaseFee FeeWindow.nextBaseFee
  rw [next?_eq_some.mpr hnext]
  cases hmarket : schedule.marketAt next with
  | none => simp only [h, hmarket]
  | some market =>
      cases (window.headers chain).getLast? with
      | none => simp only [h, hmarket]
      | some parent => simp only [h, hmarket]

end Window

namespace History

variable {chain : ChainView} {schedule : FeeSchedule} {request : Request}

/-- The answer that a window has, with the priority fees of its blocks. -/
def ofWindow (window : Window) (chain : ChainView) (schedule : FeeSchedule)
    (rewards : Option (List (List GasPrice))) : History where
  oldestBlock := window.oldest
  baseFees := (window.headers chain).map BlockHeader.baseFeeOrZero ++
    [window.nextBaseFee chain schedule]
  gasUsedRatios := (window.headers chain).map BlockHeader.gasUsedRatio
  rewards

section Lists

variable {window : Window} {rewards : Option (List (List GasPrice))}

theorem length_baseFees_ofWindow :
    (ofWindow window chain schedule rewards).baseFees.length =
      (window.headers chain).length + 1 := by
  simp only [ofWindow, List.length_append, List.length_map, List.length_singleton]

theorem dropLast_baseFees_ofWindow :
    (ofWindow window chain schedule rewards).baseFees.dropLast =
      (window.headers chain).map BlockHeader.baseFeeOrZero :=
  List.dropLast_concat

theorem getLast?_baseFees_ofWindow :
    (ofWindow window chain schedule rewards).baseFees.getLast? =
      some (window.nextBaseFee chain schedule) :=
  List.getLast?_concat

theorem getElem?_baseFees_ofWindow {i : Nat} {header : BlockHeader}
    (h : (window.headers chain)[i]? = some header) :
    (ofWindow window chain schedule rewards).baseFees[i]? = some header.baseFeeOrZero := by
  obtain ⟨hi, _⟩ := List.getElem?_eq_some_iff.mp h
  have hlt : i < ((window.headers chain).map BlockHeader.baseFeeOrZero).length := by
    rw [List.length_map]
    exact hi
  simp only [ofWindow]
  rw [List.getElem?_append_left hlt, List.getElem?_map, h]
  rfl

end Lists

/-- A well-formed request for blocks that the chain reaches is answered from its window. -/
theorem compute_eq (hvalid : request.validate = .ok ())
    (hhead : request.highestBlock ≤ chain.head) :
    compute chain schedule request =
      match request.window.rewardsFor chain request.percentiles with
      | .ok rewards => .ok (ofWindow request.window chain schedule rewards)
      | .error missing => .error (.inconsistent missing) := by
  have hreached : ¬ chain.head < request.highestBlock := Nat.not_lt_of_le hhead
  unfold compute Request.window
  rw [hvalid, Window.resolve, if_neg hreached]
  cases request.percentiles with
  | none => rfl
  | some percentiles =>
      simp only [Window.rewardsFor, bind, Except.bind, Except.mapError]
      cases (Window.ending request.blockCount request.highestBlock).rewards chain
        (sortedPercentiles percentiles) with
      | ok rewards => rfl
      | error missing => rfl

theorem compute_eq_of_invalid {error : RequestError} (h : request.validate = .error error) :
    compute chain schedule request = .error (.invalidRequest error) := by
  unfold compute
  rw [h]
  rfl

theorem compute_eq_of_afterHead (hvalid : request.validate = .ok ())
    (hhead : chain.head < request.highestBlock) :
    compute chain schedule request =
      .error (.invalidRequest (.afterChainHead request.highestBlock chain.head)) := by
  unfold compute
  rw [hvalid, Window.resolve, if_pos hhead]
  rfl

/-- A computation is refused by the check of the request, refused because the chain does not
reach far enough, stopped by an absent receipt, or answered from the window. -/
theorem compute_cases (chain : ChainView) (schedule : FeeSchedule) (request : Request) :
    (∃ error, request.validate = .error error ∧
      compute chain schedule request = .error (.invalidRequest error)) ∨
    (request.WellFormed ∧ chain.head < request.highestBlock ∧
      compute chain schedule request =
        .error (.invalidRequest (.afterChainHead request.highestBlock chain.head))) ∨
    (request.WellFormed ∧ request.highestBlock ≤ chain.head ∧ ∃ missing,
      request.window.rewardsFor chain request.percentiles = .error missing ∧
      compute chain schedule request = .error (.inconsistent missing)) ∨
    (request.WellFormed ∧ request.highestBlock ≤ chain.head ∧ ∃ rewards,
      request.window.rewardsFor chain request.percentiles = .ok rewards ∧
      compute chain schedule request =
        .ok (ofWindow request.window chain schedule rewards)) := by
  cases hvalid : request.validate with
  | error error => exact .inl ⟨error, rfl, compute_eq_of_invalid hvalid⟩
  | ok =>
      have hwell := Request.validate_eq_ok_iff.mp hvalid
      rcases Nat.lt_or_ge chain.head.val request.highestBlock.val with hafter | hhead
      · exact .inr (.inl ⟨hwell, hafter, compute_eq_of_afterHead hvalid hafter⟩)
      · have hcompute : compute chain schedule request = _ := compute_eq hvalid hhead
        cases hrewards : request.window.rewardsFor chain request.percentiles with
        | error missing =>
            rw [hrewards] at hcompute
            exact .inr (.inr (.inl ⟨hwell, hhead, missing, rfl, hcompute⟩))
        | ok rewards =>
            rw [hrewards] at hcompute
            exact .inr (.inr (.inr ⟨hwell, hhead, rewards, rfl, hcompute⟩))

/-- Where two chains both reach the newest block asked for, an answer reads nothing of them but
the headers and the priority fees of the window, and the base fee of the next block. -/
theorem compute_congr_of_reached {other : ChainView} (hhead : request.highestBlock ≤ chain.head)
    (hother : request.highestBlock ≤ other.head)
    (hheaders : request.window.headers chain = request.window.headers other)
    (hnext : request.window.nextBaseFee chain schedule =
      request.window.nextBaseFee other schedule)
    (hrewards : request.window.rewardsFor chain request.percentiles =
      request.window.rewardsFor other request.percentiles) :
    compute chain schedule request = compute other schedule request := by
  have hanswer (rewards : Option (List (List GasPrice))) :
      ofWindow request.window chain schedule rewards =
        ofWindow request.window other schedule rewards := by
    unfold ofWindow
    rw [hheaders, hnext]
  cases hvalid : request.validate with
  | error error => rw [compute_eq_of_invalid hvalid, compute_eq_of_invalid hvalid]
  | ok =>
      rw [compute_eq hvalid hhead, compute_eq hvalid hother, hrewards]
      simp only [hanswer]

/-- Of the head an answer reads no more than whether it lies before the newest block. -/
theorem compute_congr {other : ChainView} (hhead : chain.head = other.head)
    (hheaders : request.window.headers chain = request.window.headers other)
    (hnext : request.window.nextBaseFee chain schedule =
      request.window.nextBaseFee other schedule)
    (hrewards : request.window.rewardsFor chain request.percentiles =
      request.window.rewardsFor other request.percentiles) :
    compute chain schedule request = compute other schedule request := by
  rcases Nat.lt_or_ge chain.head.val request.highestBlock.val with hafter | hreached
  · cases hvalid : request.validate with
    | error error => rw [compute_eq_of_invalid hvalid, compute_eq_of_invalid hvalid]
    | ok =>
        rw [compute_eq_of_afterHead hvalid hafter, hhead,
          compute_eq_of_afterHead hvalid (hhead ▸ hafter)]
  · exact compute_congr_of_reached hreached (hhead ▸ hreached) hheaders hnext hrewards

theorem compute_eq_ok_iff {history : History} :
    compute chain schedule request = .ok history ↔
      request.WellFormed ∧ request.highestBlock ≤ chain.head ∧ ∃ rewards,
        request.window.rewardsFor chain request.percentiles = .ok rewards ∧
        history = ofWindow request.window chain schedule rewards := by
  constructor
  · intro h
    rcases compute_cases chain schedule request with ⟨_, _, hc⟩ | ⟨_, _, hc⟩ |
      ⟨_, _, _, _, hc⟩ | ⟨hwell, hhead, rewards, hrewards, hc⟩
    · rw [hc] at h; cases h
    · rw [hc] at h; cases h
    · rw [hc] at h; cases h
    · rw [hc] at h
      exact ⟨hwell, hhead, rewards, hrewards, (Except.ok.inj h).symm⟩
  · rintro ⟨hwell, hhead, rewards, hrewards, rfl⟩
    rw [compute_eq (Request.validate_eq_ok_iff.mpr hwell) hhead, hrewards]

theorem compute_eq_invalidRequest_iff {error : RequestError} :
    compute chain schedule request = .error (.invalidRequest error) ↔
      request.validate = .error error ∨
      request.WellFormed ∧ chain.head < request.highestBlock ∧
        error = .afterChainHead request.highestBlock chain.head := by
  constructor
  · intro h
    rcases compute_cases chain schedule request with ⟨_, hinvalid, hc⟩ | ⟨hwell, hafter, hc⟩ |
      ⟨_, _, _, _, hc⟩ | ⟨_, _, _, _, hc⟩
    · rw [hc] at h
      injection h with h
      injection h with h
      exact .inl (h ▸ hinvalid)
    · rw [hc] at h
      injection h with h
      injection h with h
      exact .inr ⟨hwell, hafter, h.symm⟩
    · rw [hc] at h; cases h
    · rw [hc] at h; cases h
  · rintro (hinvalid | ⟨hwell, hafter, rfl⟩)
    · exact compute_eq_of_invalid hinvalid
    · exact compute_eq_of_afterHead (Request.validate_eq_ok_iff.mpr hwell) hafter

theorem compute_eq_afterChainHead_iff {requested head : BlockNumber} :
    compute chain schedule request =
        .error (.invalidRequest (.afterChainHead requested head)) ↔
      request.WellFormed ∧ chain.head < request.highestBlock ∧
        requested = request.highestBlock ∧ head = chain.head := by
  rw [compute_eq_invalidRequest_iff, Request.validate_eq_error_iff,
    RequestError.afterChainHead.injEq]
  simp

theorem compute_eq_inconsistent_iff {missing : AbsentReceipt} :
    compute chain schedule request = .error (.inconsistent missing) ↔
      request.WellFormed ∧ request.highestBlock ≤ chain.head ∧
        request.window.rewardsFor chain request.percentiles = .error missing := by
  constructor
  · intro h
    rcases compute_cases chain schedule request with ⟨_, _, hc⟩ | ⟨_, _, hc⟩ |
      ⟨hwell, hhead, _, hrewards, hc⟩ | ⟨_, _, _, _, hc⟩
    · rw [hc] at h; cases h
    · rw [hc] at h; cases h
    · rw [hc] at h
      injection h with h
      injection h with h
      exact ⟨hwell, hhead, h ▸ hrewards⟩
    · rw [hc] at h; cases h
  · rintro ⟨hwell, hhead, hrewards⟩
    rw [compute_eq (Request.validate_eq_ok_iff.mpr hwell) hhead, hrewards]

end History

end FeeWindow
