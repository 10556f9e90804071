import FeeWindow.Proofs.History.Computation
import FeeWindow.Proofs.Service.Run
import FeeWindow.Proofs.Uint256.Amount

/-!
Remote callers get what the computation gives. A report holds the numbers of the history that it
was made from, and a request by a tag is the request for the block that the tag selects: the head
for all roles but the earliest, which is block zero. No block of these is after the head, so only
a number is ever refused for that, and the refusal names the number.
-/

namespace FeeWindow

/-- The history that a report tells, with amounts for its numbers. -/
def Report.toHistory (report : Report) : History where
  oldestBlock := report.oldestBlock.toAmount
  baseFees := report.baseFees.map Uint256.toAmount
  gasUsedRatios := report.gasUsedRatios
  rewards := report.rewards.map fun rows => rows.map fun row => row.map Uint256.toAmount

/-- A report tells the history that it was made from. -/
theorem Report.toHistory_ofHistory (history : History) :
    (ofHistory history).toHistory = history := by
  obtain ⟨oldestBlock, baseFees, gasUsedRatios, rewards⟩ := history
  simp [ofHistory, toHistory, Function.comp_def]

section Results

variable (result : Except HistoryError History)

theorem Report.map_ofHistory_eq_error_iff {error : HistoryError} :
    result.map ofHistory = .error error ↔ result = .error error := by
  cases result <;> simp [Except.map]

theorem Report.map_toHistory_map_ofHistory : (result.map ofHistory).map toHistory = result := by
  cases result <;> simp [Except.map, toHistory_ofHistory]

end Results

namespace BlockTag

variable {tag : BlockTag} {head : BlockNumber}

@[simp] theorem resolve_number_ofAmount (a : Amount) :
    (number (.ofAmount a)).resolve head = a :=
  Uint256.toAmount_ofAmount a

/-- A role selects no block after the head. -/
theorem resolve_le_head (htag : ∀ n, tag ≠ .number n) : tag.resolve head ≤ head := by
  cases tag with
  | number n => exact absurd rfl (htag n)
  | earliest => exact Nat.zero_le _
  | latest => exact Nat.le_refl _
  | finalized => exact Nat.le_refl _
  | safe => exact Nat.le_refl _
  | pending => exact Nat.le_refl _

end BlockTag

/-- A query that asks for the same blocks under another tag. -/
def Query.withTag (query : Query) (tag : BlockTag) : Query := { query with newestBlock := tag }

namespace Service

variable [PatternSearch]

variable (service : Service) (chain : ChainView) (schedule : FeeSchedule) (query : Query)

/-- A report is the answer to the request that the query resolves to. -/
theorem result_report : (service.report chain schedule query).result =
    (History.compute chain schedule (query.request chain)).map Report.ofHistory := by
  simp only [report, history, result_settle]

/-- Of a tag no more matters than the block that it selects. -/
theorem report_congr_of_resolve {tag other : BlockTag}
    (h : tag.resolve chain.head = other.resolve chain.head) :
    service.report chain schedule (query.withTag tag) =
      service.report chain schedule (query.withTag other) := by
  have hrequest : (query.withTag tag).request chain = (query.withTag other).request chain := by
    simp only [Query.request, Query.withTag, h]
  simp only [report, hrequest]

theorem report_eq_afterChainHead_iff {requested head : BlockNumber} :
    (service.report chain schedule query).result =
        .error (.invalidRequest (.afterChainHead requested head)) ↔
      (query.request chain).WellFormed ∧
        chain.head < query.newestBlock.resolve chain.head ∧
        requested = query.newestBlock.resolve chain.head ∧ head = chain.head := by
  rw [result_report, Report.map_ofHistory_eq_error_iff]
  exact History.compute_eq_afterChainHead_iff

end Service

end FeeWindow
