import FeeWindow.Proofs.Counters.Lines
import FeeWindow.Proofs.Service.Accounting

/-!
What an exposition tells of each counter. Every counter has one sample with its value and labels,
and both counters without labels are described once, in front of their sample. The counters of
failures share one name, and its description comes again with each of them.
-/

namespace FeeWindow

namespace ExpositionLine

/-- The name that a line is about. -/
def metric : ExpositionLine → String
  | .help name _ | .counterType name | .sample name .. => name

def isHelp : ExpositionLine → Bool
  | .help .. => true
  | _ => false

def isType : ExpositionLine → Bool
  | .counterType _ => true
  | _ => false

/-- The labels, the value and the time of a sample. -/
def sample? : ExpositionLine → Option (List (String × String) × Binary64 × Int)
  | .sample _ labels value time => some (labels, value, time)
  | _ => none

end ExpositionLine

open ExpositionLine (metric isHelp isType sample?)

/-- The lines about a name, in their order. -/
def linesAbout (name : String) (lines : List ExpositionLine) : List ExpositionLine :=
  lines.filter fun line => line.metric = name

/-- The samples of a name, in their order. -/
def samplesOf (name : String) (lines : List ExpositionLine) :
    List (List (String × String) × Binary64 × Int) :=
  (linesAbout name lines).filterMap sample?

/-- A name is described by exactly one help line and one type line, both in front of all samples
of the name. -/
structure IsDescribed (name : String) (lines : List ExpositionLine) : Prop where
  help : (linesAbout name lines).countP isHelp = 1
  type : (linesAbout name lines).countP isType = 1
  first : (linesAbout name lines).Pairwise fun earlier later =>
    earlier.sample?.isSome → later.sample?.isSome

namespace Counters

section Lines

variable {name other help : String} {labels : List (String × String)} {value : UInt64}
  {time : Int}

theorem linesAbout_counterLines : linesAbout name (counterLines other help labels value time) =
    if other = name then counterLines other help labels value time else [] := by
  unfold linesAbout
  split
  · next heq => simp [counterLines, metric, heq]
  · next hne => simp [counterLines, metric, hne]

theorem isDescribed_of_eq_counterLines {lines : List ExpositionLine}
    (h : linesAbout name lines = counterLines other help labels value time) :
    IsDescribed name lines where
  help := by
    rw [h]
    rfl
  type := by
    rw [h]
    rfl
  first := by
    rw [h]
    simp [counterLines, sample?]

end Lines

variable (counters : Counters) (time : Int)

section Errors

theorem linesAbout_errorLines (name : String) :
    linesAbout name (counters.errorLines time).flatten =
      if "fee_history_errors" = name then (counters.errorLines time).flatten else [] := by
  unfold errorLines
  induction counters.errors.toList with
  | nil => exact (ite_self _).symm
  | cons entry rest ih =>
      simp only [List.map_cons, List.flatten_cons]
      rw [linesAbout, List.filter_append, ← linesAbout, ← linesAbout, ih, linesAbout_counterLines]
      split <;> rfl

theorem filterMap_sample?_errorLines :
    (counters.errorLines time).flatten.filterMap sample? =
      counters.errors.toList.map fun entry =>
        (entry.1.pairs, Binary64.ofNat entry.2.toNat, time) := by
  unfold errorLines
  induction counters.errors.toList with
  | nil => rfl
  | cons entry rest ih =>
      rw [List.map_cons, List.flatten_cons, List.filterMap_append, ih]
      rfl

/-- Each counter of failures comes with as many lines of a kind as a single counter has. -/
theorem countP_errorLines (isKind : ExpositionLine → Bool)
    (h : ∀ name help labels value, (counterLines name help labels value time).countP isKind = 1) :
    (counters.errorLines time).flatten.countP isKind = counters.errors.size := by
  rw [← Std.ExtTreeMap.length_toList]
  unfold errorLines
  induction counters.errors.toList with
  | nil => rfl
  | cons entry rest ih =>
      rw [List.map_cons, List.flatten_cons, List.countP_append, ih, h, List.length_cons]
      omega

end Errors

section Metrics

theorem linesAbout_exposition (name : String) : linesAbout name (counters.exposition time) =
    ((if "fee_history_requests" = name then
        counterLines "fee_history_requests" "Number of fee history requests" []
          counters.requests time
      else []) ++
    if "fee_history_blocks_served" = name then
      counterLines "fee_history_blocks_served"
        "Number of blocks reported in successful fee history responses" []
        counters.blocksServed time
    else []) ++
    if "fee_history_errors" = name then (counters.errorLines time).flatten else [] := by
  rw [← linesAbout_errorLines, ← linesAbout_counterLines, ← linesAbout_counterLines]
  simp only [linesAbout, exposition, plainLines, List.filter_append]

theorem linesAbout_requests : linesAbout "fee_history_requests" (counters.exposition time) =
    counterLines "fee_history_requests" "Number of fee history requests" []
      counters.requests time := by
  rw [linesAbout_exposition, if_pos rfl, if_neg (by decide), if_neg (by decide), List.append_nil,
    List.append_nil]

theorem linesAbout_blocksServed :
    linesAbout "fee_history_blocks_served" (counters.exposition time) =
      counterLines "fee_history_blocks_served"
        "Number of blocks reported in successful fee history responses" []
        counters.blocksServed time := by
  rw [linesAbout_exposition, if_neg (by decide), if_pos rfl, if_neg (by decide), List.append_nil,
    List.nil_append]

theorem linesAbout_errors : linesAbout "fee_history_errors" (counters.exposition time) =
    (counters.errorLines time).flatten := by
  rw [linesAbout_exposition, if_neg (by decide), if_neg (by decide), if_pos rfl, List.append_nil,
    List.nil_append]

theorem isDescribed_errors_iff :
    IsDescribed "fee_history_errors" (counters.exposition time) ↔ counters.errors.size = 1 := by
  constructor
  · intro h
    have hhelp := h.help
    rw [linesAbout_errors, countP_errorLines counters time isHelp fun _ _ _ _ => rfl] at hhelp
    exact hhelp
  · intro hsize
    obtain ⟨entry, hentry⟩ : ∃ entry, counters.errors.toList = [entry] := by
      rw [← List.length_eq_one_iff, Std.ExtTreeMap.length_toList, hsize]
    apply isDescribed_of_eq_counterLines
    rw [linesAbout_errors, errorLines, hentry]
    rfl

/-- No name has a line but the three of the counters. -/
theorem metric_of_mem_exposition {line : ExpositionLine} (h : line ∈ counters.exposition time) :
    line.metric ∈ ["fee_history_requests", "fee_history_blocks_served", "fee_history_errors"] := by
  have hmem : line ∈ linesAbout line.metric (counters.exposition time) :=
    List.mem_filter.mpr ⟨h, decide_eq_true rfl⟩
  by_contra hother
  simp only [List.mem_cons, List.not_mem_nil, or_false, not_or] at hother
  obtain ⟨hrequests, hblocksServed, herrors⟩ := hother
  rw [linesAbout_exposition, if_neg (Ne.symm hrequests), if_neg (Ne.symm hblocksServed),
    if_neg (Ne.symm herrors)] at hmem
  cases hmem

theorem exists_metric_eq_errors_iff :
    (∃ line ∈ counters.exposition time, line.metric = "fee_history_errors") ↔
      0 < counters.errors.size := by
  constructor
  · rintro ⟨line, hline, hmetric⟩
    have hmem : line ∈ linesAbout "fee_history_errors" (counters.exposition time) :=
      List.mem_filter.mpr ⟨hline, decide_eq_true hmetric⟩
    rw [linesAbout_errors] at hmem
    obtain ⟨lines, hlines, _⟩ := List.mem_flatten.mp hmem
    have hpos := List.length_pos_of_mem hlines
    rwa [errorLines, List.length_map, Std.ExtTreeMap.length_toList] at hpos
  · intro h
    rw [← countP_errorLines counters time isHelp fun _ _ _ _ => rfl, ← linesAbout_errors,
      List.countP_pos_iff] at h
    obtain ⟨line, hline, _⟩ := h
    obtain ⟨hmem, hmetric⟩ := List.mem_filter.mp hline
    exact ⟨line, hmem, of_decide_eq_true hmetric⟩

theorem isDescribed_requests :
    IsDescribed "fee_history_requests" (counters.exposition time) :=
  isDescribed_of_eq_counterLines (counters.linesAbout_requests time)

theorem isDescribed_blocksServed :
    IsDescribed "fee_history_blocks_served" (counters.exposition time) :=
  isDescribed_of_eq_counterLines (counters.linesAbout_blocksServed time)

theorem forall_isDescribed_iff :
    (∀ line ∈ counters.exposition time, IsDescribed line.metric (counters.exposition time)) ↔
      counters.errors.size ≤ 1 := by
  have hreported := counters.exists_metric_eq_errors_iff time
  constructor
  · intro h
    by_contra hsize
    obtain ⟨line, hline, hmetric⟩ := hreported.mpr (by omega)
    have hdescribed := h line hline
    rw [hmetric, isDescribed_errors_iff] at hdescribed
    omega
  · intro hsize line hline
    have hmetric := counters.metric_of_mem_exposition time hline
    simp only [List.mem_cons, List.not_mem_nil, or_false] at hmetric
    rcases hmetric with heq | heq | heq
    · rw [heq]
      exact counters.isDescribed_requests time
    · rw [heq]
      exact counters.isDescribed_blocksServed time
    · rw [heq, isDescribed_errors_iff]
      have hpos := hreported.mp ⟨line, hline, heq⟩
      omega

end Metrics

/-- An exposition gives exactly one sample for each counter, with the value and the labels of the
counter. A name without labels is described once, in front of its sample. The name of the counters
of failures is described once for each of them, so every name of the exposition is described as it
should be exactly if at most one label of failures was counted. -/
theorem exposition_samples :
    (counters.expositionText time).toList.splitOn '\n' =
      (counters.exposition time).map (fun line => line.text.toList) ++ [[]] ∧
    samplesOf "fee_history_requests" (counters.exposition time) =
      [([], Binary64.ofNat counters.requests.toNat, time)] ∧
    samplesOf "fee_history_blocks_served" (counters.exposition time) =
      [([], Binary64.ofNat counters.blocksServed.toNat, time)] ∧
    samplesOf "fee_history_errors" (counters.exposition time) =
      counters.errors.toList.map (fun entry =>
        (entry.1.pairs, Binary64.ofNat entry.2.toNat, time)) ∧
    (∀ line ∈ counters.exposition time, line.metric ∈
      ["fee_history_requests", "fee_history_blocks_served", "fee_history_errors"]) ∧
    IsDescribed "fee_history_requests" (counters.exposition time) ∧
    IsDescribed "fee_history_blocks_served" (counters.exposition time) ∧
    (linesAbout "fee_history_errors" (counters.exposition time)).countP isHelp =
      counters.errors.size ∧
    (linesAbout "fee_history_errors" (counters.exposition time)).countP isType =
      counters.errors.size ∧
    ((∀ line ∈ counters.exposition time, IsDescribed line.metric (counters.exposition time)) ↔
      counters.errors.size ≤ 1) := by
  refine ⟨counters.splitOn_expositionText time, ?_, ?_, ?_,
    fun line => counters.metric_of_mem_exposition time, counters.isDescribed_requests time,
    counters.isDescribed_blocksServed time, ?_, ?_, counters.forall_isDescribed_iff time⟩
  · rw [samplesOf, linesAbout_requests]
    rfl
  · rw [samplesOf, linesAbout_blocksServed]
    rfl
  · rw [samplesOf, linesAbout_errors, filterMap_sample?_errorLines]
  · rw [linesAbout_errors, countP_errorLines counters time isHelp fun _ _ _ _ => rfl]
  · rw [linesAbout_errors, countP_errorLines counters time isType fun _ _ _ _ => rfl]

end Counters

namespace Service

/-- After a run there is a counter of failures for each label that a failure of the run had. -/
theorem size_errors_serveAll [PatternSearch] (calls : List ServiceCall) :
    (initial.serveAll calls).2.counters.errors.size =
      (failureLabels (outcomes (initial.serveAll calls).1)).dedup.length := by
  have htallies : (initial.serveAll calls).2.counters.Tallies
      (outcomes (initial.serveAll calls).1) := by
    rw [counters_serveAll]
    exact Counters.tallies_foldl_account (outcomes (initial.serveAll calls).1)
  rw [← htallies.map_fst_toList_perm.length_eq, List.length_map, Std.ExtTreeMap.length_toList]

/-- A run over an empty chain with failures of two kinds. -/
def twoFailures : List ServiceCall := [
  .history (ChainStore.empty .zero).view .free ⟨0, .zero, none⟩,
  .history (ChainStore.empty .zero).view .free ⟨1, .ofUInt64 5, none⟩]

/-- After failures of two kinds their name is described twice. -/
theorem exposition_of_twoFailures :
    (linesAbout "fee_history_errors"
      ((initial.serveAll twoFailures).2.counters.exposition 1000)).countP isHelp = 2 ∧
    ¬ IsDescribed "fee_history_errors"
      ((initial.serveAll twoFailures).2.counters.exposition 1000) := by
  have hsize : (initial.serveAll twoFailures).2.counters.errors.size = 2 := by
    rw [size_errors_serveAll]
    decide +kernel
  constructor
  · rw [Counters.linesAbout_errors, Counters.countP_errorLines _ _ isHelp fun _ _ _ _ => rfl, hsize]
  · rw [Counters.isDescribed_errors_iff, hsize]
    decide

end Service

end FeeWindow
