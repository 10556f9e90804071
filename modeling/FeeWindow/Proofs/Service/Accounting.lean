import FeeWindow.Pattern.Library
import FeeWindow.Proofs.Service.Run
import FeeWindow.Proofs.History.Alignment
import Mathlib.Algebra.BigOperators.Group.List.Lemmas
import Mathlib.Algebra.GroupWithZero.Nat

/-!
The counters keep account of every run. They tell how many fee histories were asked for, how many
blocks the answers reported, and how many requests failed with which code and kind of error; a
failure that never arose has no counter. Nothing else is counted, and no answer depends on the
counters.
-/

namespace FeeWindow

/-- The number of blocks of each successful answer. -/
def reportedBlocks (outcomes : List (Except HistoryError Nat)) : List Nat :=
  outcomes.filterMap Except.toOption

/-- The label of each failure. -/
def failureLabels (outcomes : List (Except HistoryError Nat)) : List ErrorLabel :=
  outcomes.filterMap fun outcome =>
    match outcome with
    | .ok _ => none
    | .error error => some (.ofError error)

section Outcomes

variable (outcomes : List (Except HistoryError Nat)) (blocks : Nat) (error : HistoryError)

@[simp] theorem reportedBlocks_concat_ok :
    reportedBlocks (outcomes ++ [.ok blocks]) = reportedBlocks outcomes ++ [blocks] :=
  List.filterMap_append

@[simp] theorem reportedBlocks_concat_error :
    reportedBlocks (outcomes ++ [.error error]) = reportedBlocks outcomes := by
  simp [reportedBlocks, Except.toOption]

@[simp] theorem failureLabels_concat_ok :
    failureLabels (outcomes ++ [.ok blocks]) = failureLabels outcomes := by
  simp [failureLabels]

@[simp] theorem failureLabels_concat_error :
    failureLabels (outcomes ++ [.error error]) = failureLabels outcomes ++ [.ofError error] := by
  simp [failureLabels]

theorem length_reportedBlocks_add_length_failureLabels :
    (reportedBlocks outcomes).length + (failureLabels outcomes).length = outcomes.length := by
  induction outcomes using List.reverseRecOn with
  | nil => rfl
  | append_singleton outcomes outcome ih =>
      cases outcome with
      | ok blocks =>
          simp only [reportedBlocks_concat_ok, failureLabels_concat_ok, List.length_append,
            List.length_singleton]
          omega
      | error error =>
          simp only [reportedBlocks_concat_error, failureLabels_concat_error, List.length_append,
            List.length_singleton]
          omega

end Outcomes

namespace Counters

variable {counters : Counters} {outcomes : List (Except HistoryError Nat)}

/-- What counters of 64 bits say after requests with the given outcomes. -/
structure Tallies (counters : Counters) (outcomes : List (Except HistoryError Nat)) : Prop where
  requests : counters.requests = UInt64.ofNat outcomes.length
  blocksServed : counters.blocksServed = UInt64.ofNat (reportedBlocks outcomes).sum
  errors : ∀ label, counters.errors[label]? =
    if (failureLabels outcomes).count label = 0 then none
    else some (UInt64.ofNat ((failureLabels outcomes).count label))

theorem tallies_empty : empty.Tallies [] where
  requests := rfl
  blocksServed := rfl
  errors := by
    intro label
    simp [empty, failureLabels]

theorem getElem?_errors_addErrors_one (counters : Counters) (label other : ErrorLabel) :
    (counters.addErrors label 1).errors[other]? =
      if label = other then some (counters.errorCount label + 1) else counters.errors[other]? := by
  unfold addErrors
  rw [if_neg (by decide)]
  simp only [Std.ExtTreeMap.getElem?_insert, Std.compare_eq_iff_eq]

theorem Tallies.errorCount (h : counters.Tallies outcomes) (label : ErrorLabel) :
    counters.errorCount label = UInt64.ofNat ((failureLabels outcomes).count label) := by
  unfold Counters.errorCount
  rw [h.errors]
  split
  · next hzero => simp [hzero]
  · rfl

theorem Tallies.account_ok (h : counters.Tallies outcomes) (blocks : Nat) :
    (counters.account (.ok blocks)).Tallies (outcomes ++ [.ok blocks]) where
  requests := by
    simp [account, addRequests, addBlocksServed, h.requests, UInt64.ofNat_add]
  blocksServed := by
    simp [account, addRequests, addBlocksServed, h.blocksServed, UInt64.ofNat_add]
  errors := by
    intro label
    rw [failureLabels_concat_ok]
    exact h.errors label

theorem Tallies.account_error (h : counters.Tallies outcomes) (error : HistoryError) :
    (counters.account (.error error)).Tallies (outcomes ++ [.error error]) where
  requests := by
    simp [account, addRequests, addErrors, h.requests, UInt64.ofNat_add]
  blocksServed := by
    rw [reportedBlocks_concat_error]
    exact h.blocksServed
  errors := by
    intro label
    have haccount : (counters.account (.error error)).errors[label]? =
        if .ofError error = label then some (counters.errorCount (.ofError error) + 1)
        else counters.errors[label]? :=
      getElem?_errors_addErrors_one (counters.addRequests 1) (.ofError error) label
    rw [haccount, failureLabels_concat_error, List.count_append]
    by_cases hlabel : ErrorLabel.ofError error = label
    · subst hlabel
      rw [if_pos rfl, List.count_singleton_self, if_neg (Nat.succ_ne_zero _), h.errorCount,
        UInt64.ofNat_add]
      rfl
    · have hother : List.count label [ErrorLabel.ofError error] = 0 := by
        simp [hlabel]
      rw [if_neg hlabel, hother, Nat.add_zero]
      exact h.errors label

theorem tallies_foldl_account (outcomes : List (Except HistoryError Nat)) :
    (outcomes.foldl account empty).Tallies outcomes := by
  induction outcomes using List.reverseRecOn with
  | nil => exact tallies_empty
  | append_singleton outcomes outcome ih =>
      rw [List.foldl_concat]
      cases outcome with
      | ok blocks => exact ih.account_ok blocks
      | error error => exact ih.account_error error

/-- There is a counter for each label that a failure had, and for no other. -/
theorem Tallies.map_fst_toList_perm (h : counters.Tallies outcomes) :
    (counters.errors.toList.map Prod.fst).Perm (failureLabels outcomes).dedup := by
  have hnodup : (counters.errors.toList.map Prod.fst).Nodup := by
    apply List.pairwise_map.mpr
    apply Std.ExtTreeMap.distinct_keys_toList.imp
    intro a b hne heq
    exact hne (Std.compare_eq_iff_eq.mpr heq)
  -- Neither list has a label twice, so it is enough that they have the same labels.
  rw [List.perm_ext_iff_of_nodup hnodup (List.nodup_dedup _)]
  intro label
  rw [List.mem_map, List.mem_dedup, ← List.count_pos_iff]
  have herrors := h.errors label
  constructor
  · rintro ⟨⟨_, n⟩, hmem, rfl⟩
    rw [Std.ExtTreeMap.mem_toList_iff_getElem?_eq_some.mp hmem] at herrors
    split at herrors
    · cases herrors
    · omega
  · intro hpos
    rw [if_neg (by omega)] at herrors
    exact ⟨_, Std.ExtTreeMap.mem_toList_iff_getElem?_eq_some.mpr herrors, rfl⟩

/-- All counters of failures together count every failure once. -/
theorem Tallies.sum_errors (h : counters.Tallies outcomes)
    (hsmall : outcomes.length < UInt64.size) :
    (counters.errors.toList.map fun entry => entry.2.toNat).sum =
      (failureLabels outcomes).length := by
  have hvalue : ∀ entry ∈ counters.errors.toList,
      entry.2.toNat = (failureLabels outcomes).count entry.1 := by
    rintro ⟨label, n⟩ hmem
    have herrors := h.errors label
    rw [Std.ExtTreeMap.mem_toList_iff_getElem?_eq_some.mp hmem] at herrors
    split at herrors
    · cases herrors
    · obtain rfl := Option.some.inj herrors
      have hcount : (failureLabels outcomes).count label ≤ (failureLabels outcomes).length :=
        List.count_le_length
      have hlength := length_reportedBlocks_add_length_failureLabels outcomes
      exact UInt64.toNat_ofNat_of_lt' (by omega)
  calc (counters.errors.toList.map fun entry => entry.2.toNat).sum
      = ((counters.errors.toList.map Prod.fst).map (failureLabels outcomes).count).sum := by
        rw [List.map_map]
        exact congrArg List.sum (List.map_congr_left hvalue)
    _ = ((failureLabels outcomes).dedup.map (failureLabels outcomes).count).sum :=
        (h.map_fst_toList_perm.map _).sum_eq
    _ = (failureLabels outcomes).length := List.sum_map_count_dedup_eq_length _

end Counters

namespace Service

/-- A run with a change of settings, an answer for two blocks and a request for none. -/
def sampleCalls : List ServiceCall := [
  .install ⟨some .hideAll, none⟩,
  .history History.gapStore.view History.gapSchedule ⟨3, .ofUInt64 5, none⟩,
  .report History.gapStore.view History.gapSchedule ⟨0, .latest, none⟩]

end Service

end FeeWindow
