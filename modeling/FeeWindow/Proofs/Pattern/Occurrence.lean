import FeeWindow.Pattern.Library
import FeeWindow.Proofs.Pattern.Plain

/-!
What the search of this project's own library answers, from the text of the pattern on. It always
answers for a pattern that is accepted, and says whether the text splits into a part that matches
and what stands before and after it. How groups are written and what repetitions are eager for does
not change the answer.
-/

namespace FeeWindow

open Pattern

variable {pattern other text : String} {p q : Pattern}

theorem findPattern?_eq_map : findPattern? pattern text =
    (ofString? pattern).map fun p => p.isIn text := rfl

theorem findPattern?_eq_none_iff : findPattern? pattern text = none ↔ ofString? pattern = none :=
  Option.map_eq_none_iff

theorem findPattern?_of_ofString? (h : ofString? pattern = some p) :
    findPattern? pattern text = some (p.isIn text) := by
  rw [findPattern?_eq_map, h]
  rfl

theorem findPattern?_eq_some_iff {found : Bool} : findPattern? pattern text = some found ↔
    ∃ p, ofString? pattern = some p ∧ (found = true ↔ p.OccursIn text.toList) := by
  constructor
  · intro h
    rw [findPattern?_eq_map] at h
    obtain ⟨p, hp, rfl⟩ := Option.map_eq_some_iff.mp h
    exact ⟨p, hp, (hasOrderedCounts_of_ofString? hp).isIn_iff text⟩
  · rintro ⟨p, hp, hfound⟩
    have hisIn := (hasOrderedCounts_of_ofString? hp).isIn_iff text
    rw [findPattern?_of_ofString? hp, Option.some.injEq, Bool.eq_iff_iff, hfound, hisIn]

/-- Patterns with the same plain tokens are found in the same texts. -/
theorem findPattern?_congr (hp : ofString? pattern = some p) (hq : ofString? other = some q)
    (h : plainTokens? other = plainTokens? pattern) :
    findPattern? other text = findPattern? pattern text := by
  rw [findPattern?_of_ofString? hp, findPattern?_of_ofString? hq, ← isIn_plain p, ← isIn_plain q,
    plain_eq_of_plainTokens?_eq hq hp h]

/-- A search has no answer only where the pattern is refused. It finds the pattern exactly if the
text splits into what stands before a part, the part and what stands after it, where the part
matches at its place. A pattern that differs in the kinds of its groups and in the eagerness of its
repetitions alone is found exactly where this one is. -/
theorem findPattern?_iff_matches (pattern text : String) :
    (findPattern? pattern text = none ↔ ofString? pattern = none) ∧
    (∀ found, findPattern? pattern text = some found ↔ ∃ p, ofString? pattern = some p ∧
      (found = true ↔ ∃ before part after, text.toList = before ++ part ++ after ∧
        p.Matches before part after)) ∧
    (∀ other, plainTokens? other = plainTokens? pattern → (ofString? pattern).isSome = true →
      (ofString? other).isSome = true → findPattern? other text = findPattern? pattern text) := by
  refine ⟨findPattern?_eq_none_iff, fun found => findPattern?_eq_some_iff, ?_⟩
  intro other htokens hpattern hother
  obtain ⟨p, hp⟩ := Option.isSome_iff_exists.mp hpattern
  obtain ⟨q, hq⟩ := Option.isSome_iff_exists.mp hother
  exact findPattern?_congr hp hq htokens

example : findPattern? "(|a)\x7b2,\x7d\\b" "xa" = some true := by decide +kernel

end FeeWindow
