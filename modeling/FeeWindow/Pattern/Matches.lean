import FeeWindow.Pattern

/-!
What it means for a part of a text to match a pattern. The part stands between what comes before
it and what comes after it in the whole text, because assertions look at the neighbours of a
position.
-/

namespace FeeWindow.Pattern

/-- A statement about a part of a text, given what stands before it, the part, and what stands
after it. -/
abbrev PartPredicate := List Char → List Char → List Char → Prop

/-- A part made of two parts, one after the other. -/
def Followed (first second : PartPredicate) : PartPredicate := fun before part after =>
  ∃ left right, part = left ++ right ∧
    first before left (right ++ after) ∧ second (before ++ left) right after

/-- A part made of `count` parts, one after the other. -/
def Times (each : PartPredicate) : Nat → PartPredicate
  | 0 => fun _ part _ => part = []
  | count + 1 => Followed each (Times each count)

/-- The parts that a pattern matches. Groups and eagerness do not matter. -/
def Matches : Pattern → PartPredicate
  | .empty => fun _ part _ => part = []
  | .one set => fun _ part _ => ∃ c, part = [c] ∧ set.mem c = true
  | .assertion a => fun before part after =>
      part = [] ∧ a.holds before.getLast? after.head? = true
  | .group _ p => p.Matches
  | .repeated p least most _ => fun before part after =>
      ∃ count, least ≤ count ∧ (∀ m, most = some m → count ≤ m) ∧
        Times p.Matches count before part after
  | .seq p q => Followed p.Matches q.Matches
  | .alt p q => fun before part after => p.Matches before part after ∨ q.Matches before part after

end FeeWindow.Pattern
