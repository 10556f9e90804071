import FeeWindow.PatternSearch

/-!
Which lines of the log are shown. A filter keeps its pattern as text, so that it can be handed
out again; a text that is no pattern shows nothing.
-/

namespace FeeWindow

inductive LineFilter where
  | showAll
  | hideAll
  | showPattern (pattern : String)
  | hidePattern (pattern : String)
  deriving DecidableEq

section Search

variable [PatternSearch]

namespace LineFilter

/-- The pattern of a filter, if it has one that can be read. -/
def pattern? : LineFilter → Option PatternSearch.Compiled
  | .showAll | .hideAll => none
  | .showPattern pattern | .hidePattern pattern => PatternSearch.compile? pattern

/-- Whether the text of the filter's pattern, if it has one, is a pattern. -/
def isValid : LineFilter → Bool
  | .showAll | .hideAll => true
  | filter => filter.pattern?.isSome

end LineFilter

/-- A filter at work, with its pattern read once for all lines. -/
structure LineScreen where
  filter : LineFilter
  pattern : Option PatternSearch.Compiled
  pattern_eq : pattern = filter.pattern?

def LineFilter.screen (filter : LineFilter) : LineScreen := ⟨filter, filter.pattern?, rfl⟩

def LineScreen.shows (screen : LineScreen) (line : String) : Bool :=
  match screen.filter with
  | .showAll => true
  | .hideAll => false
  | .showPattern _ => screen.pattern.any fun compiled => PatternSearch.isIn compiled line
  | .hidePattern _ => screen.pattern.any fun compiled => !PatternSearch.isIn compiled line

def LineFilter.shows (filter : LineFilter) (line : String) : Bool := filter.screen.shows line

variable (pattern line : String)

theorem LineFilter.shows_showPattern :
    (showPattern pattern).shows line = (findPattern? pattern line).getD false := by
  cases h : PatternSearch.compile? pattern <;>
    simp [shows, screen, LineScreen.shows, pattern?, findPattern?, h]

theorem LineFilter.shows_hidePattern :
    (hidePattern pattern).shows line = !(findPattern? pattern line).getD true := by
  cases h : PatternSearch.compile? pattern <;>
    simp [shows, screen, LineScreen.shows, pattern?, findPattern?, h]

end Search

end FeeWindow
