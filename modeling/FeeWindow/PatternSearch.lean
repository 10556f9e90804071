/-!
The library that reads search patterns and looks for them in texts. Which texts it takes for
patterns and where it finds them is left open, so what is said of its callers holds of any library.
-/

namespace FeeWindow

/-- A library for search patterns: what it makes of a text, if the text is a pattern, and whether
that occurs in a text. -/
class PatternSearch where
  Compiled : Type
  compile? : String → Option Compiled
  isIn : Compiled → String → Bool

variable [PatternSearch]

/-- Whether a text contains a pattern, if the pattern is one. -/
def findPattern? (pattern text : String) : Option Bool :=
  (PatternSearch.compile? pattern).map fun compiled => PatternSearch.isIn compiled text

end FeeWindow
