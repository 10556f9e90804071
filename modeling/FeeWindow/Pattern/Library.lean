import FeeWindow.Pattern.Reader
import FeeWindow.Pattern.Search
import FeeWindow.PatternSearch

/-!
The library that a program runs with where it is given no other one. It reads the patterns that are
described here: properties of characters by name, single bytes, and the settings for verbose
patterns, other line ends and Unicode are not among them.
-/

namespace FeeWindow

instance Pattern.library : PatternSearch where
  Compiled := Pattern
  compile? := Pattern.ofString?
  isIn := Pattern.isIn

end FeeWindow
