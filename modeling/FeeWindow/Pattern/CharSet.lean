import FeeWindow.Text.CharClass
import FeeWindow.Text.Folding

/-!
Sets of characters as a pattern describes them.
-/

namespace FeeWindow

inductive CharSet where
  | empty
  | range (low high : Char)
  | digit
  | blank
  | word
  | union (a b : CharSet)
  | inter (a b : CharSet)
  | diff (a b : CharSet)
  | symmDiff (a b : CharSet)
  | compl (a : CharSet)
  | anyCase (a : CharSet)

namespace CharSet

/-- Whether a character is in a set. A set in any case has all case variants of its members. -/
def mem : CharSet → Char → Bool
  | .empty, _ => false
  | .range low high, c => low ≤ c && c ≤ high
  | .digit, c => Text.isDecimalDigit c
  | .blank, c => Text.isWhiteSpace c
  | .word, c => Text.isWordChar c
  | .union a b, c => a.mem c || b.mem c
  | .inter a b, c => a.mem c && b.mem c
  | .diff a b, c => a.mem c && !b.mem c
  | .symmDiff a b, c => a.mem c != b.mem c
  | .compl a, c => !a.mem c
  | .anyCase a, c => (Text.caseVariants c.toNat).any fun n => a.mem (Char.ofNat n)

/-- The ranges of a set, in standard form. -/
def ranges : CharSet → List (Nat × Nat)
  | .empty => []
  | .range low high => if low ≤ high then [(low.toNat, high.toNat)] else []
  | .digit => Text.digitRanges
  | .blank => Text.blankRanges
  | .word => Text.wordRanges
  | .union a b => Text.unionRanges a.ranges b.ranges
  | .inter a b => Text.interRanges a.ranges b.ranges
  | .diff a b => Text.diffRanges a.ranges b.ranges
  | .symmDiff a b => Text.symmDiffRanges a.ranges b.ranges
  | .compl a => Text.complRanges a.ranges
  | .anyCase a => Text.caseClosedRanges a.ranges

def single (c : Char) : CharSet := .range c c

def all : CharSet := .compl .empty

/-- The union of ranges. -/
def ofRanges (ranges : List (Char × Char)) : CharSet :=
  ranges.foldl (fun set (low, high) => .union set (.range low high)) .empty

/-- The set inside brackets, in any case if asked for, and then possibly turned into its
complement. -/
def bracketed (anyCase negated : Bool) (set : CharSet) : CharSet :=
  let set := if anyCase then .anyCase set else set
  if negated then .compl set else set

/-- The classes of ASCII characters that have a name. -/
def named? : String → Option CharSet
  | "alnum" => some (ofRanges [('0', '9'), ('A', 'Z'), ('a', 'z')])
  | "alpha" => some (ofRanges [('A', 'Z'), ('a', 'z')])
  | "ascii" => some (ofRanges [('\x00', '\x7f')])
  | "blank" => some (ofRanges [('\t', '\t'), (' ', ' ')])
  | "cntrl" => some (ofRanges [('\x00', '\x1f'), ('\x7f', '\x7f')])
  | "digit" => some (ofRanges [('0', '9')])
  | "graph" => some (ofRanges [('!', '~')])
  | "lower" => some (ofRanges [('a', 'z')])
  | "print" => some (ofRanges [(' ', '~')])
  | "punct" => some (ofRanges [('!', '/'), (':', '@'), ('[', '\x60'), ('\x7b', '~')])
  | "space" => some (ofRanges [('\t', '\r'), (' ', ' ')])
  | "upper" => some (ofRanges [('A', 'Z')])
  | "word" => some (ofRanges [('0', '9'), ('A', 'Z'), ('_', '_'), ('a', 'z')])
  | "xdigit" => some (ofRanges [('0', '9'), ('A', 'F'), ('a', 'f')])
  | _ => none

end CharSet

end FeeWindow
