/-!
Sets of characters as ranges of character numbers, both ends included. Ranges are in standard form
if they ascend and no two of them touch; the operations give standard form.
-/

namespace FeeWindow.Text

/-- Whether a character number lies in one of some ranges. -/
def numberInRanges (ranges : List (Nat × Nat)) (n : Nat) : Bool :=
  ranges.any fun (low, high) => low ≤ n && n ≤ high

def inRanges (ranges : List (Nat × Nat)) (c : Char) : Bool := numberInRanges ranges c.toNat

/-- Puts a range in front of ranges that begin no earlier, and joins those that touch it. -/
def joinRanges (low high : Nat) : List (Nat × Nat) → List (Nat × Nat)
  | [] => [(low, high)]
  | (nextLow, nextHigh) :: rest =>
      if nextLow ≤ high + 1 then joinRanges low (max high nextHigh) rest
      else (low, high) :: joinRanges nextLow nextHigh rest

/-- The standard form of ranges that ascend by their lower ends. -/
def standardRanges : List (Nat × Nat) → List (Nat × Nat)
  | [] => []
  | (low, high) :: rest => joinRanges low high rest

def beginsBefore (a b : Nat × Nat) : Bool := a.1 ≤ b.1

/-- The standard form of any ranges. -/
def sortedRanges (ranges : List (Nat × Nat)) : List (Nat × Nat) :=
  standardRanges (ranges.mergeSort beginsBefore)

def unionRanges (a b : List (Nat × Nat)) : List (Nat × Nat) :=
  standardRanges (a.merge b beginsBefore)

/-- The greatest number of a character. -/
def lastCharNumber : Nat := 0x10FFFF

/-- Whether a range holds a character: the numbers of surrogates stand for none. -/
def holdsChar (range : Nat × Nat) : Bool := !(0xD800 ≤ range.1 && range.2 ≤ 0xDFFF)

/-- The ranges between those given, from `next` on. -/
def gapRanges (next : Nat) : List (Nat × Nat) → List (Nat × Nat)
  | [] => if next ≤ lastCharNumber then [(next, lastCharNumber)] else []
  | (low, high) :: rest =>
      if next < low then (next, low - 1) :: gapRanges (high + 1) rest
      else gapRanges (high + 1) rest

def complRanges (ranges : List (Nat × Nat)) : List (Nat × Nat) :=
  (gapRanges 0 ranges).filter holdsChar

def interRanges (a b : List (Nat × Nat)) : List (Nat × Nat) :=
  complRanges (unionRanges (complRanges a) (complRanges b))

def diffRanges (a b : List (Nat × Nat)) : List (Nat × Nat) :=
  complRanges (unionRanges (complRanges a) b)

def symmDiffRanges (a b : List (Nat × Nat)) : List (Nat × Nat) :=
  unionRanges (diffRanges a b) (diffRanges b a)

end FeeWindow.Text
