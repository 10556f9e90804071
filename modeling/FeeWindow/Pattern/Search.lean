import FeeWindow.Pattern

/-!
Search for a pattern in a text. A set of positions of the text is a natural number read as a set
of bits, and a pattern takes a set of positions where it may start to the set of positions where
it may then end: in a given text it is a motion of such sets. A text contains a pattern if some
position is reached from all of them.
-/

namespace FeeWindow.Pattern

/-- The positions where an assertion holds, bit `0` standing for the position after `before` and in
front of the text. -/
def assertionPlaces (a : Assertion) (before : Option Char) : List Char → Nat
  | [] => (a.holds before none).toNat
  | c :: rest => (a.holds before (some c)).toNat + 2 * assertionPlaces a (some c) rest

/-- The characters of a text, each once with the positions in front of it. -/
abbrev CharIndex := List (Char × Nat)

namespace CharIndex

/-- Adds a position in front of a character. -/
def insert (c : Char) (position : Nat) : CharIndex → CharIndex
  | [] => [(c, 1 <<< position)]
  | (d, places) :: rest =>
      if c = d then (d, places ||| 1 <<< position) :: rest
      else (d, places) :: insert c position rest

/-- The index of a text that begins at a position. -/
def ofText (position : Nat) : List Char → CharIndex
  | [] => []
  | c :: rest => insert c position (ofText (position + 1) rest)

/-- The positions in front of the characters of a set. -/
def places (index : CharIndex) (set : CharSet) : Nat :=
  index.foldr (fun (c, places) rest => if set.mem c then places ||| rest else rest) 0

end CharIndex

/-- `step` taken `count` times; a set that no longer changes stays. -/
def iterate (step : Nat → Nat) : Nat → Nat → Nat
  | 0, set => set
  | count + 1, set =>
      let next := step set
      if next = set then set else iterate step count next

/-- The positions reached in at most `count` steps. -/
def reachedWithin (step : Nat → Nat) (count : Nat) (set : Nat) : Nat :=
  iterate (fun set => set ||| step set) count set

/-- What a pattern does to sets of positions of one text. -/
inductive Motion where
  | stay
  | keep (places : Nat)
  | advance (places : Nat)
  | repeated (m : Motion) (least extra : Nat)
  | seq (m n : Motion)
  | alt (m n : Motion)

/-- The positions where a pattern may end if it starts in `set`. -/
def Motion.run : Motion → Nat → Nat
  | .stay, set => set
  | .keep places, set => set &&& places
  | .advance places, set => (set &&& places) <<< 1
  | .repeated m least extra, set => reachedWithin m.run extra (iterate m.run least set)
  | .seq m n, set => n.run (m.run set)
  | .alt m n, set => m.run set ||| n.run set

/-- The motion of a pattern in a text that has an index. No repetition needs more steps than the
text has characters, as a step in place changes nothing. -/
def motion (text : List Char) (index : CharIndex) : Pattern → Motion
  | .empty => .stay
  | .one set => .advance (index.places set)
  | .assertion a => .keep (assertionPlaces a none text)
  | .group _ p => p.motion text index
  | .repeated p least most _ =>
      let extra := match most with
        | none => text.length
        | some most => most - least
      .repeated (p.motion text index) least extra
  | .seq p q => .seq (p.motion text index) (q.motion text index)
  | .alt p q => .alt (p.motion text index) (q.motion text index)

def isIn (p : Pattern) (text : String) : Bool :=
  let cs := text.toList
  (p.motion cs (.ofText 0 cs)).run ((1 <<< (cs.length + 1)) - 1) != 0

end FeeWindow.Pattern
