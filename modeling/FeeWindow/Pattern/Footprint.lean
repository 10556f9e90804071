import FeeWindow.Pattern.Reduced
import FeeWindow.Text.ByteSpans

/-!
How many bytes the automaton of a pattern takes. The automaton reads a text byte by byte; there is
one for reading forward, which also notes where captures begin and end, and one for reading
backward. A state takes a fixed number of bytes, and more for each way out of it: an edge reads a
byte of some range, a link reads nothing. States with one way out hold it themselves.
-/

namespace FeeWindow.Pattern

/-- The direction in which an automaton reads. -/
inductive Direction where
  | forward
  | backward
  deriving DecidableEq

def stateBytes : Nat := 32

def edgeBytes : Nat := 8

def linkBytes : Nat := 4

/-- Byte spans with the same first range, gathered. -/
def gatherSpans : List Text.ByteSpan → List (Text.ByteRange × List Text.ByteSpan)
  | [] => []
  | [] :: spans => gatherSpans spans
  | (range :: rest) :: spans =>
      match gatherSpans spans with
      | (next, rests) :: others =>
          if range = next then (next, rest :: rests) :: others
          else (range, [rest]) :: (next, rests) :: others
      | [] => [(range, [rest])]

/-- The states that tell byte spans of at most `length` bytes apart, each as the spans that are left
to read there. -/
def spanStates : Nat → List Text.ByteSpan → List (List Text.ByteSpan)
  | 0, _ => []
  | length + 1, spans =>
      spans :: (gatherSpans spans).flatMap fun (_, rests) =>
        if rests.all List.isEmpty then [] else spanStates length rests

/-- How many of the beginnings of byte spans differ, if equal ones follow each other. -/
def countBeginnings (before : Text.ByteSpan) : List Text.ByteSpan → Nat
  | [] => 0
  | span :: spans =>
      let shared := ((before.zip span).takeWhile fun (a, b) => a == b).length
      span.length - shared + countBeginnings span spans

/-- The bytes of a set of characters. Sets of ASCII characters have an edge for each range. Others
are read as byte spans: forward, states with the same spans left are one; backward, spans share
the states of what they have in common at the front. -/
def setBytes (direction : Direction) (ranges : List (Nat × Nat)) : Nat :=
  if ranges.all (·.2 < 0x80) then 2 * stateBytes + ranges.length * edgeBytes
  else
    let spans := ranges.flatMap fun (low, high) => Text.byteSpans low high
    match direction with
    | .forward =>
        let states := (spanStates 4 spans).eraseDups
        stateBytes +
          total (states.map fun rests => stateBytes + (gatherSpans rests).length * edgeBytes)
    | .backward =>
        2 * stateBytes + spans.length * linkBytes + countBeginnings [] spans * stateBytes

def textBytes (direction : Direction) (s : List Char) : List UInt8 :=
  let bytes := s.flatMap String.utf8EncodeChar
  match direction with
  | .forward => bytes
  | .backward => bytes.reverse

/-- Splits words into groups at those that have ended. Before any word goes on, the first end
counts alone. -/
def splitWords (goesOn ended : Bool) : List (List UInt8) → List (List (List UInt8))
  | [] => [[]]
  | [] :: words =>
      if ended && !goesOn then splitWords goesOn ended words
      else [] :: splitWords goesOn true words
  | word :: words =>
      match splitWords true ended words with
      | front :: groups => (word :: front) :: groups
      | [] => [[word]]

/-- What is left of the words of a group after each of their first bytes. -/
def wordRests (words : List (List UInt8)) : List (List (List UInt8)) :=
  (words.filterMap List.head?).eraseDups.map fun byte =>
    words.filterMap fun word =>
      match word with
      | first :: rest => if first = byte then some rest else none
      | [] => none

/-- The bytes of the states of a tree that spells words of at most `length` bytes. A place where
words go on links to a state for each of its groups, and to the end between two groups. -/
def wordTreeBytes : Nat → List (List UInt8) → Nat
  | 0, _ => 0
  | length + 1, words =>
      let groups := (splitWords false false words).map wordRests
      let groupBytes (rests : List (List (List UInt8))) : Nat :=
        match rests with
        | [] => 0
        | [_] => linkBytes + stateBytes
        | _ => linkBytes + stateBytes + rests.length * edgeBytes
      stateBytes + total (groups.map groupBytes) + (groups.length - 1) * linkBytes +
        total (groups.flatten.map fun rest =>
          if rest.all List.isEmpty then 0 else wordTreeBytes length rest)

/-- The bytes of a choice between texts: a tree that spells them, and its end. -/
def textChoiceBytes (direction : Direction) (texts : List (List Char)) : Nat :=
  let words := texts.map (textBytes direction)
  stateBytes + wordTreeBytes ((words.map List.length).foldl max 0 + 1) words

/-- The bytes of a part of an automaton, and those of one more link out of its end, where that end
is a state of links. -/
structure Extent where
  bytes : Nat
  exit : Nat

/-- The bytes of a part that is a link away from a choice and from there goes on to its end. -/
def Extent.branch (e : Extent) : Nat := linkBytes + e.bytes + e.exit

/-- What a pattern becomes: one part, or the branches of a choice that may go on; and the texts that
it is the choice of, if it is no more than that. -/
inductive Layout where
  | part (extent : Extent) (texts : Option (List (List Char)))
  | choice (branchBytes : Nat) (texts : Option (List (List Char)))

namespace Layout

/-- A part that ends in a state with one way out. -/
def closed (bytes : Nat) : Layout := .part ⟨bytes, 0⟩ none

def extent (direction : Direction) : Layout → Extent
  | .part e _ => e
  | .choice _ (some texts) => ⟨textChoiceBytes direction texts, 0⟩
  | .choice branchBytes none => ⟨2 * stateBytes + branchBytes, 0⟩

def branchBytes : Layout → Nat
  | .part e _ => e.branch
  | .choice bytes _ => bytes

def texts : Layout → Option (List (List Char))
  | .part _ texts | .choice _ texts => texts

end Layout

/-- `count` copies of a part in a row. -/
def Extent.copies (e : Extent) (count : Nat) : Extent :=
  if count = 0 then ⟨stateBytes, 0⟩ else ⟨count * e.bytes + (count - 1) * e.exit, e.exit⟩

/-- A repetition. Without a greatest count, the last copy goes back to its start; what may be empty
has a second state of links, so that it is tried once before it goes on. Copies above the least
count each have a link past all others. -/
def Extent.repeated (e : Extent) (mayBeEmpty : Bool) (least : Nat) (most : Option Nat) : Extent :=
  match least, most with
  | 0, some 1 => ⟨2 * stateBytes + 2 * linkBytes + e.bytes + e.exit, 0⟩
  | 0, none =>
      if mayBeEmpty then ⟨3 * stateBytes + 4 * linkBytes + e.bytes + e.exit, 0⟩
      else ⟨stateBytes + linkBytes + e.bytes + e.exit, linkBytes⟩
  | least, none => ⟨least * (e.bytes + e.exit) + stateBytes + linkBytes, linkBytes⟩
  | least, some most =>
      let start := e.copies least
      if least = most then start
      else
        ⟨start.bytes + start.exit + stateBytes +
          (most - least) * (stateBytes + 2 * linkBytes + e.bytes + e.exit), 0⟩

def Reduced.layout (direction : Direction) : Reduced → Layout
  | .nothing | .assertion _ => .closed stateBytes
  | .text s => .part ⟨(textBytes direction s).length * stateBytes, 0⟩ (some [s])
  | .oneOf ranges => .closed (setBytes direction ranges)
  | .repeated p least most _ =>
      let mayBeEmpty := p.leastLength?.all (· = 0)
      .part (((p.layout direction).extent direction).repeated mayBeEmpty least most) none
  | .capture p =>
      let e := (p.layout direction).extent direction
      match direction with
      | .forward => .closed (2 * stateBytes + e.bytes + e.exit)
      | .backward => .part e none
  | .seq p q =>
      let a := (p.layout direction).extent direction
      let b := (q.layout direction).extent direction
      match direction with
      | .forward => .part ⟨a.bytes + a.exit + b.bytes, b.exit⟩ none
      | .backward => .part ⟨b.bytes + b.exit + a.bytes, a.exit⟩ none
  | .alt p q =>
      let a := p.layout direction
      let b := q.layout direction
      .choice (a.branchBytes + b.branchBytes) (do return (← a.texts) ++ (← b.texts))

/-- Whether a match can only be where reading in a direction starts. -/
def Reduced.isAnchored (p : Reduced) : Direction → Bool
  | .forward => p.beginsWith .textStart
  | .backward => p.endsWith .textEnd

/-- The bytes of the automaton that finds a pattern: what skips to a match unless that is anchored,
the pattern itself, which forward is a capture, and a state for having matched. -/
def Reduced.automatonBytes (direction : Direction) (p : Reduced) : Nat :=
  let e := ((Reduced.capture p).layout direction).extent direction
  let skipping :=
    if p.isAnchored direction then stateBytes else 3 * stateBytes + edgeBytes + 2 * linkBytes
  skipping + e.bytes + e.exit + stateBytes

/-- The bytes of the larger automaton of a pattern. -/
def footprint (p : Pattern) : Nat :=
  let reduced := p.reduce
  max (reduced.automatonBytes .forward) (reduced.automatonBytes .backward)

/-- The greatest footprint of a pattern that is accepted. -/
def footprintLimit : Nat := 10 * 1024 * 1024

end FeeWindow.Pattern
