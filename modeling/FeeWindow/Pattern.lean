import FeeWindow.Pattern.CharSet

/-!
Search patterns for texts: what a pattern is, once its text has been read.
-/

namespace FeeWindow

/-- A condition on a position of a text. -/
inductive Assertion where
  | textStart
  | textEnd
  | lineStart
  | lineEnd
  | wordEdge
  | noWordEdge
  | wordStart
  | wordEnd
  | noWordBefore
  | noWordAfter
  deriving DecidableEq

/-- Whether an assertion holds between two neighbours; a missing one is an end of the text. -/
def Assertion.holds (assertion : Assertion) (before after : Option Char) : Bool :=
  let wordBefore := before.any Text.isWordChar
  let wordAfter := after.any Text.isWordChar
  match assertion with
  | .textStart => before.isNone
  | .textEnd => after.isNone
  | .lineStart => before.all (· = '\n')
  | .lineEnd => after.all (· = '\n')
  | .wordEdge => wordBefore != wordAfter
  | .noWordEdge => wordBefore == wordAfter
  | .wordStart => !wordBefore && wordAfter
  | .wordEnd => wordBefore && !wordAfter
  | .noWordBefore => !wordBefore
  | .noWordAfter => !wordAfter

/-- How a group is written: capturing, under a name or without one, or plain. -/
inductive GroupKind where
  | capturing
  | named (name : String)
  | plain
  deriving DecidableEq

/-- A search pattern. A repetition has a least and possibly a greatest count, and is eager for
more or content with fewer, which tells matches apart but not whether there is one. -/
inductive Pattern where
  | empty
  | one (set : CharSet)
  | assertion (a : Assertion)
  | group (kind : GroupKind) (p : Pattern)
  | repeated (p : Pattern) (least : Nat) (most : Option Nat) (eager : Bool)
  | seq (p q : Pattern)
  | alt (p q : Pattern)

end FeeWindow
