import FeeWindow.Pattern.Footprint
import FeeWindow.Pattern.Token

/-!
Building a pattern from its tokens, one token at a time, with the groups that are still open on a
stack. A text is refused where a repetition has nothing in front of it, where parentheses do not
match, and where two groups share a name. A pattern is refused that is nested too deeply or whose
automaton would be too large.
-/

namespace FeeWindow.Pattern

/-- The settings in force at a place of a pattern. -/
structure Mode where
  ignoreCase : Bool
  multiLine : Bool
  dotNewline : Bool
  swapEager : Bool

namespace Mode

def initial : Mode := ⟨false, false, false, false⟩

def set (mode : Mode) : Setting × Bool → Mode
  | (.ignoreCase, on) => { mode with ignoreCase := on }
  | (.multiLine, on) => { mode with multiLine := on }
  | (.dotNewline, on) => { mode with dotNewline := on }
  | (.swapEager, on) => { mode with swapEager := on }

def apply (mode : Mode) (settings : Settings) : Mode := settings.foldl set mode

end Mode

/-- A part of a pattern, and how deeply its groups, repetitions, sequences, choices and brackets are
nested. -/
structure Part where
  pattern : Pattern
  depth : Nat

namespace Part

def empty : Part := ⟨.empty, 0⟩

def wrap (part : Part) (around : Pattern → Pattern) : Part :=
  ⟨around part.pattern, part.depth + 1⟩

/-- Some parts, given last first, joined in their order. One part alone stays as it is. -/
def join (op : Pattern → Pattern → Pattern) : List Part → Part
  | [] => .empty
  | [part] => part
  | last :: before =>
      { pattern := before.foldl (fun rest part => op part.pattern rest) last.pattern
        depth := before.foldl (fun depth part => max depth part.depth) last.depth + 1 }

end Part

/-- What surrounds an open group: its kind, and the state to go back to when it closes. -/
structure Enclosing where
  kind : GroupKind
  mode : Mode
  branches : List Part
  items : List Part

/-- A pattern under construction: the open groups, innermost first, the settings in force, the
finished branches and the items of the unfinished one, last first, whether the last item can be
repeated, and the names in use. -/
structure Assembly where
  outer : List Enclosing
  mode : Mode
  branches : List Part
  items : List Part
  repeatable : Bool
  names : List String

namespace Assembly

def start : Assembly := ⟨[], .initial, [], [], false, []⟩

/-- The content of the innermost open group, or of the whole text. -/
def inner (a : Assembly) : Part := .join .alt (.join .seq a.items :: a.branches)

def push (a : Assembly) (part : Part) : Assembly :=
  { a with items := part :: a.items, repeatable := true }

/-- Adds the name of a group, unless it is in use. -/
def declare? (a : Assembly) : GroupKind → Option Assembly
  | .named name => if a.names.contains name then none else some { a with names := name :: a.names }
  | _ => some a

def step? (a : Assembly) : Token → Option Assembly
  | .item set =>
      some (a.push ⟨.one (if a.mode.ignoreCase then set.anyCase else set.exact), set.depth⟩)
  | .dot =>
      some (a.push ⟨.one (if a.mode.dotNewline then .all else .compl (.single '\n')), 0⟩)
  | .caret => some (a.push ⟨.assertion (if a.mode.multiLine then .lineStart else .textStart), 0⟩)
  | .dollar => some (a.push ⟨.assertion (if a.mode.multiLine then .lineEnd else .textEnd), 0⟩)
  | .assertion condition => some (a.push ⟨.assertion condition, 0⟩)
  | .repetition least most lazy =>
      match a.repeatable, a.items with
      | true, item :: items =>
          let eager := lazy == a.mode.swapEager
          some { a with items := item.wrap (.repeated · least most eager) :: items }
      | _, _ => none
  | .opening kind settings => do
      let a ← a.declare? kind
      some { a with
        outer := ⟨kind, a.mode, a.branches, a.items⟩ :: a.outer
        mode := a.mode.apply settings
        branches := []
        items := []
        repeatable := false }
  | .closing =>
      match a.outer with
      | [] => none
      | enclosing :: outer =>
          some { a with
            outer
            mode := enclosing.mode
            branches := enclosing.branches
            items := a.inner.wrap (.group enclosing.kind) :: enclosing.items
            repeatable := true }
  | .bar =>
      some { a with
        branches := .join .seq a.items :: a.branches
        items := []
        repeatable := false }
  | .settings settings =>
      some { a with
        mode := a.mode.apply settings
        items := .empty :: a.items
        repeatable := false }

end Assembly

/-- What tokens spell. -/
def ofTokens? (tokens : List Token) : Option Part := do
  let assembly ← tokens.foldlM Assembly.step? .start
  if assembly.outer = [] then some assembly.inner else none

/-- The greatest depth of a pattern that is accepted. -/
def depthLimit : Nat := 250

/-- Whether a pattern is accepted. -/
def Part.isWithinLimits (part : Part) : Bool :=
  part.depth ≤ depthLimit && part.pattern.footprint ≤ footprintLimit

/-- The pattern of a text, if the text is a pattern and that is accepted. -/
def ofString? (text : String) : Option Pattern := do
  let s := text.toList
  let part ← ofTokens? (← tokens? s.length s)
  if part.isWithinLimits then some part.pattern else none

end FeeWindow.Pattern
