import FeeWindow.Numeral
import FeeWindow.Pattern

/-!
Reading escapes and bracketed classes of a pattern. A class is a union of characters, ranges and
named or nested classes; `&&`, `--` and `~~` stand between two unions and take their common
part, their difference and what is in one of them only, from left to right.
-/

namespace FeeWindow.Pattern

/-- What an escape stands for. -/
inductive Escape where
  | char (c : Char)
  | set (s : CharSet)
  | assertion (a : Assertion)

/-- Characters that an escape may put before themselves: punctuation and controls of ASCII other
than the angle brackets. -/
def isEscapable (c : Char) : Bool :=
  c.toNat < 128 && !c.isAlphanum && c != '<' && c != '>'

def hexChar? (ds : List Char) : Option Char := do
  let n ← Numeral.ofText? 16 ds
  if n.isValidChar then some (Char.ofNat n) else none

/-- Reads the digits of a character number: `count` of them, or any number in braces. -/
def hexEscape? (count : Nat) (s : List Char) : Option (Escape × List Char) :=
  match s with
  | c :: rest =>
      if c = '\x7b' then
        match rest.dropWhile (· != '\x7d') with
        | _ :: after => (hexChar? (rest.takeWhile (· != '\x7d'))).map (.char ·, after)
        | [] => none
      else if s.length < count then none
      else (hexChar? (s.take count)).map (.char ·, s.drop count)
  | [] => none

/-- Characters of the name of an edge of words. -/
def isEdgeNameChar (c : Char) : Bool := c.isAlpha || c = '-'

/-- An edge of words by name. -/
def namedEdge? : String → Option Assertion
  | "start" => some .wordStart
  | "end" => some .wordEnd
  | "start-half" => some .noWordBefore
  | "end-half" => some .noWordAfter
  | _ => none

/-- Reads what follows the escape of an edge of words: a name in braces, or nothing of it. Braces
that begin with another character are left for a repetition. -/
def edgeEscape? : List Char → Option (Escape × List Char)
  | c :: d :: rest =>
      if c = '\x7b' ∧ isEdgeNameChar d then
        let name := (d :: rest).takeWhile isEdgeNameChar
        match (d :: rest).dropWhile isEdgeNameChar with
        | e :: after =>
            if e = '\x7d' then (namedEdge? (String.ofList name)).map (.assertion ·, after) else none
        | [] => none
      else some (.assertion .wordEdge, c :: d :: rest)
  | [c] => if c = '\x7b' then none else some (.assertion .wordEdge, [c])
  | [] => some (.assertion .wordEdge, [])

def escape? : List Char → Option (Escape × List Char)
  | [] => none
  | c :: s =>
      if isEscapable c then some (.char c, s)
      else match c with
        | 'd' => some (.set .digit, s)
        | 'D' => some (.set (.compl .digit), s)
        | 's' => some (.set .blank, s)
        | 'S' => some (.set (.compl .blank), s)
        | 'w' => some (.set .word, s)
        | 'W' => some (.set (.compl .word), s)
        | 'a' => some (.char '\x07', s)
        | 'f' => some (.char '\x0c', s)
        | 'n' => some (.char '\n', s)
        | 'r' => some (.char '\r', s)
        | 't' => some (.char '\t', s)
        | 'v' => some (.char '\x0b', s)
        | 'x' => hexEscape? 2 s
        | 'u' => hexEscape? 4 s
        | 'U' => hexEscape? 8 s
        | 'A' => some (.assertion .textStart, s)
        | 'z' => some (.assertion .textEnd, s)
        | 'b' => edgeEscape? s
        | 'B' => some (.assertion .noWordEdge, s)
        | '<' => some (.assertion .wordStart, s)
        | '>' => some (.assertion .wordEnd, s)
        | _ => none

/-- A class read with and without regard to case, and how deeply its brackets, unions and operations
are nested. -/
structure ClassSet where
  exact : CharSet
  anyCase : CharSet
  depth : Nat

namespace ClassSet

def of (set : CharSet) : ClassSet := ⟨set, set, 0⟩

/-- The union of some sets. One set alone stays as it is. -/
def union : List ClassSet → ClassSet
  | [] => .of .empty
  | [set] => set
  | set :: sets =>
      { exact := sets.foldl (fun all set => .union all set.exact) set.exact
        anyCase := sets.foldl (fun all set => .union all set.anyCase) set.anyCase
        depth := sets.foldl (fun depth set => max depth set.depth) set.depth + 1 }

/-- The set inside brackets, closed under case where case is disregarded. -/
def closeBracket (negated : Bool) (set : ClassSet) : ClassSet :=
  ⟨.bracketed false negated set.exact, .bracketed true negated set.anyCase, set.depth + 1⟩

/-- An operation between two unions, each closed under case where case is disregarded. -/
def combine (op : CharSet → CharSet → CharSet) (a b : ClassSet) : ClassSet :=
  ⟨op a.exact b.exact, op (.anyCase a.anyCase) (.anyCase b.anyCase), max a.depth b.depth + 1⟩

end ClassSet

/-- A bracket that is still open: whether it is a complement, what its operations have given so
far with the operation that waits for its right side, and the sets of the union being read, last
first. -/
structure OpenClass where
  negated : Bool
  waiting : Option ((CharSet → CharSet → CharSet) × ClassSet)
  members : List ClassSet

namespace OpenClass

def add (cls : OpenClass) (set : ClassSet) : OpenClass := { cls with members := set :: cls.members }

def settled (cls : OpenClass) : ClassSet :=
  match cls.waiting with
  | none => .union cls.members
  | some (op, left) => .combine op left (.union cls.members)

/-- Makes what has been read the left side of an operation. -/
def operate (cls : OpenClass) (op : CharSet → CharSet → CharSet) : OpenClass :=
  { cls with waiting := some (op, cls.settled), members := [] }

def close (cls : OpenClass) : ClassSet := cls.settled.closeBracket cls.negated

end OpenClass

/-- Reads the start of a class after its bracket. Hyphens in front are members, and so is a
closing bracket that comes first. -/
def openClass (s : List Char) : OpenClass × List Char :=
  let (negated, s) := match s with
    | '^' :: s => (true, s)
    | s => (false, s)
  match s with
  | ']' :: s => (⟨negated, none, [.of (.single ']')]⟩, s)
  | s =>
      let hyphens := (s.takeWhile (· = '-')).map fun c => ClassSet.of (.single c)
      (⟨negated, none, hyphens⟩, s.dropWhile (· = '-'))

/-- Reads a class with a name after its bracket, as in `[:alpha:]`. -/
def namedClass? : List Char → Option (ClassSet × List Char)
  | ':' :: s =>
      let (negated, s) := match s with
        | '^' :: s => (true, s)
        | s => (false, s)
      match s.dropWhile (· != ':') with
      | ':' :: ']' :: after =>
          (CharSet.named? (String.ofList (s.takeWhile (· != ':')))).map fun set =>
            (⟨.bracketed false negated set, .bracketed true negated set, 0⟩, after)
      | _ => none
  | _ => none

/-- Reads one character or escape of a class. -/
def classItem? : List Char → Option (Escape × List Char)
  | [] => none
  | '\\' :: s => escape? s
  | c :: s => some (.char c, s)

/-- The set of an item that stands alone in a class. Assertions cannot. -/
def Escape.classSet? : Escape → Option ClassSet
  | .char c => some (.of (.single c))
  | .set s => some (.of s)
  | .assertion _ => none

/-- Reads an item of a class or a range between two characters. A hyphen before a closing
bracket or another hyphen makes no range. -/
def classRange? (s : List Char) : Option (ClassSet × List Char) := do
  let (first, s) ← classItem? s
  match s with
  | [] => none
  | '-' :: ']' :: _ | '-' :: '-' :: _ => return (← first.classSet?, s)
  | '-' :: s =>
      let (second, s) ← classItem? s
      match first, second with
      | .char low, .char high =>
          if low ≤ high then some (.of (.range low high), s) else none
      | _, _ => none
  | s => return (← first.classSet?, s)

/-- Reads classes until the outermost open one closes. Every step consumes a character and costs
one of `fuel`. -/
def classRest? (fuel : Nat) (outer : List OpenClass) (cls : OpenClass) (s : List Char) :
    Option (ClassSet × List Char) :=
  match fuel with
  | 0 => none
  | fuel + 1 =>
    match s with
    | [] => none
    | '[' :: s =>
        match namedClass? s with
        | some (set, s) => classRest? fuel outer (cls.add set) s
        | none =>
            let (inner, s) := openClass s
            classRest? fuel (cls :: outer) inner s
    | ']' :: s =>
        match outer with
        | [] => some (cls.close, s)
        | next :: outer => classRest? fuel outer (next.add cls.close) s
    | '&' :: '&' :: s => classRest? fuel outer (cls.operate .inter) s
    | '-' :: '-' :: s => classRest? fuel outer (cls.operate .diff) s
    | '~' :: '~' :: s => classRest? fuel outer (cls.operate .symmDiff) s
    | s =>
        match classRange? s with
        | some (set, s) => classRest? fuel outer (cls.add set) s
        | none => none

def class? (s : List Char) : Option (ClassSet × List Char) :=
  let (cls, rest) := openClass s
  classRest? (rest.length + 1) [] cls rest

end FeeWindow.Pattern
