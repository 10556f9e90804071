import FeeWindow.Pattern.ClassReader

/-!
The tokens of a pattern's text: items, repetitions, groups, bars and settings.
-/

namespace FeeWindow.Pattern

/-- What a letter in a group's head can set. -/
inductive Setting where
  | ignoreCase
  | multiLine
  | dotNewline
  | swapEager
  deriving DecidableEq

/-- Settings with their new values. -/
abbrev Settings := List (Setting × Bool)

inductive Token where
  | item (set : ClassSet)
  | dot
  | caret
  | dollar
  | assertion (a : Assertion)
  | repetition (least : Nat) (most : Option Nat) (lazy : Bool)
  | opening (kind : GroupKind) (settings : Settings)
  | closing
  | bar
  | settings (settings : Settings)

/-- The token of a single character, which in any case stands for its variants too. -/
def Token.ofChar (c : Char) : Token := .item ⟨.single c, .anyCase (.single c), 0⟩

def Token.ofEscape : Escape → Token
  | .char c => .ofChar c
  | .set s => .item (.of s)
  | .assertion a => .assertion a

/-- Reads the question mark of a repetition that is content with fewer. -/
def lazyMark : List Char → Bool × List Char
  | '?' :: s => (true, s)
  | s => (false, s)

/-- The token of a repetition, after whose sign `s` follows. -/
def repetition (least : Nat) (most : Option Nat) (s : List Char) : Token × List Char :=
  let (lazy, s) := lazyMark s
  (.repetition least most lazy, s)

/-- Reads a count of at most 32 bits with blanks around it. -/
def count? (s : List Char) : Option (Nat × List Char) := do
  let s := s.dropWhile Text.isWhiteSpace
  let n ← Numeral.ofText? 10 (s.takeWhile Char.isDigit)
  if n < UInt32.size then some (n, (s.dropWhile Char.isDigit).dropWhile Text.isWhiteSpace) else none

/-- Reads the closing brace of counts. -/
def countsEnd? (least : Nat) (most : Option Nat) : List Char → Option (Token × List Char)
  | c :: s =>
      if c = '\x7d' ∧ most.all (least ≤ ·) then some (repetition least most s) else none
  | [] => none

/-- Reads the counts of a repetition after the opening brace: one, a least one, or both. -/
def counts? (s : List Char) : Option (Token × List Char) := do
  let (least, s) ← count? s
  match s with
  | ',' :: c :: s =>
      if c = '\x7d' then some (repetition least none s)
      else
        let (most, s) ← count? (c :: s)
        countsEnd? least (some most) s
  | s => countsEnd? least (some least) s

def setting? : Char → Option Setting
  | 'i' => some .ignoreCase
  | 'm' => some .multiLine
  | 's' => some .dotNewline
  | 'U' => some .swapEager
  | _ => none

/-- Reads the settings in a group's head up to its end. A setting stands there once, and those
after a minus sign are turned off; the sign stands once and has a setting after it. -/
def groupHead? (read : Settings) (off : Bool) : List Char → Option (Token × List Char)
  | ')' :: s =>
      if read = [] ∨ (off ∧ read.all (·.2)) then none else some (.settings read.reverse, s)
  | ':' :: s => if off ∧ read.all (·.2) then none else some (.opening .plain read.reverse, s)
  | '-' :: s => if off then none else groupHead? read true s
  | c :: s => do
      let setting ← setting? c
      if read.any (·.1 = setting) then none
      else groupHead? ((setting, !off) :: read) off s
  | [] => none

/-- Whether a character may stand in a group's name, which begins with a letter or an underscore. -/
def isNameChar (first : Bool) (c : Char) : Bool :=
  if first then c = '_' || Text.isLetter c
  else c = '_' || c = '.' || c = '[' || c = ']' || Text.isLetterOrNumber c

/-- Reads the name of a group up to its angle bracket. -/
def groupName? (s : List Char) : Option (Token × List Char) :=
  let name := s.takeWhile (· != '>')
  match name, s.dropWhile (· != '>') with
  | first :: others, _ :: rest =>
      if isNameChar true first && others.all (isNameChar false) then
        some (.opening (.named (String.ofList name)) [], rest)
      else none
  | _, _ => none

/-- Reads what follows the opening parenthesis of a group. There are no groups that look ahead or
behind. -/
def group? : List Char → Option (Token × List Char)
  | '?' :: 'P' :: '<' :: s => groupName? s
  | '?' :: '<' :: '=' :: _ | '?' :: '<' :: '!' :: _ => none
  | '?' :: '<' :: s => groupName? s
  | '?' :: s => groupHead? [] false s
  | s => some (.opening .capturing [], s)

/-- Reads the token in front. -/
def token? : List Char → Option (Token × List Char)
  | [] => none
  | '(' :: s => group? s
  | ')' :: s => some (.closing, s)
  | '|' :: s => some (.bar, s)
  | '[' :: s => (class? s).map fun (set, s) => (.item set, s)
  | '?' :: s => some (repetition 0 (some 1) s)
  | '*' :: s => some (repetition 0 none s)
  | '+' :: s => some (repetition 1 none s)
  | '\\' :: s => (escape? s).map fun (escape, s) => (.ofEscape escape, s)
  | '.' :: s => some (.dot, s)
  | '^' :: s => some (.caret, s)
  | '$' :: s => some (.dollar, s)
  | c :: s => if c = '\x7b' then counts? s else some (.ofChar c, s)

/-- Reads all tokens. Each consumes a character and costs one of `fuel`. -/
def tokens? : Nat → List Char → Option (List Token)
  | _, [] => some []
  | 0, _ => none
  | fuel + 1, s =>
      match token? s with
      | none => none
      | some (token, rest) => (tokens? fuel rest).map (token :: ·)

end FeeWindow.Pattern
