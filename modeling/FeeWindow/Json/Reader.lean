import FeeWindow.Json.Number
import FeeWindow.Numeral

/-!
Reading a JSON text. A name that stands twice in an object keeps its first place and its last
value.
-/

namespace FeeWindow.Json

def isBlank (c : Char) : Bool := c = ' ' || c = '\n' || c = '\t' || c = '\r'

def skipBlanks (s : List Char) : List Char := s.dropWhile isBlank

/-- The number that four hexadecimal digits denote. -/
def codeUnit? (a b c d : Char) : Option Nat := do
  let a ← Numeral.digit? a
  let b ← Numeral.digit? b
  let c ← Numeral.digit? c
  let d ← Numeral.digit? d
  return ((a * 16 + b) * 16 + c) * 16 + d

/-- The character of an escape of one letter. -/
def simpleEscape? : Char → Option Char
  | '"' => some '"'
  | '\\' => some '\\'
  | '/' => some '/'
  | 'b' => some '\x08'
  | 'f' => some '\x0c'
  | 'n' => some '\n'
  | 'r' => some '\r'
  | 't' => some '\t'
  | _ => none

/-- The character of a pair of surrogates. -/
def surrogatePair? (high low : Nat) : Option Char :=
  if 0xD800 ≤ high ∧ high < 0xDC00 ∧ 0xDC00 ≤ low ∧ low < 0xE000 then
    some (Char.ofNat (0x10000 + (high - 0xD800) * 1024 + (low - 0xDC00)))
  else none

/-- Reads the rest of a string after its opening quote. -/
def stringRest? (read : List Char) : List Char → Option (String × List Char)
  | [] => none
  | '"' :: s => some (String.ofList read.reverse, s)
  | '\\' :: 'u' :: a :: b :: c :: d :: s =>
      match codeUnit? a b c d with
      | none => none
      | some unit =>
          if 0xD800 ≤ unit ∧ unit < 0xE000 then
            match s with
            | '\\' :: 'u' :: e :: f :: g :: h :: s =>
                match (codeUnit? e f g h).bind (surrogatePair? unit) with
                | some ch => stringRest? (ch :: read) s
                | none => none
            | _ => none
          else stringRest? (Char.ofNat unit :: read) s
  | '\\' :: c :: s =>
      match simpleEscape? c with
      | some ch => stringRest? (ch :: read) s
      | none => none
  | c :: s => if c.toNat < 32 then none else stringRest? (c :: read) s

/-- Adds a field, or gives the field of that name a new value. -/
def putField (fields : List (String × Json)) (name : String) (value : Json) :
    List (String × Json) :=
  if fields.any (·.1 == name) then
    fields.map fun field => if field.1 == name then (name, value) else field
  else (name, value) :: fields

mutual

/-- Reads a value. Every step from a value to an item, a field or the next of them costs one of
`fuel`, and consumes a character. -/
def value? (fuel : Nat) (s : List Char) : Option (Json × List Char) :=
  match fuel with
  | 0 => none
  | fuel + 1 =>
    match skipBlanks s with
    | [] => none
    | 'n' :: 'u' :: 'l' :: 'l' :: s => some (.null, s)
    | 't' :: 'r' :: 'u' :: 'e' :: s => some (.bool true, s)
    | 'f' :: 'a' :: 'l' :: 's' :: 'e' :: s => some (.bool false, s)
    | '"' :: s => (stringRest? [] s).map fun (text, s) => (.str text, s)
    | '[' :: s =>
        match skipBlanks s with
        | ']' :: s => some (.arr [], s)
        | s => items? fuel [] s
    | c :: s =>
        if c = Char.ofNat 123 then
          match skipBlanks s with
          | [] => none
          | d :: s => if d = Char.ofNat 125 then some (.obj [], s) else fields? fuel [] (d :: s)
        else number? (c :: s)

/-- Reads the items of a list up to its end, after those in `read`. -/
def items? (fuel : Nat) (read : List Json) (s : List Char) : Option (Json × List Char) :=
  match fuel with
  | 0 => none
  | fuel + 1 =>
    match value? fuel s with
    | none => none
    | some (item, s) =>
      match skipBlanks s with
      | ',' :: s => items? fuel (item :: read) s
      | ']' :: s => some (.arr (item :: read).reverse, s)
      | _ => none

/-- Reads the fields of an object up to its end, after those in `read`. -/
def fields? (fuel : Nat) (read : List (String × Json)) (s : List Char) :
    Option (Json × List Char) :=
  match fuel with
  | 0 => none
  | fuel + 1 =>
    match skipBlanks s with
    | '"' :: s =>
      match stringRest? [] s with
      | none => none
      | some (name, s) =>
        match skipBlanks s with
        | ':' :: s =>
          match value? fuel s with
          | none => none
          | some (value, s) =>
            match skipBlanks s with
            | ',' :: s => fields? fuel (putField read name value) s
            | c :: s =>
                if c = Char.ofNat 125 then some (.obj (putField read name value).reverse, s)
                else none
            | [] => none
        | _ => none
    | _ => none

end

def parse? (text : String) : Option Json :=
  let s := text.toList
  match value? (2 * s.length + 2) s with
  | some (value, rest) => if skipBlanks rest = [] then some value else none
  | none => none

end FeeWindow.Json
