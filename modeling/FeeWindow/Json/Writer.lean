import FeeWindow.Binary64.Style
import FeeWindow.Json

/-!
The compact text of a JSON value: no blanks, fields in their order, and no character escaped that
can stand for itself.
-/

namespace FeeWindow.Json

/-- A character inside a JSON string. -/
def escapedChar (c : Char) : List Char :=
  match c with
  | '"' => ['\\', '"']
  | '\\' => ['\\', '\\']
  | '\n' => ['\\', 'n']
  | '\r' => ['\\', 'r']
  | '\t' => ['\\', 't']
  | '\x08' => ['\\', 'b']
  | '\x0c' => ['\\', 'f']
  | c =>
      if c.toNat < 32 then
        ['\\', 'u', '0', '0', Numeral.digitChar (c.toNat / 16), Numeral.digitChar (c.toNat % 16)]
      else [c]

def quoted (s : String) : String :=
  String.ofList ('"' :: s.toList.flatMap escapedChar ++ ['"'])

/-- Texts with commas between them and brackets around them. -/
def bracketed (opening closing : Char) (items : List String) : String :=
  opening.toString ++ String.intercalate "," items ++ closing.toString

mutual

/-- The text of a value. A number that is not finite has no text of its own and is null. -/
def render : Json → String
  | .null => "null"
  | .bool b => if b then "true" else "false"
  | .int n =>
      String.ofList (if n < 0 then '-' :: Numeral.text 10 n.natAbs else Numeral.text 10 n.natAbs)
  | .float x => if x.isFinite then NumberStyle.json.render x else "null"
  | .str s => quoted s
  | .arr items => bracketed '[' ']' (renderItems items)
  | .obj fields => bracketed (Char.ofNat 123) (Char.ofNat 125) (renderFields fields)

def renderItems : List Json → List String
  | [] => []
  | item :: rest => item.render :: renderItems rest

def renderFields : List (String × Json) → List String
  | [] => []
  | (name, value) :: rest => (quoted name ++ ":" ++ value.render) :: renderFields rest

end

end FeeWindow.Json
