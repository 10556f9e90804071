import FeeWindow.Numeral

/-!
A byte shown as a quoted character in a message. The byte is read as the character of the same
number, and a character that would not be visible is written as an escape.
-/

namespace FeeWindow.Text

/-- Whether the character of this number, below 256, leaves no mark when printed: the controls,
the no-break space and the soft hyphen. -/
def isInvisibleByte (n : Nat) : Bool :=
  n < 32 || (127 ≤ n && n ≤ 160) || n = 173

/-- What stands between the quotes for a byte. -/
def escapedByte (b : UInt8) : List Char :=
  match Char.ofNat b.toNat with
  | '\x00' => ['\\', '0']
  | '\t' => ['\\', 't']
  | '\n' => ['\\', 'n']
  | '\r' => ['\\', 'r']
  | '\'' => ['\\', '\'']
  | '\\' => ['\\', '\\']
  | c =>
      if isInvisibleByte b.toNat then
        ['\\', 'u', Char.ofNat 123] ++ Numeral.text 16 b.toNat ++ [Char.ofNat 125]
      else [c]

/-- A byte as a quoted character. -/
def quotedByte (b : UInt8) : String :=
  String.ofList ('\'' :: escapedByte b ++ ['\''])

end FeeWindow.Text
