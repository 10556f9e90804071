import FeeWindow.Uint256

/-!
The message form of one natural number: a header that announces a single value of type `nat`,
then the number in groups of seven bits, least significant first. Every group but the last has
its top bit set. Writing is shortest; reading accepts any number of zero groups at the top. Messages
whose header has types in its table or announces more values are not covered.
-/

namespace FeeWindow

/-- Groups of seven bits as bytes, the top bit set in all but the last. -/
def sevenBitBytes : List Nat → List UInt8
  | [] => []
  | [g] => [UInt8.ofNat g]
  | g :: rest => UInt8.ofNat (g + 128) :: sevenBitBytes rest

/-- The shortest sequence of seven-bit groups of a number; zero is one zero group. -/
def sevenBit (n : Nat) : List UInt8 :=
  if n = 0 then [0] else sevenBitBytes (Numeral.digits 128 n)

/-- Reads groups up to the first byte whose top bit is clear, and gives back what follows it. -/
def ofSevenBit? : List UInt8 → Option (Nat × List UInt8)
  | [] => none
  | b :: rest =>
      if b < 128 then some (b.toNat, rest)
      else (ofSevenBit? rest).map fun (n, after) => (b.toNat - 128 + 128 * n, after)

/-- The magic number, an empty table of types, and one value of type `nat`. -/
def natHeader : List UInt8 := [0x44, 0x49, 0x44, 0x4c, 0x00, 0x01, 0x7d]

def natMessage (n : Nat) : List UInt8 := natHeader ++ sevenBit n

namespace Uint256

def message (n : Uint256) : List UInt8 := natMessage n.val

/-- Reads a message of this header that holds one natural number and nothing after it. -/
def ofMessage? (bytes : List UInt8) : Option Uint256 :=
  if bytes.take natHeader.length = natHeader then
    match ofSevenBit? (bytes.drop natHeader.length) with
    | some (n, []) => ofNat? n
    | _ => none
  else none

end Uint256

end FeeWindow
