import FeeWindow.Bytes
import FeeWindow.Text.Quoted

/-!
The text of a byte sequence: `0x` and two hexadecimal digits a byte. Writing uses lower case;
reading accepts either case and demands the exact length. Lengths and positions in errors count
UTF-8 bytes after the `0x`. The reader of the digits has checks of its own on how many there are.
-/

namespace FeeWindow.Bytes

/-- Why a text is not the hexadecimal form of a byte sequence. -/
inductive HexError where
  | missingMark
  | wrongLength (expected actual : Nat)
  | oddDigits
  | wrongSize
  | badDigit (byte : UInt8) (position : Nat)
  deriving DecidableEq

def HexError.message : HexError → String
  | .missingMark => "Ethereum hex string doesn't start with 0x"
  | .wrongLength expected actual =>
      s!"Invalid hash: expected {expected} characters, got {actual}"
  | .oddDigits => "Invalid hex string: Odd number of digits"
  | .wrongSize => "Invalid hex string: Invalid string length"
  | .badDigit byte position =>
      s!"Invalid hex string: Invalid character {Text.quotedByte byte} at position {position}"

/-- The two digits of a byte. -/
def hexPair (b : UInt8) : List Char :=
  [Numeral.digitChar (b.toNat / 16), Numeral.digitChar (b.toNat % 16)]

/-- The hexadecimal form of a byte sequence. -/
def hex {n : Nat} (bytes : Bytes n) : String :=
  String.ofList ('0' :: 'x' :: bytes.toList.flatMap hexPair)

/-- The digit that a byte stands for in a text at the given position. -/
def hexDigit (byte : UInt8) (position : Nat) : Except HexError Nat :=
  match Numeral.digit? (Char.ofNat byte.toNat) with
  | some d => .ok d
  | none => .error (.badDigit byte position)

/-- Reads pairs of digits; the first byte stands at the given position. A byte without a
partner at the end is left unread. -/
def ofHexPairs (position : Nat) : List UInt8 → Except HexError (List UInt8)
  | high :: low :: rest => do
      let h ← hexDigit high position
      let l ← hexDigit low (position + 1)
      let bytes ← ofHexPairs (position + 2) rest
      return UInt8.ofNat (16 * h + l) :: bytes
  | _ => .ok []

theorem length_of_ofHexPairs : ∀ {position : Nat} {text bytes : List UInt8},
    ofHexPairs position text = .ok bytes → bytes.length = text.length / 2
  | _, [], bytes, h => by
      injection h with h
      simp [← h]
  | _, [_], bytes, h => by
      injection h with h
      simp [← h]
  | position, high :: low :: rest, bytes, h => by
      simp only [ofHexPairs, bind, Except.bind, pure, Except.pure] at h
      split at h
      · cases h
      · split at h
        · cases h
        · split at h
          · cases h
          · next hrest =>
              injection h with h
              have ih := length_of_ofHexPairs hrest
              simp only [← h, List.length_cons]
              omega

/-- Reads the digits of `n` bytes. -/
def ofHexDigits (n : Nat) (text : List UInt8) : Except HexError (Bytes n) :=
  if text.length % 2 ≠ 0 then .error .oddDigits
  else if hsize : text.length / 2 = n then
    match hread : ofHexPairs 0 text with
    | .error e => .error e
    | .ok bytes => .ok ⟨bytes, by rw [length_of_ofHexPairs hread, hsize]⟩
  else .error .wrongSize

/-- Reads `0x` and the digits of `n` bytes. -/
def ofHex (n : Nat) (s : String) : Except HexError (Bytes n) :=
  match s.toList with
  | '0' :: 'x' :: rest =>
      let text := utf8 rest
      if text.length = 2 * n then ofHexDigits n text
      else .error (.wrongLength (2 * n) text.length)
  | _ => .error .missingMark

end FeeWindow.Bytes
