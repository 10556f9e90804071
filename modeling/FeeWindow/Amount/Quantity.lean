import FeeWindow.Amount
import FeeWindow.Numeral

/-!
The quantity form of an amount: `0x` and its hexadecimal digits. Writing uses lower case and no
zero at the top, except that zero is `0x0`. Reading accepts either case, zeros at the top and
one plus sign in front.
-/

namespace FeeWindow.Amount

/-- The quantity form of an amount. -/
def quantity (a : Amount) : String := String.ofList ('0' :: 'x' :: Numeral.text 16 a.val)

/-- Reads `0x` and one or more hexadecimal digits. -/
def ofPlainQuantity? : List Char → Option Amount
  | '0' :: 'x' :: ds => (Numeral.ofText? 16 ds).bind ofNat?
  | _ => none

/-- Reads a quantity, with or without a plus sign in front. -/
def ofQuantity? (s : String) : Option Amount :=
  match s.toList with
  | '+' :: rest => ofPlainQuantity? rest
  | cs => ofPlainQuantity? cs

end FeeWindow.Amount
