import FeeWindow.Amount
import FeeWindow.Numeral

/-!
The text of an amount in messages: its decimal numeral with an underscore between groups of
three digits, counted from the right, as in `1_234_567`.
-/

namespace FeeWindow

/-- Puts an underscore after every third character that has another one after it. -/
def groupThrees : List Char → List Char
  | a :: b :: c :: d :: rest => a :: b :: c :: '_' :: groupThrees (d :: rest)
  | short => short

namespace Amount

/-- The decimal numeral of an amount with its digits in groups of three. -/
def groupedChars (a : Amount) : List Char :=
  (groupThrees (Numeral.text 10 a.val).reverse).reverse

/-- The text of an amount in messages. -/
def grouped (a : Amount) : String := String.ofList a.groupedChars

/-- Reads a decimal numeral whatever underscores stand in it. -/
def ofGrouped? (s : String) : Option Amount :=
  (Numeral.ofText? 10 (s.toList.filter (· != '_'))).bind ofNat?

def decimal (a : Amount) : String := String.ofList (Numeral.text 10 a.val)

end Amount

end FeeWindow
