import FeeWindow.Binary64.Reading
import FeeWindow.Json
import FeeWindow.Numeral

/-!
Numbers of a JSON text. The digits are gathered into a whole number of at most 64 bits; digits
that no longer fit are dropped, those before the point counting as places. A number without
fraction and exponent whose value fits 64 bits is an integer, and minus zero is not.
-/

namespace FeeWindow.Json

/-- Digits gathered so far, and the power of ten that they are to be multiplied by. -/
structure Gathered where
  digits : Nat
  places : Int

/-- Adds digits while they fit 64 bits. Gives back those from the first one that does not. -/
def gather (base : Nat) : List Nat → Nat × List Nat
  | [] => (base, [])
  | d :: rest =>
      if base * 10 + d < UInt64.size then gather (base * 10 + d) rest else (base, d :: rest)

/-- The digits of a whole part and of a fraction. -/
def gathered (whole fraction : List Nat) : Gathered :=
  let (digits, dropped) := gather 0 whole
  let (digits, ignored) := gather digits fraction
  ⟨digits, (dropped.length : Int) - (fraction.length - ignored.length : Nat)⟩

/-- A number with fraction or exponent, or of more than 64 bits. -/
def scaled? (negative : Bool) (g : Gathered) (exponent : Int) : Option Json :=
  (Binary64.ofDecimal? g.digits (g.places + exponent)).map fun x =>
    .float (if negative then x.neg else x)

/-- A number without fraction and exponent. -/
def plain? (negative : Bool) (whole : List Nat) : Option Json :=
  match gather 0 whole with
  | (n, []) =>
      if negative then
        if n = 0 ∨ Nat.pow 2 63 < n then some (.float (Binary64.ofNat n).neg) else some (.int (-n))
      else some (.int n)
  | _ => scaled? negative (gathered whole []) 0

def spanDigits (s : List Char) : List Nat × List Char :=
  ((s.takeWhile Char.isDigit).map fun c => c.toNat - 48, s.dropWhile Char.isDigit)

/-- Reads a fraction, if one is in front; its point needs a digit after it. -/
def fraction? : List Char → Option (Option (List Nat) × List Char)
  | '.' :: s =>
      match spanDigits s with
      | ([], _) => none
      | (ds, rest) => some (some ds, rest)
  | s => some (none, s)

/-- The digits of an exponent, which needs at least one. -/
def exponentDigits? (negative : Bool) (s : List Char) : Option (Option Int × List Char) :=
  match spanDigits s with
  | ([], _) => none
  | (ds, rest) =>
      let n : Int := Numeral.value 10 ds.reverse
      some (some (if negative then -n else n), rest)

/-- Reads an exponent, if one is in front. -/
def exponent? : List Char → Option (Option Int × List Char)
  | 'e' :: s | 'E' :: s =>
      match s with
      | '-' :: s => exponentDigits? true s
      | '+' :: s => exponentDigits? false s
      | s => exponentDigits? false s
  | s => some (none, s)

/-- Reads a number after its sign. The whole part has no zero in front of another digit. -/
def unsigned? (negative : Bool) (s : List Char) : Option (Json × List Char) := do
  let (whole, s) := spanDigits s
  match whole with
  | [] => none
  | 0 :: _ :: _ => none
  | whole =>
    let (fraction, s) ← fraction? s
    let (exponent, s) ← exponent? s
    let value ← match fraction, exponent with
      | none, none => plain? negative whole
      | fraction, exponent =>
          scaled? negative (gathered whole (fraction.getD [])) (exponent.getD 0)
    return (value, s)

def number? : List Char → Option (Json × List Char)
  | '-' :: s => unsigned? true s
  | s => unsigned? false s

end FeeWindow.Json
